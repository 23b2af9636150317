/-
# The whole indexer: seed, hand-off, follow

The runs of `veil-indexer`: `seed` against Stellar Expert, `rpc_start`, and `sync_to_tip` against
RPC (`service.rs`, `main.rs`), with the process killed and restarted at any moment and both
sources' lists growing in between.  The writer lock lets one process write at a time, so a `World`
has one process, and `Phase` says where it is.

A checkpoint is a claim about what is stored, and each kind of stream claims something else
(`Claims`): an RPC cursor, every event up to it; the mark of a completed seed, every event of its
ledgers; the cursor of one contract's seed, every event of that contract up to it.  `Consistent`
says that every stored checkpoint claims the truth, and it is what each write keeps
(`Consistent.written`).  The rest of the invariant is what the process itself remembers.
-/
import Veil.Indexer.Handoff

namespace Veil

open EventPosition Tx

/-- What one indexer is configured with. -/
structure Indexer where
  contracts : Contracts
  seedPageSize : Nat
  pageSize : Nat

/-- The follower `service.rs` builds. -/
def Indexer.follower (ix : Indexer) : Follower := ⟨ix.contracts, .rpc, ix.pageSize⟩

/-- The contracts `seed` reads, in order. -/
def Contracts.both (c : Contracts) : List Address := [c.pool, c.allowlist]

/-- A history of the two contracts only. -/
def Contracts.Emit (c : Contracts) (history : History) : Prop :=
  ∀ e ∈ history.events, e.contract ∈ c.both

/-- The first ledger a request asks for. -/
def Start.firstLedger : Start → Nat
  | .ledger sequence => sequence
  | .after cursor => cursor.ledger

namespace Indexing

/-! ## 1. Runs -/

/-- Where the process is. -/
inductive Phase where
  | idle
  /-- Seeding, with these contracts still to read. -/
  | seeding (tip : Nat) (todo : List Address) (report : SeedReport)
  | asking (tip : Nat) (contract : Address) (todo : List Address)
      (previous : Option EventPosition) (report : SeedReport)
  | listed (tip : Nat) (contract : Address) (todo : List Address)
      (previous : Option EventPosition) (report : SeedReport) (records : List ContractEvent)
  /-- Following, with a request outstanding. -/
  | requesting (start : Start) (report : SyncReport)
  | holding (start : Start) (report : SyncReport) (page : EventsPage)

structure World where
  history : History
  /-- The latest ledger a source has named, as its newest or in a cursor. -/
  reported : Nat
  store : Store
  phase : Phase

/-- Nothing read yet. -/
def World.fresh (history : History) : World := ⟨history, 0, .empty, .idle⟩

def Phase.afterRecords (tip : Nat) (contract : Address) (todo : List Address)
    (report : SeedReport) : SeedNext → Phase
  | .ask previous => .asking tip contract todo previous report
  | .contractDone => .seeding tip todo report

def Phase.afterPage (report : SyncReport) : Option Start → Phase
  | some start => .requesting start report
  | none => .idle

/-- A step of `seed`. -/
inductive SeedStep (ix : Indexer) : World → World → Prop
  | latestLedger {w : World} {tip : Nat} (idle : w.phase = .idle) :
      SeedStep ix w { w with
        reported := max w.reported tip
        phase := .seeding tip ix.contracts.both { completeTo := tip } }
  | contract {w : World} {tip : Nat} {contract : Address} {todo : List Address}
      {report : SeedReport} (seeding : w.phase = .seeding tip (contract :: todo) report) :
      SeedStep ix w { w with
        phase := .asking tip contract todo
          ((w.store.checkpoint (.seedOf contract)).map (·.cursor)) report }
  | answer {w : World} {tip : Nat} {contract : Address} {todo : List Address}
      {previous : Option EventPosition} {report : SeedReport} {records : List ContractEvent}
      (asking : w.phase = .asking tip contract todo previous report)
      (honest : HonestListing w.history contract previous ix.seedPageSize tip records) :
      SeedStep ix w { w with phase := .listed tip contract todo previous report records }
  | commit {w : World} {tip : Nat} {contract : Address} {todo : List Address}
      {previous : Option EventPosition} {report report' : SeedReport}
      {records : List ContractEvent} {next : SeedNext} {store : Store}
      (listed : w.phase = .listed tip contract todo previous report records)
      (seeded : seedPage ix.contracts ix.seedPageSize tip contract previous records report
        w.store = .ok (next, report', store)) :
      SeedStep ix w { w with
        store := store
        phase := .afterRecords tip contract todo report' next }
  | finish {w : World} {tip : Nat} {report : SeedReport} {store : Store}
      (seeding : w.phase = .seeding tip [] report) (finished : finishSeed tip w.store = .ok store) :
      SeedStep ix w { w with store := store, phase := .idle }

/-- A step of following.  RPC retains the ledgers from the request's first one on, or from `floor`
on. -/
inductive FollowStep (ix : Indexer) (floor : Nat) : World → World → Prop
  | begin {w : World} {range : LedgerRange} {overlap : Nat} {startLedger : Option Nat}
      {start : Start} {report : SyncReport} (idle : w.phase = .idle)
      (started : rpcStart w.store range overlap = .ok startLedger)
      (began : ix.follower.beginSync startLedger w.store = .ok (start, report)) :
      FollowStep ix floor w { w with phase := .requesting start report }
  | answer {w : World} {start : Start} {report : SyncReport} {page : EventsPage} {oldest : Nat}
      (requesting : w.phase = .requesting start report)
      (retained : oldest ≤ max floor start.firstLedger)
      (honest : HonestPage (w.history.retained oldest) start ix.pageSize page) :
      FollowStep ix floor w { w with
        phase := .holding start report page
        reported := max w.reported (max page.latestLedger page.cursor.ledger) }
  | commit {w : World} {start : Start} {report report' : SyncReport} {page : EventsPage}
      {next : Option Start} {store : Store} (holding : w.phase = .holding start report page)
      (synced : ix.follower.syncPage start page report w.store = .ok (next, report', store)) :
      FollowStep ix floor w { w with store := store, phase := .afterPage report' next }

/-- A step of the process or its surroundings. -/
inductive Step (ix : Indexer) (floor : Nat) : World → World → Prop
  | grow {w : World} {history : History} (grows : w.history.Grows history w.reported)
      (emit : ix.contracts.Emit history) : Step ix floor w { w with history := history }
  | seed {w w' : World} (step : SeedStep ix w w') : Step ix floor w w'
  | follow {w w' : World} (step : FollowStep ix floor w w') : Step ix floor w w'
  /-- The process dies, or an error ends what it was doing. -/
  | kill {w : World} : Step ix floor w { w with phase := .idle }

/-- What any number of steps can lead to. -/
abbrev Reaches (ix : Indexer) (floor : Nat) : World → World → Prop :=
  Relation.ReflTransGen (Step ix floor)

/-! ## 2. What a checkpoint claims -/

/-- Every event of `contract` up to the position of one of the history's events is stored. -/
def SeededTo (history : History) (s : Store) (contract : Address) (p : EventPosition) : Prop :=
  (∃ e ∈ history.events, e.position = p) ∧
    ∀ e ∈ history.events, e.contract = contract → e.position ≤ p → e ∈ s.stored

def Claims (history : History) (reported : Nat) (s : Store) (c : Checkpoint) : Stream → Prop
  | .rpc => c.cursor.IsCursor ∧ c.cursor.ledger ≤ reported ∧
      ∀ e ∈ history.events, e.position ≤ c.cursor → e ∈ s.stored
  | .seed => c.latestLedger ≤ reported ∧
      ∀ e ∈ history.events, e.position.ledger ≤ c.latestLedger → e ∈ s.stored
  | .seedOf contract => SeededTo history s contract c.cursor

/-- **A store that tells the truth about a history**: what it holds was emitted, and what its
checkpoints claim to be stored is. -/
structure Consistent (history : History) (reported : Nat) (s : Store) : Prop where
  sound : s.Sound
  genuine : ∀ e ∈ s.stored, e ∈ history.events
  claims : ∀ stream c, s.checkpoint stream = some c → Claims history reported s c stream

theorem consistent_empty (history : History) (reported : Nat) :
    Consistent history reported .empty where
  sound := Store.sound_empty
  genuine := by simp [Store.stored, Store.empty]
  claims := by
    intro stream c hc
    cases hc

variable {history history' : History} {reported reported' : Nat} {s s' : Store}

theorem SeededTo.grow {contract : Address} {p : EventPosition}
    (h : SeededTo history s contract p) (hg : history.Grows history' reported) :
    SeededTo history' s contract p := by
  obtain ⟨⟨x, hx, rfl⟩, hall⟩ := h
  refine ⟨⟨x, hg.kept.subset hx, rfl⟩, fun e he hcontract hle => ?_⟩
  refine hall e (by_contra fun hnew => ?_) hcontract hle
  exact absurd (hg.after hx he hnew) (not_lt.mpr hle)

theorem SeededTo.mono {contract : Address} {p : EventPosition}
    (h : SeededTo history s contract p) (hsub : ∀ e ∈ s.stored, e ∈ s'.stored) :
    SeededTo history s' contract p :=
  ⟨h.1, fun e he hcontract hle => hsub e (h.2 e he hcontract hle)⟩

theorem Claims.grow {c : Checkpoint} : ∀ {stream : Stream},
    Claims history reported s c stream → history.Grows history' reported →
    Claims history' reported s c stream
  | .rpc, ⟨hcursor, hr, hall⟩, hg => by
    refine ⟨hcursor, hr, fun e he hle => ?_⟩
    rcases hg.later e he with hold | hnew
    · exact hall e hold hle
    · have := ledger_mono hle
      omega
  | .seed, ⟨hr, hall⟩, hg => by
    refine ⟨hr, fun e he hle => ?_⟩
    rcases hg.later e he with hold | hnew
    · exact hall e hold hle
    · omega
  | .seedOf _, h, hg => SeededTo.grow h hg

/-- More stored events and a later reported ledger take nothing from a claim. -/
theorem Claims.mono {c : Checkpoint} (hsub : ∀ e ∈ s.stored, e ∈ s'.stored)
    (hr : reported ≤ reported') : ∀ {stream : Stream},
    Claims history reported s c stream → Claims history reported' s' c stream
  | .rpc, ⟨hcursor, hle, hall⟩ => ⟨hcursor, hle.trans hr, fun e he h => hsub e (hall e he h)⟩
  | .seed, ⟨hle, hall⟩ => ⟨hle.trans hr, fun e he h => hsub e (hall e he h)⟩
  | .seedOf _, h => SeededTo.mono h hsub

theorem Consistent.grow (h : Consistent history reported s)
    (hg : history.Grows history' reported) : Consistent history' reported s where
  sound := h.sound
  genuine := fun e he => hg.kept.subset (h.genuine e he)
  claims := fun stream c hc => (h.claims stream c hc).grow hg

theorem Consistent.report (h : Consistent history reported s) (hr : reported ≤ reported') :
    Consistent history reported' s where
  sound := h.sound
  genuine := h.genuine
  claims := fun stream c hc => (h.claims stream c hc).mono (fun _ he => he) hr

/-- **A write keeps the truth** if its events were emitted and its checkpoint claims what is then
stored. -/
theorem Consistent.written {stream : Stream} {batch : List EmittedEvent} {c : Checkpoint}
    (h : Consistent history reported s) (hw : Store.Written stream batch c s s')
    (hbatch : ∀ e ∈ batch, e ∈ history.events) (hclaim : Claims history reported s' c stream) :
    Consistent history reported s' where
  sound := hw.sound
  genuine := by
    intro e he
    rcases (hw.stored e).mp he with he | he
    · exact h.genuine e he
    · exact hbatch e he
  claims := by
    intro other c' hc'
    by_cases hother : other = stream
    · subst hother
      obtain rfl := Option.some.inj (hw.checkpoint_self.symm.trans hc')
      exact hclaim
    · rw [hw.checkpoint_of_ne hother] at hc'
      exact (h.claims other c' hc').mono (fun e he => (hw.stored e).mpr (.inl he)) le_rfl

/-! ## 3. The invariant -/

/-- Every event of `contract` in the ledgers up to `tip` is stored. -/
def Read (w : World) (tip : Nat) (contract : Address) : Prop :=
  ∀ e ∈ w.history.events, e.contract = contract → e.position.ledger ≤ tip → e ∈ w.store.stored

/-- The seed has come to `todo`: what comes before it in its list is read. -/
def Seeding (ix : Indexer) (w : World) (tip : Nat) (todo : List Address) : Prop :=
  tip ≤ w.reported ∧ ∃ done, done ++ todo = ix.contracts.both ∧ ∀ a ∈ done, Read w tip a

/-- A request the follower may have outstanding: the first one, with every earlier ledger stored,
or one after the stored cursor. -/
def Resumes (w : World) : Start → Prop
  | .ledger l => w.store.checkpoint .rpc = none ∧ l ≤ w.reported + 1 ∧
      ∀ e ∈ w.history.events, e.position.ledger < l → e ∈ w.store.stored
  | .after c => ∃ checkpoint, w.store.checkpoint .rpc = some checkpoint ∧ checkpoint.cursor = c

/-- What the process remembers is true. -/
def Phase.Valid (ix : Indexer) (floor : Nat) (w : World) : Phase → Prop
  | .idle => True
  | .seeding tip todo _ => Seeding ix w tip todo
  | .asking tip contract todo previous _ => Seeding ix w tip (contract :: todo) ∧
      ∀ p ∈ previous, SeededTo w.history w.store contract p
  | .listed tip contract todo previous _ records => Seeding ix w tip (contract :: todo) ∧
      (∀ p ∈ previous, SeededTo w.history w.store contract p) ∧
      Lists w.history contract previous ix.seedPageSize tip records
  | .requesting start _ => Resumes w start
  | .holding start _ page => Resumes w start ∧ page.cursor.ledger ≤ w.reported ∧
      ∃ oldest ≤ max floor start.firstLedger, Serves (w.history.retained oldest) start page

structure Inv (ix : Indexer) (floor : Nat) (w : World) : Prop where
  emit : ix.contracts.Emit w.history
  consistent : Consistent w.history w.reported w.store
  /-- What RPC may have dropped is stored. -/
  dropped : floor ≤ w.reported + 1 ∧
    ∀ e ∈ w.history.events, e.position.ledger < floor → e ∈ w.store.stored
  phase : w.phase.Valid ix floor w

theorem inv_fresh {ix : Indexer} {history : History} (h : ix.contracts.Emit history) :
    Inv ix 0 (.fresh history) where
  emit := h
  consistent := consistent_empty history 0
  dropped := ⟨Nat.zero_le _, fun _ _ h => absurd h (Nat.not_lt_zero _)⟩
  phase := trivial

variable {ix : Indexer} {floor tip : Nat} {w : World} {contract : Address} {todo : List Address}
  {previous : Option EventPosition}

/-! ### Growth -/

/-- Nothing new lies in a ledger up to `l`, if a source has named `l`. -/
theorem stored_of_grow {l : Nat} {P : EmittedEvent → Prop}
    (h : ∀ e ∈ history.events, P e → e.position.ledger < l → e ∈ s.stored)
    (hg : history.Grows history' reported) (hl : l ≤ reported + 1) :
    ∀ e ∈ history'.events, P e → e.position.ledger < l → e ∈ s.stored := by
  intro e he hP hlt
  rcases hg.later e he with hold | hnew
  · exact h e hold hP hlt
  · omega

theorem Seeding.grow (h : Seeding ix w tip todo) (hg : w.history.Grows history w.reported) :
    Seeding ix { w with history := history } tip todo := by
  obtain ⟨htip, done, hdone, hread⟩ := h
  refine ⟨htip, done, hdone, fun a ha e he hcontract hle => ?_⟩
  exact stored_of_grow (P := fun e => e.contract = a)
    (fun e he hc hlt => hread a ha e he hc (Nat.le_of_lt_succ hlt)) hg (Nat.succ_le_succ htip) e he
    hcontract (Nat.lt_succ_of_le hle)

theorem Resumes.grow {start : Start} (h : Resumes w start)
    (hg : w.history.Grows history w.reported) : Resumes { w with history := history } start := by
  cases start with
  | after c => exact h
  | ledger l =>
    obtain ⟨hnone, hl, hall⟩ := h
    refine ⟨hnone, hl, fun e he hlt => ?_⟩
    exact stored_of_grow (P := fun _ => True) (fun e he _ => hall e he) hg hl e he trivial hlt

theorem Phase.Valid.grow : ∀ {phase : Phase}, phase.Valid ix floor w →
    w.history.Grows history w.reported → phase.Valid ix floor { w with history := history }
  | .idle, _, _ => trivial
  | .seeding _ _ _, h, hg => Seeding.grow h hg
  | .asking _ _ _ _ _, ⟨hs, hp⟩, hg => ⟨hs.grow hg, fun p hm => (hp p hm).grow hg⟩
  | .listed _ _ _ _ _ _, ⟨hs, hp, hl⟩, hg =>
    ⟨hs.grow hg, fun p hm => (hp p hm).grow hg, hl.grow hg hs.1⟩
  | .requesting _ _, h, hg => Resumes.grow h hg
  | .holding _ _ _, ⟨hres, hrep, oldest, hold, hserves⟩, hg =>
    ⟨hres.grow hg, hrep, oldest, hold, hserves.grow (hg.retained oldest) hrep⟩

theorem Inv.grow (h : Inv ix floor w) (hg : w.history.Grows history w.reported)
    (hemit : ix.contracts.Emit history) : Inv ix floor { w with history := history } where
  emit := hemit
  consistent := h.consistent.grow hg
  dropped := ⟨h.dropped.1, fun e he hlt =>
    stored_of_grow (P := fun _ => True) (fun e he _ => h.dropped.2 e he) hg h.dropped.1 e he trivial
      hlt⟩
  phase := h.phase.grow hg

/-- A step that only changes where the process is, and what has been reported. -/
theorem Inv.move {phase : Phase} (h : Inv ix floor w) (hr : w.reported ≤ reported)
    (hphase : phase.Valid ix floor { w with reported := reported, phase := phase }) :
    Inv ix floor { w with reported := reported, phase := phase } where
  emit := h.emit
  consistent := h.consistent.report hr
  dropped := ⟨h.dropped.1.trans (Nat.succ_le_succ hr), h.dropped.2⟩
  phase := hphase

/-- A step that writes. -/
theorem Inv.write {stream : Stream} {batch : List EmittedEvent} {c : Checkpoint} {store : Store}
    {phase : Phase} (h : Inv ix floor w) (hw : Store.Written stream batch c w.store store)
    (hbatch : ∀ e ∈ batch, e ∈ w.history.events)
    (hclaim : Claims w.history w.reported store c stream)
    (hphase : phase.Valid ix floor { w with store := store, phase := phase }) :
    Inv ix floor { w with store := store, phase := phase } where
  emit := h.emit
  consistent := h.consistent.written hw hbatch hclaim
  dropped := ⟨h.dropped.1, fun e he hlt => (hw.stored e).mpr (.inl (h.dropped.2 e he hlt))⟩
  phase := hphase

/-! ### Seeding -/

theorem Inv.latestLedger (h : Inv ix floor w) :
    Inv ix floor { w with
      reported := max w.reported tip
      phase := .seeding tip ix.contracts.both { completeTo := tip } } :=
  h.move (le_max_left _ _) ⟨le_max_right _ _, [], rfl, by simp⟩

theorem Inv.openContract {report : SeedReport} (h : Inv ix floor w)
    (seeding : w.phase = .seeding tip (contract :: todo) report) :
    Inv ix floor { w with
      phase := .asking tip contract todo
        ((w.store.checkpoint (.seedOf contract)).map (·.cursor)) report } := by
  have hphase := h.phase
  rw [seeding] at hphase
  refine h.move le_rfl ⟨hphase, fun p hp => ?_⟩
  obtain ⟨c, hc, rfl⟩ := Option.map_eq_some_iff.mp (Option.mem_def.mp hp)
  exact h.consistent.claims _ c hc

theorem Inv.listing {report : SeedReport} {records : List ContractEvent} (h : Inv ix floor w)
    (asking : w.phase = .asking tip contract todo previous report)
    (honest : HonestListing w.history contract previous ix.seedPageSize tip records) :
    Inv ix floor { w with phase := .listed tip contract todo previous report records } := by
  have hphase := h.phase
  rw [asking] at hphase
  exact h.move le_rfl ⟨hphase.1, hphase.2, honest.lists⟩

/-- Everything of `contract` up to the last record is stored once the records are: up to the
previous position it was before, after it the answer left nothing out. -/
theorem seededTo_last {records : List ContractEvent} {limit : Nat} {last : ContractEvent}
    (hprevious : ∀ p ∈ previous, SeededTo history s contract p)
    (hlists : Lists history contract previous limit tip records) (hlast : last ∈ records.getLast?)
    (hstored : ∀ e, e ∈ s'.stored ↔ e ∈ s.stored ∨ e ∈ records.map (·.toEmittedEvent)) :
    SeededTo history s' contract last.position := by
  have hmem := hlists.genuine _ (List.mem_map_of_mem (List.mem_of_getLast? hlast))
  refine ⟨⟨_, hmem, rfl⟩, fun e he hcontract hle => (hstored e).mpr ?_⟩
  by_cases hafter : ∀ p ∈ previous, p < e.position
  · exact .inr (hlists.upTo last hlast e he (listed_iff.mpr ⟨hcontract, hafter⟩) hle)
  · push Not at hafter
    obtain ⟨p, hp, hle'⟩ := hafter
    exact .inl ((hprevious p hp).2 e he hcontract hle')

/-- After a short answer all of the contract's ledgers up to the tip are stored. -/
theorem read_of_short {records : List ContractEvent} {store : Store} {limit : Nat} {phase : Phase}
    (hprevious : ∀ p ∈ previous, SeededTo w.history w.store contract p)
    (hlists : Lists w.history contract previous limit tip records)
    (hshort : records.length < limit)
    (hstored : ∀ e, e ∈ store.stored ↔ e ∈ w.store.stored ∨ e ∈ records.map (·.toEmittedEvent)) :
    Read { w with store := store, phase := phase } tip contract := by
  intro e he hcontract hle
  refine (hstored e).mpr ?_
  by_cases hafter : ∀ p ∈ previous, p < e.position
  · exact .inr (hlists.complete hshort e he (listed_iff.mpr ⟨hcontract, hafter⟩) hle)
  · push Not at hafter
    obtain ⟨p, hp, hle'⟩ := hafter
    exact .inl ((hprevious p hp).2 e he hcontract hle')

theorem Seeding.mono {store : Store} {phase : Phase} (h : Seeding ix w tip todo)
    (hsub : ∀ e ∈ w.store.stored, e ∈ store.stored) :
    Seeding ix { w with store := store, phase := phase } tip todo := by
  obtain ⟨htip, done, hdone, hread⟩ := h
  exact ⟨htip, done, hdone, fun a ha e he hc hle => hsub e (hread a ha e he hc hle)⟩

/-- The contract just read joins those that are done. -/
theorem Seeding.done (h : Seeding ix w tip (contract :: todo)) (hread : Read w tip contract) :
    Seeding ix w tip todo := by
  obtain ⟨htip, done, hdone, hall⟩ := h
  refine ⟨htip, done ++ [contract], by rw [List.append_assoc]; exact hdone, fun a ha => ?_⟩
  rcases List.mem_append.mp ha with ha | ha
  · exact hall a ha
  · obtain rfl := List.mem_singleton.mp ha
    exact hread

theorem Inv.records {report report' : SeedReport} {records : List ContractEvent} {next : SeedNext}
    {store : Store} (h : Inv ix floor w)
    (listed : w.phase = .listed tip contract todo previous report records)
    (seeded : seedPage ix.contracts ix.seedPageSize tip contract previous records report w.store =
      .ok (next, report', store)) :
    Inv ix floor { w with
      store := store
      phase := .afterRecords tip contract todo report' next } := by
  have hphase := h.phase
  rw [listed] at hphase
  obtain ⟨hseeding, hprevious, hlists⟩ := hphase
  have hround := Seed.seedPage_ok h.consistent.sound seeded
  -- both kinds of round leave the old events and the records
  have hstored : ∀ e, e ∈ store.stored ↔
      e ∈ w.store.stored ∨ e ∈ records.map (·.toEmittedEvent) := by
    rcases hround.wrote with ⟨rfl, rfl⟩ | ⟨last, -, hw⟩
    · simp
    · exact hw.stored
  have hsub : ∀ e ∈ w.store.stored, e ∈ store.stored := fun e he => (hstored e).mpr (.inl he)
  have hvalid : (Phase.afterRecords tip contract todo report' next).Valid ix floor
      { w with store := store, phase := .afterRecords tip contract todo report' next } := by
    rcases hround.resumes with rfl | ⟨rfl, hshort⟩
    · refine ⟨hseeding.mono hsub, fun p hp => ?_⟩
      cases hlast : records.getLast? with
      | none =>
        rw [hlast] at hp
        exact (hprevious p hp).mono hsub
      | some last =>
        rw [hlast] at hp
        obtain rfl := Option.some.inj (Option.mem_def.mp hp)
        exact seededTo_last hprevious hlists (Option.mem_def.mpr hlast) hstored
    · exact (hseeding.mono hsub).done (read_of_short hprevious hlists hshort hstored)
  rcases hround.wrote with ⟨-, rfl⟩ | ⟨last, hlast, hw⟩
  · exact h.move le_rfl hvalid
  · exact h.write hw hlists.genuine (seededTo_last hprevious hlists hlast hstored) hvalid

theorem Inv.finish {report : SeedReport} {store : Store} (h : Inv ix floor w)
    (seeding : w.phase = .seeding tip [] report) (finished : finishSeed tip w.store = .ok store) :
    Inv ix floor { w with store := store, phase := .idle } := by
  have hphase := h.phase
  rw [seeding] at hphase
  obtain ⟨htip, done, hdone, hread⟩ := hphase
  have hw := finishSeed_ok h.consistent.sound finished
  refine h.write hw (by simp) ⟨htip, fun e he hle => ?_⟩ trivial
  have hcontract : e.contract ∈ done := by
    rw [List.append_nil] at hdone
    rw [hdone]
    exact h.emit e he
  exact (hw.stored e).mpr (.inl (hread _ hcontract e he rfl hle))

theorem Inv.seed {w' : World} (h : Inv ix floor w) (hstep : SeedStep ix w w') :
    Inv ix floor w' := by
  cases hstep with
  | latestLedger idle => exact h.latestLedger
  | contract seeding => exact h.openContract seeding
  | answer asking honest => exact h.listing asking honest
  | commit listed seeded => exact h.records listed seeded
  | finish seeding finished => exact h.finish seeding finished

/-! ### Following -/

/-- What `rpc_start` names, `sync_to_tip` may ask for. -/
theorem Inv.resumes {range : LedgerRange} {overlap : Nat} {startLedger : Option Nat} {start : Start}
    {report : SyncReport} (h : Inv ix floor w)
    (started : rpcStart w.store range overlap = .ok startLedger)
    (began : ix.follower.beginSync startLedger w.store = .ok (start, report)) :
    Resumes w start := by
  unfold Follower.beginSync at began
  simp only [Indexer.follower] at began
  cases hc : w.store.checkpoint .rpc with
  | some c =>
    rw [hc] at began
    obtain ⟨rfl, -⟩ := Prod.mk.inj (Except.ok.inj began)
    exact ⟨c, hc, rfl⟩
  | none =>
    cases hs : w.store.checkpoint .seed with
    | none =>
      rw [rpcStart_of_neither hc hs] at started
      cases started
    | some c =>
      rw [rpcStart_of_seed hc hs] at started
      split at started
      · cases started
      · rename_i hretained
        obtain rfl := Except.ok.inj started
        rw [hc] at began
        obtain ⟨rfl, -⟩ := Prod.mk.inj (Except.ok.inj began)
        obtain ⟨hr, hall⟩ := h.consistent.claims .seed c hs
        exact ⟨hc, by omega, fun e he hlt => hall e he (by omega)⟩

theorem Inv.begin {range : LedgerRange} {overlap : Nat} {startLedger : Option Nat} {start : Start}
    {report : SyncReport} (h : Inv ix floor w)
    (started : rpcStart w.store range overlap = .ok startLedger)
    (began : ix.follower.beginSync startLedger w.store = .ok (start, report)) :
    Inv ix floor { w with phase := .requesting start report } := by
  have hres : Resumes w start := h.resumes started began
  refine h.move le_rfl ?_
  cases start <;> exact hres

theorem Resumes.report {start : Start} {phase : Phase} (h : Resumes w start)
    (hr : w.reported ≤ reported) :
    Resumes { w with reported := reported, phase := phase } start := by
  cases start with
  | after c => exact h
  | ledger l => exact ⟨h.1, h.2.1.trans (Nat.succ_le_succ hr), h.2.2⟩

theorem Inv.page {start : Start} {report : SyncReport} {page : EventsPage} {oldest : Nat}
    (h : Inv ix floor w) (requesting : w.phase = .requesting start report)
    (retained : oldest ≤ max floor start.firstLedger)
    (honest : HonestPage (w.history.retained oldest) start ix.pageSize page) :
    Inv ix floor { w with
      phase := .holding start report page
      reported := max w.reported (max page.latestLedger page.cursor.ledger) } := by
  have hphase := h.phase
  rw [requesting] at hphase
  exact h.move (le_max_left _ _) ⟨Resumes.report hphase (le_max_left _ _),
    (le_max_right _ _).trans (le_max_right _ _), oldest, retained, honest.serves⟩

/-- An event that is not stored yet lies where the request asks, and RPC still has it. -/
theorem Inv.asked {start : Start} {oldest : Nat} {e : EmittedEvent} (h : Inv ix floor w)
    (hres : Resumes w start) (hretained : oldest ≤ max floor start.firstLedger)
    (he : e ∈ w.history.events) (hnot : e ∉ w.store.stored) :
    e ∈ (w.history.retained oldest).events ∧ start.admits e = true := by
  have hfloor : floor ≤ e.position.ledger := not_lt.mp fun hlt => hnot (h.dropped.2 e he hlt)
  rw [History.mem_retained]
  cases start with
  | ledger l =>
    have hl : l ≤ e.position.ledger := not_lt.mp fun hlt => hnot (hres.2.2 e he hlt)
    refine ⟨⟨he, hretained.trans (max_le hfloor hl)⟩, ?_⟩
    rw [Start.admits, decide_eq_true_iff]
    exact hl
  | after c =>
    obtain ⟨checkpoint, hc, rfl⟩ := hres
    have hlt : checkpoint.cursor < e.position :=
      not_le.mp fun hle => hnot ((h.consistent.claims .rpc _ hc).2.2 e he hle)
    refine ⟨⟨he, hretained.trans (max_le hfloor (ledger_mono hlt.le))⟩, ?_⟩
    rw [Start.admits, decide_eq_true_iff]
    exact hlt

theorem Inv.commit {start : Start} {report report' : SyncReport} {page : EventsPage}
    {next : Option Start} {store : Store} (h : Inv ix floor w)
    (holding : w.phase = .holding start report page)
    (synced : ix.follower.syncPage start page report w.store = .ok (next, report', store)) :
    Inv ix floor { w with store := store, phase := .afterPage report' next } := by
  have hphase := h.phase
  rw [holding] at hphase
  obtain ⟨hres, hrep, oldest, hretained, hserves⟩ := hphase
  have hround := Follower.syncPage_ok h.consistent.sound synced
  have hstored := hserves.stored hround
  have hgenuine : ∀ e ∈ page.events.map (·.toEmittedEvent), e ∈ w.history.events :=
    fun e he => (History.mem_retained.mp (hserves.genuine e he).1).1
  have hcovers : ∀ e ∈ w.history.events, e.position ≤ page.cursor → e ∈ store.stored := by
    intro e he hle
    rw [hstored e]
    by_cases hold : e ∈ w.store.stored
    · exact .inl hold
    · obtain ⟨hmem, hadmits⟩ := h.asked hres hretained he hold
      exact .inr ⟨hmem, hadmits, hle⟩
  rcases hround.wrote with hw | ⟨rfl, -, rfl⟩
  · refine h.write hw hgenuine ⟨hserves.cursor, hrep, hcovers⟩ ?_
    cases next with
    | none => trivial
    | some start' =>
      rw [hround.resumes start' rfl]
      exact ⟨_, hw.checkpoint_self, rfl⟩
  · -- a page that brought nothing new: the stored cursor is the page's already
    refine h.move le_rfl ?_
    cases next with
    | none => trivial
    | some start' =>
      rw [hround.resumes start' rfl]
      exact hres

theorem Inv.follow {w' : World} (h : Inv ix floor w) (hstep : FollowStep ix floor w w') :
    Inv ix floor w' := by
  cases hstep with
  | begin idle started began => exact h.begin started began
  | answer requesting retained honest => exact h.page requesting retained honest
  | commit holding synced => exact h.commit holding synced

/-! ## 4. Whole runs -/

theorem Inv.step {w' : World} (h : Inv ix floor w) (hstep : Step ix floor w w') :
    Inv ix floor w' := by
  cases hstep with
  | grow grows emit => exact h.grow grows emit
  | seed step => exact h.seed step
  | follow step => exact h.follow step
  | kill => exact h.move le_rfl trivial

theorem Inv.run {w' : World} (h : Inv ix floor w) (hrun : Reaches ix floor w w') :
    Inv ix floor w' := by
  induction hrun with
  | refl => exact h
  | tail _ hstep ih => exact ih.step hstep

/-- **Every run leaves a store that tells the truth.** -/
theorem consistent_of_reaches {w' : World} (hemit : ix.contracts.Emit history)
    (hrun : Reaches ix 0 (.fresh history) w') :
    Consistent w'.history w'.reported w'.store :=
  ((inv_fresh hemit).run hrun).consistent

/-- What `indexed_ledger` reports complete is stored. -/
theorem Consistent.indexed (h : Consistent history reported s) {e : EmittedEvent}
    (he : e ∈ history.events) (hi : e.position.ledger ≤ Verify.indexedLedger s) :
    e ∈ s.stored := by
  have hpos := (history.storable e he).ledger
  cases hc : s.checkpoint .rpc with
  | none =>
    rw [Verify.indexedLedger, hc] at hi
    exact absurd hi (Nat.not_le.mpr hpos)
  | some c =>
    rw [Verify.indexedLedger_eq hc] at hi
    obtain ⟨hcursor, -, hall⟩ := h.claims .rpc c hc
    exact hall e he (hcursor.covers hpos hi)

end Indexing

end Veil
