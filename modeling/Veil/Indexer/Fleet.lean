/-
# Many indexers, one index

Any number of instances of the service over one database, with connections lost, processes killed
and started, and every read and write of theirs in any order.

An instance may hold on to what it has read while others write: the start of a request, a page, the
checkpoint it has seen.  None of it becomes false.  Events are never deleted, a source that has
named a ledger adds nothing to it, and so "everything up to here is stored" stays true once it is
(`Later`).  The rule of `RelyGuarantee` turns that into an invariant of every run:

* `fleet_index_tells_truth`: the index tells the truth about the contracts, however many instances
  have written to it at once;
* `ready_means_indexed`: an instance that reports ready has everything but the last few ledgers;
* `one_writer`: as long as no connection drops, one instance works at a time and checkpoints ascend.
-/
import Veil.Indexer.Mirror
import Veil.Indexer.Service

namespace Veil

open EventPosition Tx

namespace Service

open Following (twoNullifiers)
open Indexing (Phase Consistent Claims SeededTo Seeding Read)

variable {ι : Type} {ix : Indexer} {s s' : Shared ι}

/-! ## 1. What stays true -/

/-- **Nothing stored is lost, and nothing is added to a ledger that was named.** -/
structure Later (s s' : Shared ι) : Prop where
  history : s.history.Grows s'.history s.reported
  stored : ∀ e ∈ s.store.stored, e ∈ s'.store.stored
  reported : s.reported ≤ s'.reported

theorem grows_refl (history : History) (reported : Nat) : history.Grows history reported :=
  ⟨List.prefix_rfl, fun _ he => .inl he⟩

theorem Later.refl (s : Shared ι) : Later s s :=
  ⟨grows_refl _ _, fun _ he => he, le_rfl⟩

theorem Later.trans {s'' : Shared ι} (h : Later s s') (h' : Later s' s'') : Later s s'' where
  history := by
    refine ⟨h.history.kept.trans h'.history.kept, fun e he => ?_⟩
    rcases h'.history.later e he with hold | hnew
    · exact h.history.later e hold
    · exact .inr (h.reported.trans_lt hnew)
  stored := fun e he => h'.stored e (h.stored e he)
  reported := h.reported.trans h'.reported

/-- What is stored of the ledgers before `l` is all there will be. -/
theorem Later.stored_before (h : Later s s') {P : EmittedEvent → Prop} {l : Nat}
    (hl : l ≤ s.reported + 1)
    (hall : ∀ e ∈ s.history.events, P e → e.position.ledger < l → e ∈ s.store.stored) :
    ∀ e ∈ s'.history.events, P e → e.position.ledger < l → e ∈ s'.store.stored := by
  intro e he hP hlt
  rcases h.history.later e he with hold | hnew
  · exact h.stored e (hall e hold hP hlt)
  · omega

theorem Later.claims (h : Later s s') {c : Checkpoint} {stream : Stream}
    (hclaims : Claims s.history s.reported s.store c stream) :
    Claims s'.history s'.reported s'.store c stream :=
  (hclaims.grow h.history).mono h.stored h.reported

theorem Later.seededTo (h : Later s s') {contract : Address} {p : EventPosition}
    (hseeded : SeededTo s.history s.store contract p) :
    SeededTo s'.history s'.store contract p :=
  (hseeded.grow h.history).mono h.stored

/-! ## 2. What an instance knows -/

/-- The world of a single process with these sources and this store. -/
def world (s : Shared ι) : Indexing.World := ⟨s.history, s.reported, s.store, .idle⟩

/-- Everything before a request's start is stored. -/
def Covered (s : Shared ι) : Start → Prop
  | .ledger l => l ≤ s.reported + 1 ∧
      ∀ e ∈ s.history.events, e.position.ledger < l → e ∈ s.store.stored
  | .after c => c.IsCursor ∧ c.ledger ≤ s.reported ∧
      ∀ e ∈ s.history.events, e.position ≤ c → e ∈ s.store.stored

/-- What a report of `sync_to_tip` says is true, and once a cursor is behind it, it names one. -/
def Reported (s : Shared ι) (start : Start) (report : SyncReport) : Prop :=
  (∀ c, start = .after c → report.checkpoint.isSome = true) ∧
    ∀ c ∈ report.checkpoint, Covered s (.after c.cursor)

/-- What an instance in `seed` or `sync_to_tip` remembers is true. -/
def PhaseTrue (ix : Indexer) (s : Shared ι) : Phase → Prop
  | .idle => True
  | .seeding tip todo _ => Seeding ix (world s) tip todo
  | .asking tip contract todo previous _ => Seeding ix (world s) tip (contract :: todo) ∧
      ∀ p ∈ previous, SeededTo s.history s.store contract p
  | .listed tip contract todo previous _ records => Seeding ix (world s) tip (contract :: todo) ∧
      (∀ p ∈ previous, SeededTo s.history s.store contract p) ∧
      Lists s.history contract previous ix.seedPageSize tip records
  | .requesting start report => Covered s start ∧ Reported s start report
  | .holding start report page => (Covered s start ∧ Reported s start report) ∧
      page.cursor.ledger ≤ s.reported ∧
      ∃ oldest ≤ start.firstLedger, Serves (s.history.retained oldest) start page

def TaskTrue (ix : Indexer) (s : Shared ι) : Task → Prop
  | .starting _ startLedger => ∀ l ∈ startLedger, Covered s (.ledger l)
  | .busy _ phase _ => PhaseTrue ix s phase
  | _ => True

theorem phaseTrue_of_busy {range : LedgerRange} {phase : Phase} {seen : Option (Option Checkpoint)}
    (h : TaskTrue ix s (.busy range phase seen)) : PhaseTrue ix s phase := h

/-- What `/ready` reports is true. -/
structure StatusTrue (s : Shared ι) (status : Status) : Prop where
  known : status.lastSuccess.isSome = true →
    status.indexedLedger.isSome = true ∧ status.latestLedger.isSome = true
  indexed : ∀ l ∈ status.indexedLedger, l ≤ s.reported ∧
    ∀ e ∈ s.history.events, e.position.ledger < l → e ∈ s.store.stored

structure InstanceTrue (ix : Indexer) (s : Shared ι) (p : Instance) : Prop where
  task : TaskTrue ix s p.task
  status : StatusTrue s p.status

/-- The index tells the truth. -/
structure IndexTrue (ix : Indexer) (s : Shared ι) : Prop where
  emit : ix.contracts.Emit s.history
  consistent : Consistent s.history s.reported s.store

theorem Later.covered (h : Later s s') : ∀ {start : Start}, Covered s start → Covered s' start
  | .ledger _, ⟨hl, hall⟩ => by
    refine ⟨hl.trans (Nat.succ_le_succ h.reported), fun e he hlt => ?_⟩
    exact h.stored_before (P := fun _ => True) hl (fun e he _ => hall e he) e he trivial hlt
  | .after c, hcovered =>
    h.claims (show Claims s.history s.reported s.store ⟨c, 0⟩ .rpc from hcovered)

theorem Later.reports (h : Later s s') {start : Start} {report : SyncReport}
    (hreported : Reported s start report) : Reported s' start report :=
  ⟨hreported.1, fun c hc => h.covered (hreported.2 c hc)⟩

theorem Later.seeding (h : Later s s') {tip : Nat} {todo : List Address}
    (hseeding : Seeding ix (world s) tip todo) : Seeding ix (world s') tip todo := by
  obtain ⟨htip, done, hdone, hread⟩ := hseeding
  refine ⟨htip.trans h.reported, done, hdone, fun a ha e he hcontract hle => ?_⟩
  have hbefore : ∀ e ∈ s.history.events, e.contract = a → e.position.ledger < tip + 1 →
      e ∈ s.store.stored := fun e he hc hlt => hread a ha e he hc (Nat.le_of_lt_succ hlt)
  exact h.stored_before (Nat.succ_le_succ htip) hbefore e he hcontract (Nat.lt_succ_of_le hle)

theorem Later.phase (h : Later s s') : ∀ {phase : Phase}, PhaseTrue ix s phase →
    PhaseTrue ix s' phase
  | .idle, _ => trivial
  | .seeding _ _ _, hs => h.seeding hs
  | .asking _ _ _ _ _, ⟨hs, hp⟩ => ⟨h.seeding hs, fun p hm => h.seededTo (hp p hm)⟩
  | .listed _ _ _ _ _ _, ⟨hs, hp, hl⟩ =>
    ⟨h.seeding hs, fun p hm => h.seededTo (hp p hm), hl.grow h.history hs.1⟩
  | .requesting _ _, ⟨hc, hr⟩ => ⟨h.covered hc, h.reports hr⟩
  | .holding _ _ _, ⟨⟨hc, hr⟩, hrep, oldest, hold, hserves⟩ =>
    ⟨⟨h.covered hc, h.reports hr⟩, hrep.trans h.reported, oldest, hold,
      hserves.grow (h.history.retained oldest) hrep⟩

theorem Later.task (h : Later s s') : ∀ {task : Task}, TaskTrue ix s task → TaskTrue ix s' task
  | .waiting, _ => trivial
  | .resting _, _ => trivial
  | .handingOff _ _, _ => trivial
  | .unfollowed _ _, _ => trivial
  | .starting _ _, hall => fun l hl => h.covered (hall l hl)
  | .busy _ _ _, hphase => h.phase hphase
  | .stopped, _ => trivial

theorem Later.status (h : Later s s') {status : Status} (hstatus : StatusTrue s status) :
    StatusTrue s' status where
  known := hstatus.known
  indexed := by
    intro l hl
    obtain ⟨hle, hall⟩ := hstatus.indexed l hl
    refine ⟨hle.trans h.reported, fun e he hlt => ?_⟩
    exact h.stored_before (P := fun _ => True) (hle.trans (Nat.le_succ _))
      (fun e he _ => hall e he) e he trivial hlt

/-- **What an instance knows stays true**, whatever the others do. -/
theorem Later.instanceTrue (h : Later s s') {p : Instance} (hp : InstanceTrue ix s p) :
    InstanceTrue ix s' p :=
  ⟨h.task hp.task, h.status hp.status⟩

/-! ## 3. What an answer adds -/

/-- After an answer: the next request, or the contract is read. -/
theorem phaseTrue_afterRecords {tip : Nat} {contract : Address} {todo : List Address}
    {previous : Option EventPosition} {report : SeedReport} {records : List ContractEvent}
    {next : SeedNext} (hlater : Later s s')
    (hphase : PhaseTrue ix s (.listed tip contract todo previous report records))
    (hnext : next = .ask ((records.getLast?.map (·.position)).or previous) ∨
      next = .contractDone ∧ records.length < ix.seedPageSize)
    (hhistory : s'.history = s.history)
    (hstored : ∀ e, e ∈ s'.store.stored ↔
      e ∈ s.store.stored ∨ e ∈ records.map (·.toEmittedEvent)) (report' : SeedReport) :
    PhaseTrue ix s' (.afterRecords tip contract todo report' next) := by
  obtain ⟨hseeding, hprevious, hlists⟩ := hphase
  rcases hnext with rfl | ⟨rfl, hshort⟩
  · refine ⟨hlater.seeding hseeding, fun p hp => ?_⟩
    cases hlast : records.getLast? with
    | none =>
      rw [hlast] at hp
      exact hlater.seededTo (hprevious p hp)
    | some last =>
      rw [hlast] at hp
      obtain rfl := Option.some.inj (Option.mem_def.mp hp)
      rw [hhistory]
      exact Indexing.seededTo_last hprevious hlists (Option.mem_def.mpr hlast) hstored
  · have hread : Read { world s with store := s'.store, phase := .idle } tip contract :=
      Indexing.read_of_short hprevious hlists hshort hstored
    refine (hlater.seeding hseeding).done fun e he hcontract hle => hread e ?_ hcontract hle
    show e ∈ s.history.events
    rw [← hhistory]
    exact he

/-- A round leaves the checkpoint in the report as it was, or names the page's. -/
theorem syncPage_report {f : Follower} {start : Start} {page : EventsPage}
    {report report' : SyncReport} {next : Option Start} {store store' : Store}
    (h : f.syncPage start page report store = .ok (next, report', store')) :
    (start = .after page.cursor ∧ page.events = [] ∧ report'.checkpoint = report.checkpoint) ∨
      report'.checkpoint = some ⟨page.cursor, page.latestLedger⟩ := by
  obtain ⟨⟨batch, last⟩, hread, h⟩ := bind_eq_ok.mp h
  obtain ⟨_, -, h⟩ := bind_eq_ok.mp h
  obtain ⟨⟨report1, store1⟩, hcommit, h⟩ := bind_eq_ok.mp h
  simp only [Except.ok.injEq, Prod.mk.injEq] at h
  obtain ⟨-, rfl, -⟩ := h
  have hbatch := (Follower.readEvents_ok hread).1
  unfold Follower.commitPage at hcommit
  split at hcommit
  · obtain ⟨⟨outcome, store2⟩, -, hcommit⟩ := bind_eq_ok.mp hcommit
    obtain ⟨rfl, -⟩ := Prod.mk.inj (Except.ok.inj hcommit)
    exact .inr rfl
  · rename_i hskip
    obtain ⟨rfl, -⟩ := Prod.mk.inj (Except.ok.inj hcommit)
    simp only [not_or, Bool.not_eq_false, decide_eq_true_eq, List.isEmpty_iff] at hskip
    obtain ⟨hstart, rfl⟩ := hskip
    exact .inl ⟨hstart, hbatch.symm, rfl⟩

/-- **Once a page is stored, so is everything up to its cursor**: what the request did not ask for
was stored before. -/
theorem covered_cursor {start : Start} {report : SyncReport} {page : EventsPage}
    (hphase : PhaseTrue ix s (.holding start report page)) (hlater : Later s s')
    (hhistory : s'.history = s.history)
    (hpage : ∀ e ∈ page.events.map (·.toEmittedEvent), e ∈ s'.store.stored) :
    Covered s' (.after page.cursor) := by
  obtain ⟨⟨hcovered, -⟩, hrep, oldest, hretained, hserves⟩ := hphase
  refine ⟨hserves.cursor, hrep.trans hlater.reported, fun e he hle => ?_⟩
  rw [hhistory] at he
  by_cases hold : e ∈ s.store.stored
  · exact hlater.stored e hold
  refine hpage e (hserves.complete e (History.mem_retained.mpr ⟨he, ?_⟩) ?_ hle)
  · -- an event that is not stored lies in a ledger that RPC still has
    refine hretained.trans ?_
    cases start with
    | ledger l => exact not_lt.mp fun hlt => hold (hcovered.2 e he hlt)
    | after c => exact ledger_mono (not_le.mp fun hle => hold (hcovered.2.2 e he hle)).le
  · cases start with
    | ledger l =>
      rw [Start.admits, decide_eq_true_iff]
      exact not_lt.mp fun hlt => hold (hcovered.2 e he hlt)
    | after c =>
      rw [Start.admits, decide_eq_true_iff]
      exact not_le.mp fun hle => hold (hcovered.2.2 e he hle)

/-- A cycle that has come to the tip reports what is stored. -/
theorem StatusTrue.succeeded {status : Status} {range : LedgerRange} {report : SyncReport}
    {c : Checkpoint} (hreport : report.checkpoint = some c) (hc : Covered s (.after c.cursor))
    (now : Nat) : StatusTrue s (status.succeeded range report now) where
  known := by
    intro _
    rw [Status.succeeded, hreport]
    exact ⟨rfl, rfl⟩
  indexed := by
    intro l hl
    rw [Status.succeeded, hreport] at hl
    obtain rfl := Option.some.inj (Option.mem_def.mp hl)
    refine ⟨hc.2.1, fun e he hlt => hc.2.2 e he ?_⟩
    exact (not_le.mp fun hle => absurd (ledger_mono hle) (not_le.mpr hlt)).le

/-- What comes after a page that is stored. -/
theorem instanceTrue_afterPage {config : ServiceConfig} {p : Instance} {range : LedgerRange}
    {page : EventsPage} {report : SyncReport} {next : Option Start}
    (hstatus : StatusTrue s p.status)
    (hnext : ∀ start ∈ next, start = .after page.cursor)
    (hcursor : Covered s (.after page.cursor))
    (hreport : ∃ c, report.checkpoint = some c ∧ Covered s (.after c.cursor)) :
    InstanceTrue ix s (p.afterPage config s.now range report next) := by
  obtain ⟨c, hreport, hc⟩ := hreport
  cases next with
  | none => exact ⟨trivial, .succeeded hreport hc _⟩
  | some start =>
    obtain rfl := hnext start rfl
    refine ⟨⟨hcursor, fun _ _ => ?_, fun c' hc' => ?_⟩, hstatus⟩
    · rw [hreport]
      rfl
    · rw [hreport] at hc'
      obtain rfl := Option.some.inj (Option.mem_def.mp hc')
      exact hc

/-! ## 4. Steps that write nothing -/

/-- Only locks, the clock and what the sources have named have changed. -/
structure Unwritten (s s' : Shared ι) : Prop where
  history : s'.history = s.history
  store : s'.store = s.store
  reported : s.reported ≤ s'.reported

theorem Unwritten.later (h : Unwritten s s') : Later s s' where
  history := h.history ▸ grows_refl _ _
  stored := by
    rw [h.store]
    exact fun _ he => he
  reported := h.reported

theorem Unwritten.index (h : Unwritten s s') (hindex : IndexTrue ix s) : IndexTrue ix s' where
  emit := h.history ▸ hindex.emit
  consistent := by
    rw [h.history, h.store]
    exact hindex.consistent.report h.reported

theorem unwritten_lockRow (s : Shared ι) (i : ι) (stream : Stream) :
    Unwritten s (s.lockRow i stream) := by
  unfold Shared.lockRow
  split
  · exact ⟨rfl, rfl, le_rfl⟩
  · exact ⟨rfl, rfl, le_rfl⟩

theorem unwritten_report (s : Shared ι) (named : Nat) :
    Unwritten s { s with reported := max s.reported named } :=
  ⟨rfl, rfl, le_max_left _ _⟩

/-- What a step has to show. -/
structure Kept (ix : Indexer) (s s' : Shared ι) (p' : Instance) : Prop where
  index : IndexTrue ix s'
  own : InstanceTrue ix s' p'
  later : Later s s'

theorem Unwritten.kept {p' : Instance} (h : Unwritten s s') (hindex : IndexTrue ix s)
    (hown : InstanceTrue ix s' p') : Kept ix s s' p' :=
  ⟨h.index hindex, hown, h.later⟩

/-- Opening a transaction changes nothing of what is known. -/
theorem kept_lockRow {i : ι} {stream : Stream} {p' : Instance}
    (hindex : IndexTrue ix s) (hstatus : StatusTrue s p'.status) (htask : TaskTrue ix s p'.task) :
    Kept ix s (s.lockRow i stream) p' := by
  have hsame := unwritten_lockRow s i stream
  exact hsame.kept hindex ⟨hsame.later.task htask, hsame.later.status hstatus⟩

theorem statusTrue_default (s : Shared ι) : StatusTrue s {} where
  known h := nomatch h
  indexed _ hl := nomatch hl

theorem StatusTrue.failed {status : Status} (h : StatusTrue s status) (message : String) :
    StatusTrue s (status.failed message) :=
  ⟨h.known, h.indexed⟩

theorem seeing_of_ne {store : Store} {stream other : Stream} {seen : Option Checkpoint}
    (h : other ≠ stream) : (store.seeing stream seen).checkpoint other = store.checkpoint other :=
  Function.update_of_ne h _ _

theorem sound_seeing {store : Store} (h : store.Sound) (stream : Stream)
    (seen : Option Checkpoint) : (store.seeing stream seen).Sound :=
  ⟨h.once, h.storable, h.tables⟩

/-- What the hand-off names, `sync_to_tip` may ask for: the ledgers before it are stored. -/
theorem covered_of_rpcStart {store : Store} {range : LedgerRange} {overlap : Nat}
    {startLedger : Option Nat} (hindex : IndexTrue ix s) (hseed : store.checkpoint .seed =
      s.store.checkpoint .seed) (h : rpcStart store range overlap = .ok startLedger) :
    ∀ l ∈ startLedger, Covered s (.ledger l) := by
  intro l hl
  obtain rfl := Option.mem_def.mp hl
  cases hrpc : store.checkpoint .rpc with
  | some c =>
    rw [rpcStart_of_rpc hrpc] at h
    split at h <;> cases h
  | none =>
    cases hmark : store.checkpoint .seed with
    | none =>
      rw [rpcStart_of_neither hrpc hmark] at h
      cases h
    | some mark =>
      rw [rpcStart_of_seed hrpc hmark] at h
      split at h
      · cases h
      · rename_i hretained
        obtain rfl := Option.some.inj (Except.ok.inj h)
        rw [hseed] at hmark
        obtain ⟨hr, hall⟩ := hindex.consistent.claims .seed mark hmark
        exact ⟨by omega, fun e he hlt => hall e he (by omega)⟩

section Acts

variable [DecidableEq ι] {i : ι} {config : ServiceConfig} {p p' : Instance}

theorem unwritten_endTransaction (s : Shared ι) (i : ι) : Unwritten s (s.endTransaction i) :=
  ⟨rfl, rfl, le_rfl⟩

theorem unwritten_leave (s : Shared ι) (i : ι) : Unwritten s (s.leave i) := ⟨rfl, rfl, le_rfl⟩

theorem Manages.kept (hindex : IndexTrue ix s) (hp : InstanceTrue ix s p)
    (hstep : Manages config i s p s' p') : Kept ix s s' p' := by
  cases hstep with
  | lock waiting free =>
    have hsame : Unwritten s { s with writer := some i } := ⟨rfl, rfl, le_rfl⟩
    exact hsame.kept hindex ⟨trivial, hsame.later.status hp.status⟩
  | lost resting due lost => exact ⟨hindex, ⟨trivial, hp.status⟩, .refl s⟩
  | stop =>
    have hsame := unwritten_leave s i
    exact hsame.kept hindex ⟨trivial, hsame.later.status hp.status⟩
  | launch stopped => exact ⟨hindex, ⟨trivial, statusTrue_default s⟩, .refl s⟩
  | range resting due held => exact ⟨hindex, ⟨trivial, hp.status⟩, .refl s⟩
  | fail working =>
    have hsame := unwritten_endTransaction s i
    exact hsame.kept hindex ⟨trivial, (hsame.later.status hp.status).failed _⟩
  | resume handingOff followed started =>
    exact ⟨hindex, ⟨covered_of_rpcStart hindex rfl started, hp.status⟩, .refl s⟩
  | unfollowed handingOff unfollowed => exact ⟨hindex, ⟨trivial, hp.status⟩, .refl s⟩
  | handOff unfollowed started =>
    have hcovered := covered_of_rpcStart hindex (seeing_of_ne (by decide)) started
    exact ⟨hindex, ⟨hcovered, hp.status⟩, .refl s⟩

/-! ## 5. Steps that write -/

/-- **What a commit has done**, without the order of its checkpoint and the one before. -/
structure Overwritten (stream : Stream) (batch : List EmittedEvent) (c : Checkpoint)
    (store store' : Store) : Prop where
  sound : store'.Sound
  stored : ∀ e, e ∈ store'.stored ↔ e ∈ store.stored ∨ e ∈ batch
  moved : store'.checkpoint = Function.update store.checkpoint stream (some c)

variable {stream : Stream} {batch : List EmittedEvent} {c : Checkpoint} {store : Store}

omit [DecidableEq ι] in
theorem overwritten_of_seen {seen : Option Checkpoint}
    (h : Store.Written stream batch c (s.store.seeing stream seen) store) :
    Overwritten stream batch c s.store store := by
  refine ⟨h.sound, h.stored, ?_⟩
  rw [h.moved]
  exact Function.update_idem _ _ _

/-- **A commit keeps the truth**, if its events were emitted and its checkpoint claims what is then
stored. -/
theorem Overwritten.kept (hw : Overwritten stream batch c s.store store)
    (hindex : IndexTrue ix s) (hbatch : ∀ e ∈ batch, e ∈ s.history.events)
    (hclaim : Claims s.history s.reported store c stream)
    (hown : Later s { s.endTransaction i with store := store } →
      InstanceTrue ix { s.endTransaction i with store := store } p') :
    Kept ix s { s.endTransaction i with store := store } p' := by
  have hsub : ∀ e ∈ s.store.stored, e ∈ store.stored := fun e he => (hw.stored e).mpr (.inl he)
  have hlater : Later s { s.endTransaction i with store := store } :=
    ⟨grows_refl _ _, hsub, le_rfl⟩
  refine ⟨⟨hindex.emit, hw.sound, fun e he => ?_, fun other c' hc' => ?_⟩, hown hlater, hlater⟩
  · rcases (hw.stored e).mp he with he | he
    · exact hindex.consistent.genuine e he
    · exact hbatch e he
  · dsimp only at hc'
    rw [hw.moved] at hc'
    by_cases hother : other = stream
    · subst hother
      rw [Function.update_self] at hc'
      obtain rfl := Option.some.inj hc'
      exact hclaim
    · rw [Function.update_of_ne hother] at hc'
      exact (hindex.consistent.claims other c' hc').mono hsub le_rfl

/-! ### Seeding -/

theorem Seeds.kept (hindex : IndexTrue ix s) (hp : InstanceTrue ix s p)
    (hstep : Seeds .honest config ix i s p s' p') : Kept ix s s' p' := by
  have htask := hp.task
  cases hstep with
  | latestLedger unfollowed empty client =>
    rename_i range tip
    have hsame := unwritten_report s tip
    refine hsame.kept hindex ⟨⟨le_max_right _ _, [], rfl, ?_⟩, hsame.later.status hp.status⟩
    intro a ha
    cases ha
  | contract seeding =>
    rw [seeding] at htask
    refine ⟨hindex, ⟨⟨htask, fun p hprevious => ?_⟩, hp.status⟩, .refl s⟩
    obtain ⟨c, hc, rfl⟩ := Option.map_eq_some_iff.mp (Option.mem_def.mp hprevious)
    exact hindex.consistent.claims _ c hc
  | answer asking answered =>
    rw [asking] at htask
    have honest : HonestListing _ _ _ _ _ _ := answered
    exact ⟨hindex, ⟨⟨htask.1, htask.2, honest.lists⟩, hp.status⟩, .refl s⟩
  | nothing listed seeded =>
    rw [listed] at htask
    have hround := Seed.seedPage_ok hindex.consistent.sound seeded
    refine ⟨hindex, ⟨?_, hp.status⟩, .refl s⟩
    exact phaseTrue_afterRecords (.refl s) (phaseTrue_of_busy htask) hround.resumes rfl (by simp) _
  | openRecords listed nonempty free =>
    rw [listed] at htask
    exact kept_lockRow hindex hp.status htask
  | commitRecords listed nonempty free seeded =>
    rw [listed] at htask
    have hround := Seed.seedPage_ok (sound_seeing hindex.consistent.sound _ _) seeded
    rcases hround.wrote with ⟨hempty, -⟩ | ⟨last, hlast, hwritten⟩
    · exact absurd hempty nonempty
    · have hw := overwritten_of_seen hwritten
      refine hw.kept hindex htask.2.2.genuine
        (Indexing.seededTo_last htask.2.1 htask.2.2 hlast hw.stored) fun hlater => ?_
      exact ⟨phaseTrue_afterRecords hlater (phaseTrue_of_busy htask) hround.resumes rfl hw.stored _,
        hlater.status hp.status⟩
  | openMark seeding free =>
    rw [seeding] at htask
    exact kept_lockRow hindex hp.status htask
  | commitMark seeding free finished =>
    rw [seeding] at htask
    obtain ⟨htip, done, hdone, hread⟩ := htask
    have hw := overwritten_of_seen
      (finishSeed_ok (sound_seeing hindex.consistent.sound _ _) finished)
    refine hw.kept hindex (by simp) ⟨htip, fun e he hle => ?_⟩ fun hlater =>
      ⟨trivial, hlater.status hp.status⟩
    have hcontract : e.contract ∈ done := by
      rw [List.append_nil] at hdone
      rw [hdone]
      exact hindex.emit e he
    exact (hw.stored e).mpr (.inl (hread _ hcontract e he rfl hle))

/-! ### Following -/

theorem Follows.kept (hindex : IndexTrue ix s) (hp : InstanceTrue ix s p)
    (hstep : Follows .honest config ix i s p s' p') : Kept ix s s' p' := by
  have htask := hp.task
  cases hstep with
  | begin starting began =>
    rw [starting] at htask
    refine ⟨hindex, ⟨?_, hp.status⟩, .refl s⟩
    unfold Follower.beginSync at began
    cases hc : s.store.checkpoint ix.follower.stream with
    | some c =>
      rw [hc] at began
      obtain ⟨rfl, rfl⟩ := Prod.mk.inj (Except.ok.inj began)
      have hclaims := hindex.consistent.claims .rpc c hc
      refine ⟨hclaims, fun _ _ => rfl, fun c' hc' => ?_⟩
      obtain rfl := Option.some.inj (Option.mem_def.mp hc')
      exact hclaims
    | none =>
      rw [hc] at began
      obtain ⟨l, hl, began⟩ := bind_eq_ok.mp began
      obtain ⟨rfl, rfl⟩ := Prod.mk.inj (Except.ok.inj began)
      refine ⟨htask l (okOr_eq_ok.mp hl), fun c hc => ?_, fun c hc => ?_⟩
      · cases hc
      · cases hc
  | answer requesting answered =>
    rw [requesting] at htask
    rename_i page
    obtain ⟨oldest, retained, honest⟩ := answered
    have hsame := unwritten_report s (max page.latestLedger page.cursor.ledger)
    refine hsame.kept hindex ⟨⟨⟨hsame.later.covered htask.1, hsame.later.reports htask.2⟩,
      (le_max_right _ _).trans (le_max_right _ _), _, retained, honest.serves⟩,
      hsame.later.status hp.status⟩
  | nothing holding unchanged empty synced =>
    rw [holding] at htask
    have hround := Follower.syncPage_ok hindex.consistent.sound synced
    obtain ⟨⟨hcovered, hnamed, hreported⟩, -⟩ := htask
    subst unchanged
    refine ⟨hindex, instanceTrue_afterPage hp.status hround.resumes hcovered ?_, .refl s⟩
    rcases syncPage_report synced with ⟨-, -, hsame⟩ | hnew
    · obtain ⟨c, hc⟩ := Option.isSome_iff_exists.mp (hnamed _ rfl)
      exact ⟨c, hsame.trans hc, hreported c hc⟩
    · exact ⟨_, hnew, hcovered⟩
  | openPage holding changed free =>
    rw [holding] at htask
    exact kept_lockRow hindex hp.status htask
  | commitPage holding changed free synced =>
    rw [holding] at htask
    have hround := Follower.syncPage_ok (sound_seeing hindex.consistent.sound _ _) synced
    obtain ⟨-, hrep, oldest, -, hserves⟩ := id htask
    rcases hround.wrote with hwritten | ⟨hstart, hempty, -⟩
    · have hw := overwritten_of_seen hwritten
      have hlater : Later s { s.endTransaction i with store := _ } :=
        ⟨grows_refl _ _, fun e he => (hw.stored e).mpr (.inl he), le_rfl⟩
      have hcursor := covered_cursor (phaseTrue_of_busy htask) hlater rfl
        fun e he => (hw.stored e).mpr (.inr he)
      have hgenuine : ∀ e ∈ _, e ∈ s.history.events := fun e he =>
        (History.mem_retained.mp (hserves.genuine e he).1).1
      refine hw.kept hindex hgenuine hcursor fun _ => ?_
      refine instanceTrue_afterPage (hlater.status hp.status) hround.resumes hcursor ?_
      rcases syncPage_report synced with ⟨hstart, hempty, -⟩ | hnew
      · exact absurd ⟨hstart, hempty⟩ changed
      · exact ⟨_, hnew, hcursor⟩
    · exact absurd ⟨hstart, hempty⟩ changed

/-! ## 6. Every run -/

omit [DecidableEq ι] in
theorem Env.kept {drops : Bool} (hindex : IndexTrue ix s) (hstep : Env ix drops s s') :
    IndexTrue ix s' ∧ Later s s' := by
  cases hstep with
  | grow grows emit => exact ⟨⟨emit, hindex.consistent.grow grows⟩, grows, fun _ he => he, le_rfl⟩
  | tick later => exact ⟨⟨hindex.emit, hindex.consistent⟩, grows_refl _ _, fun _ he => he, le_rfl⟩
  | drop allowed => exact ⟨⟨hindex.emit, hindex.consistent⟩, grows_refl _ _, fun _ he => he, le_rfl⟩

theorem Act.kept (hindex : IndexTrue ix s) (hp : InstanceTrue ix s p)
    (hstep : Act .honest config ix i s p s' p') : Kept ix s s' p' := by
  cases hstep with
  | manage step => exact Manages.kept hindex hp step
  | seed step => exact Seeds.kept hindex hp step
  | follow step => exact Follows.kept hindex hp step

/-- **Each instance leaves the others what they know.** -/
theorem guarantees (config : ServiceConfig) (ix : Indexer) (drops : Bool) :
    RelyGuarantee.Guarantees (Env (ι := ι) ix drops) (Act .honest config ix) (IndexTrue ix)
      (fun _ => InstanceTrue ix) (fun _ => Later) where
  env hindex hstep := by
    obtain ⟨hindex', hlater⟩ := Env.kept hindex hstep
    exact ⟨hindex', fun _ => hlater⟩
  act hindex hp hstep := by
    have hkept := Act.kept hindex hp hstep
    exact ⟨hkept.index, hkept.own, fun _ _ => hkept.later⟩
  stable hp hlater := hlater.instanceTrue hp

end Acts

section Runs

variable [DecidableEq ι] {config : ServiceConfig} {history : History} {drops : Bool}
  {w w' : Fleet ι}

omit [DecidableEq ι] in
theorem holds_fresh (hemit : ix.contracts.Emit history) :
    RelyGuarantee.Holds (IndexTrue ix) (fun _ => InstanceTrue ix)
      (Fleet.fresh history : Fleet ι) where
  shared := ⟨hemit, Indexing.consistent_empty history 0⟩
  own _ := ⟨trivial, statusTrue_default _⟩

theorem holds_of_reaches (hemit : ix.contracts.Emit history)
    (hrun : Reaches config ix drops (.fresh history) w) :
    RelyGuarantee.Holds (IndexTrue ix) (fun _ => InstanceTrue ix) w :=
  (guarantees config ix drops).run (holds_fresh hemit) hrun

/-- Between any two moments of a run nothing stored is lost. -/
theorem later_of_reaches (hw : RelyGuarantee.Holds (IndexTrue ix) (fun _ => InstanceTrue ix) w)
    (hrun : Reaches config ix drops w w') : Later w.shared w'.shared :=
  (guarantees config ix drops).run_rel Later.refl (fun h h' => h.trans h')
    (fun hindex hstep => (Env.kept hindex hstep).2)
    (fun hindex hp hstep => (Act.kept hindex hp hstep).later) hw hrun

/-- **The index tells the truth, however many instances write to it.**  For every number of
instances, every order of their steps and every loss of a connection, against honest sources that
retain what is asked for (`Sources.honest`): what is stored was emitted and the tables follow from
it; every checkpoint claims what is stored; nothing stored is ever lost; and a ledger that was once
reported as indexed stays complete. -/
theorem fleet_index_tells_truth (hemit : ix.contracts.Emit history)
    (hrun : Reaches config ix drops (.fresh history) w) (hlater : Reaches config ix drops w w') :
    Consistent w'.shared.history w'.shared.reported w'.shared.store ∧
      (∀ e ∈ w.shared.store.stored, e ∈ w'.shared.store.stored) ∧
      ∀ e ∈ w'.shared.history.events,
        e.position.ledger ≤ Verify.indexedLedger w.shared.store → e ∈ w'.shared.store.stored := by
  have hthen := holds_of_reaches hemit hrun
  have hnow := holds_of_reaches hemit (hrun.trans hlater)
  have hgrown := later_of_reaches hthen hlater
  refine ⟨hnow.shared.consistent, hgrown.stored, fun e he hle => ?_⟩
  have hpos := (w'.shared.history.storable e he).ledger
  cases hc : w.shared.store.checkpoint .rpc with
  | none =>
    rw [Verify.indexedLedger, hc] at hle
    exact absurd hle (Nat.not_le.mpr hpos)
  | some c =>
    rw [Verify.indexedLedger_eq hc] at hle
    obtain ⟨hcursor, -, hall⟩ := hgrown.claims (hthen.shared.consistent.claims .rpc c hc)
    exact hall e he (hcursor.covers hpos hle)

end Runs

/-! ### Two instances that seed at once -/

section Alone

variable [DecidableEq ι] {i : ι} {config : ServiceConfig} {drops : Bool}

/-- Steps of one instance, while the others do nothing. -/
abbrev Alone (config : ServiceConfig) (ix : Indexer) (i : ι) :
    Shared ι × Instance → Shared ι × Instance → Prop :=
  Relation.ReflTransGen fun a b => Act .honest config ix i a.1 a.2 b.1 b.2

theorem Alone.reaches {w w' : Fleet ι}
    (h : Alone config ix i (w.shared, w.own i) (w'.shared, w'.own i))
    (hothers : ∀ j ≠ i, w.own j = w'.own j) : Reaches config ix drops w w' := by
  have hrun : ∀ b, Alone config ix i (w.shared, w.own i) b →
      Reaches config ix drops w ⟨b.1, Function.update w.own i b.2⟩ := by
    intro b hb
    induction hb with
    | refl =>
      dsimp only
      rw [Function.update_eq_self]
    | @tail b c _ hstep ih =>
      have hown : Function.update w.own i b.2 i = b.2 := Function.update_self _ _ _
      have hlast : RelyGuarantee.Step (Env ix drops) (Act .honest config ix)
          (⟨b.1, Function.update w.own i b.2⟩ : Fleet ι)
          ⟨c.1, Function.update (Function.update w.own i b.2) i c.2⟩ :=
        .act i (by dsimp only; rw [hown]; exact hstep)
      rw [Function.update_idem] at hlast
      exact ih.tail hlast
  have hw' : Function.update w.own i (w'.own i) = w'.own :=
    Function.update_eq_iff.mpr ⟨rfl, hothers⟩
  have hlast := hrun _ h
  dsimp only at hlast
  rw [hw'] at hlast
  exact hlast

end Alone

/-- Pages of two records and of three events; both nullifiers are of ledger 5. -/
def sampleIndexer : Indexer := ⟨Network.operatorContracts, 2, 3⟩

/-- Five seconds between cycles, no lag and at most a minute of silence. -/
def sampleConfig : ServiceConfig := ⟨5 * nanos, 0, 0, 60 * nanos, true⟩

theorem sampleRange_latest_lt : 6 < 2 ^ 32 := by decide

theorem sampleRange_oldest_lt : 4 < 2 ^ 32 := by decide

/-- RPC has the ledgers 4 to 6. -/
def sampleRange : LedgerRange := ⟨6, 4, sampleRange_latest_lt, sampleRange_oldest_lt⟩

theorem emit_twoNullifiers : sampleIndexer.contracts.Emit twoNullifiers := by
  intro e he
  rcases List.mem_pair.mp he with rfl | rfl
  · exact List.mem_cons_self
  · exact List.mem_cons_self

theorem late_twoNullifiers : ∀ e ∈ twoNullifiers.events, 4 < e.position.ledger := by
  decide

/-- Nothing is listed up to ledger 4. -/
theorem nothing_listed {history : History} (hlate : ∀ e ∈ history.events, 4 < e.position.ledger)
    {tip : Nat} (htip : tip ≤ 4) (contract : Address) :
    HonestListing history contract none 2 tip [] := by
  refine ⟨[], List.nil_prefix, fun e he hle => ?_, rfl⟩
  have := hlate e he
  omega

/-- The shared state while the database is empty. -/
def emptyShared (history : History) (reported : Nat) (writer : Option Bool) : Shared Bool :=
  ⟨history, reported, 0, .empty, writer, fun _ => none⟩

/-- An instance that seeds up to `tip`. -/
def seedingTo (tip pages : Nat) (todo : List Address) (seen : Option (Option Checkpoint)) :
    Instance where
  task := .busy sampleRange (.seeding tip todo { pages := pages, completeTo := tip }) seen

section Seeding

variable {history : History} (hlate : ∀ e ∈ history.events, 4 < e.position.ledger)

include hlate

/-- A contract of which nothing is listed. -/
theorem seeds_contract {tip : Nat} (htip : tip ≤ 4) (i : Bool) (reported pages : Nat)
    (contract : Address) (todo : List Address) :
    Alone sampleConfig sampleIndexer i
      (emptyShared history reported (some i), seedingTo tip pages (contract :: todo) none)
      (emptyShared history reported (some i), seedingTo tip (pages + 1) todo none) := by
  have hasked : Alone sampleConfig sampleIndexer i
      (emptyShared history reported (some i), seedingTo tip pages (contract :: todo) none)
      (emptyShared history reported (some i), ⟨{}, 0, .busy sampleRange
        (.asking tip contract todo none { pages := pages, completeTo := tip }) none⟩) :=
    .single (.seed (.contract rfl))
  have hlisted : Alone sampleConfig sampleIndexer i
      (emptyShared history reported (some i), ⟨{}, 0, .busy sampleRange
        (.asking tip contract todo none { pages := pages, completeTo := tip }) none⟩)
      (emptyShared history reported (some i), ⟨{}, 0, .busy sampleRange
        (.listed tip contract todo none { pages := pages, completeTo := tip } []) none⟩) :=
    .single (.seed (.answer rfl (nothing_listed hlate htip _)))
  exact (hasked.trans hlisted).tail
    (.seed (@Seeds.nothing _ _ _ _ _ _ _ _ _ _ _ _ _ _ _ .contractDone rfl rfl))

/-- From the wait for the lock up to the transaction with the mark. -/
theorem seeds_nothing {tip : Nat} (htip : tip ≤ 4) (i : Bool) (reported : Nat) :
    Alone sampleConfig sampleIndexer i (emptyShared history reported none, {})
      (emptyShared history (max reported tip) (some i), seedingTo tip 2 [] (some none)) := by
  have hlocked : Alone sampleConfig sampleIndexer i (emptyShared history reported none, {})
      (emptyShared history reported (some i), ⟨{}, 0, .resting 0⟩) :=
    .single (.manage (.lock rfl rfl))
  have hrange : Alone sampleConfig sampleIndexer i
      (emptyShared history reported (some i), ⟨{}, 0, .resting 0⟩)
      (emptyShared history reported (some i), ⟨{}, 0, .handingOff sampleRange false⟩) :=
    .single (.manage (.range rfl le_rfl rfl))
  have hempty : Alone sampleConfig sampleIndexer i
      (emptyShared history reported (some i), ⟨{}, 0, .handingOff sampleRange false⟩)
      (emptyShared history reported (some i), ⟨{}, 0, .unfollowed sampleRange false⟩) :=
    .single (.manage (.unfollowed rfl rfl))
  have htipped : Alone sampleConfig sampleIndexer i
      (emptyShared history reported (some i), ⟨{}, 0, .unfollowed sampleRange false⟩)
      (emptyShared history (max reported tip) (some i),
        seedingTo tip 0 sampleIndexer.contracts.both none) :=
    .single (.seed (.latestLedger rfl rfl rfl))
  exact ((((hlocked.trans hrange).trans hempty).trans htipped).trans
    ((seeds_contract hlate htip i _ 0 _ _).trans (seeds_contract hlate htip i _ 1 _ _))).tail
      (.seed (.openMark rfl (.inl rfl)))

end Seeding

/-- The mark of a seed up to `tip`, written over `store` by a transaction that saw no mark. -/
def marked (store : Store) (tip : Nat) : Store :=
  (store.seeing .seed none).seeing .seed (some ⟨endOfLedger tip, tip⟩)

/-- Two instances. -/
def pair (s : Shared Bool) (first second : Instance) : Fleet Bool :=
  ⟨s, fun i => if i then first else second⟩

theorem reaches_first {drops : Bool} {s s' : Shared Bool} {first first' second : Instance}
    (h : Alone sampleConfig sampleIndexer true (s, first) (s', first')) :
    Reaches sampleConfig sampleIndexer drops (pair s first second) (pair s' first' second) :=
  Alone.reaches (w := pair s first second) (i := true) h fun j hj => by
    rw [Bool.eq_false_of_not_eq_true hj]
    rfl

theorem reaches_second {drops : Bool} {s s' : Shared Bool} {first second second' : Instance}
    (h : Alone sampleConfig sampleIndexer false (s, second) (s', second')) :
    Reaches sampleConfig sampleIndexer drops (pair s first second) (pair s' first second') :=
  Alone.reaches (w := pair s first second) (i := false) h fun j hj => by
    rw [Bool.eq_true_of_not_eq_false hj]
    rfl

/-- Both have seeded and are about to write their marks: the connection of the first dropped, and
the second took the lock. -/
def bothSeeded : Fleet Bool :=
  pair (emptyShared twoNullifiers 4 (some false)) (seedingTo 4 2 [] (some none))
    (seedingTo 3 2 [] (some none))

theorem fresh_eq_pair (history : History) :
    (Fleet.fresh history : Fleet Bool) = pair (emptyShared history 0 none) {} {} := by
  unfold Fleet.fresh pair
  simp only [ite_self]
  rfl

theorem reaches_bothSeeded :
    Reaches sampleConfig sampleIndexer true (.fresh twoNullifiers) bothSeeded := by
  rw [fresh_eq_pair]
  have hdropped : Reaches sampleConfig sampleIndexer true
      (pair (emptyShared twoNullifiers 4 (some true)) (seedingTo 4 2 [] (some none)) {})
      (pair (emptyShared twoNullifiers 4 none) (seedingTo 4 2 [] (some none)) {}) :=
    .single (.env (.drop rfl))
  exact ((reaches_first (seeds_nothing late_twoNullifiers (le_refl 4) true 0)).trans
    hdropped).trans (reaches_second (seeds_nothing late_twoNullifiers
      (by decide : 3 ≤ 4) false 4))

/-- An instance that has written its mark. -/
def handingOff : Instance where
  task := .handingOff sampleRange true

def firstMarked : Fleet Bool :=
  pair { emptyShared twoNullifiers 4 (some false) with store := marked .empty 4 } handingOff
    (seedingTo 3 2 [] (some none))

def bothMarked : Fleet Bool :=
  pair { emptyShared twoNullifiers 4 (some false) with store := marked (marked .empty 4) 3 }
    handingOff handingOff

theorem reaches_firstMarked : Reaches sampleConfig sampleIndexer true bothSeeded firstMarked :=
  reaches_first (.single (.seed (.commitMark rfl (.inl rfl) rfl)))

theorem reaches_bothMarked : Reaches sampleConfig sampleIndexer true firstMarked bothMarked :=
  reaches_second (.single (.seed (.commitMark rfl (.inl rfl) rfl)))

/-- The mark moves back from ledger 4 to ledger 3, since neither had seen the other's, and the index
still tells the truth. -/
theorem fleet_index_tells_truth_twice_marked :
    firstMarked.shared.store.checkpoint .seed = some ⟨endOfLedger 4, 4⟩ ∧
      bothMarked.shared.store.checkpoint .seed = some ⟨endOfLedger 3, 3⟩ ∧
      Consistent twoNullifiers 4 bothMarked.shared.store :=
  ⟨rfl, rfl, (fleet_index_tells_truth emit_twoNullifiers
    (reaches_bothSeeded.trans reaches_firstMarked) reaches_bothMarked).1⟩

/-! ### What `/ready` means -/

section Runs

variable [DecidableEq ι] {config : ServiceConfig} {history : History} {drops : Bool}
  {w : Fleet ι}

/-- **An instance that reports ready has all but the last ledgers**: its last cycle succeeded within
`max_silence`, and every event more than `max_lag` ledgers before the newest ledger it names is
stored.  That is so whatever other instances have done since, against honest sources that retain
what is asked for. -/
theorem ready_means_indexed (hemit : ix.contracts.Emit history)
    (hrun : Reaches config ix drops (.fresh history) w) (i : ι)
    (hready : (readiness (w.own i).status config w.shared.now).ready = true) :
    ∃ success latest, (w.own i).status.lastSuccess = some success ∧
      (w.own i).status.latestLedger = some latest ∧
      w.shared.now ≤ success + config.maxSilence ∧
      ∀ e ∈ w.shared.history.events, e.position.ledger + config.maxLag < latest →
        e ∈ w.shared.store.stored := by
  have hstatus := ((holds_of_reaches hemit hrun).own i).status
  set status := (w.own i).status
  cases hsuccess : status.lastSuccess with
  | none => simp [readiness, hsuccess] at hready
  | some success =>
    obtain ⟨hindexed, hlatest⟩ := hstatus.known (by rw [hsuccess]; rfl)
    obtain ⟨indexed, hindexed⟩ := Option.isSome_iff_exists.mp hindexed
    obtain ⟨latest, hlatest⟩ := Option.isSome_iff_exists.mp hlatest
    have hlag : status.lag = some (latest - indexed) := by
      rw [Status.lag, hlatest, hindexed]
      rfl
    simp only [readiness, hsuccess, hlag, Option.map_some, Option.isNone_iff_eq_none] at hready
    split at hready
    · cases hready
    · rename_i hrecent
      split at hready
      · cases hready
      · rename_i hnear
        refine ⟨success, latest, rfl, hlatest, by omega, fun e he hlt => ?_⟩
        exact (hstatus.indexed indexed hindexed).2 e he (by omega)

end Runs

/-! ### A cycle that reaches the tip -/

/-- The shared state after the seed. -/
def markedShared (history : History) (reported : Nat) : Shared Bool :=
  { emptyShared history reported (some true) with store := marked .empty 4 }

/-- The newest ledger anyone has heard of after the page. -/
def heard (page : EventsPage) : Nat := max 4 (max page.latestLedger page.cursor.ledger)

/-- An instance whose only cycle has reached the tip. -/
def synced (report : SyncReport) : Instance :=
  Instance.succeeded {} sampleConfig 0 sampleRange report

section Cycle

variable {history : History} {page : EventsPage} {report : SyncReport} {store : Store}

/-- The first instance seeds, and takes over from the mark. -/
theorem takes_over (hlate : ∀ e ∈ history.events, 4 < e.position.ledger) :
    Alone sampleConfig sampleIndexer true (emptyShared history 0 none, {})
      (markedShared history 4, ⟨{}, 0, .starting sampleRange (some 4)⟩) := by
  have hmarked : Alone sampleConfig sampleIndexer true (emptyShared history 0 none, {})
      (markedShared history 4, handingOff) :=
    (seeds_nothing hlate (le_refl 4) true 0).tail (.seed (.commitMark rfl (.inl rfl) rfl))
  have hunfollowed : Alone sampleConfig sampleIndexer true (markedShared history 4, handingOff)
      (markedShared history 4, ⟨{}, 0, .unfollowed sampleRange true⟩) :=
    .single (.manage (.unfollowed rfl rfl))
  exact (hmarked.trans hunfollowed).tail (.manage (.handOff rfl rfl))

/-- It then reads one page, which is the last. -/
theorem follows_page (honest : HonestPage (history.retained 4) (.ledger 4) 3 page)
    (hsync : sampleIndexer.follower.syncPage (.ledger 4) page {}
      ((marked .empty 4).seeing .rpc none) = .ok (none, report, store)) :
    Alone sampleConfig sampleIndexer true
      (markedShared history 4, ⟨{}, 0, .starting sampleRange (some 4)⟩)
      ({ markedShared history (heard page) with store := store }, synced report) := by
  have hbegun : Alone sampleConfig sampleIndexer true
      (markedShared history 4, ⟨{}, 0, .starting sampleRange (some 4)⟩)
      (markedShared history 4, ⟨{}, 0, .busy sampleRange (.requesting (.ledger 4) {}) none⟩) :=
    .single (.follow (.begin rfl rfl))
  have hanswered : Alone sampleConfig sampleIndexer true
      (markedShared history 4, ⟨{}, 0, .busy sampleRange (.requesting (.ledger 4) {}) none⟩)
      (markedShared history (heard page),
        ⟨{}, 0, .busy sampleRange (.holding (.ledger 4) {} page) none⟩) :=
    .single (.follow (@Follows.answer _ _ .honest _ sampleIndexer _ (markedShared history 4) _ _
      (.ledger 4) _ page rfl ⟨4, le_refl 4, honest⟩))
  have hchanged : ¬(Start.ledger 4 = .after page.cursor ∧ page.events = []) :=
    fun h => nomatch h.1
  have hopen : Alone sampleConfig sampleIndexer true
      (markedShared history (heard page),
        ⟨{}, 0, .busy sampleRange (.holding (.ledger 4) {} page) none⟩)
      (markedShared history (heard page),
        ⟨{}, 0, .busy sampleRange (.holding (.ledger 4) {} page) (some none)⟩) :=
    .single (.follow (.openPage rfl hchanged (.inl rfl)))
  exact ((hbegun.trans hanswered).trans hopen).tail
    (.follow (@Follows.commitPage _ _ _ _ _ _ (markedShared history (heard page)) _ _ _ _
      report _ none none store rfl hchanged (.inl rfl) hsync))

/-- The first instance has seeded, and is about to follow RPC. -/
def takenOver (history : History) : Fleet Bool :=
  pair (markedShared history 4) ⟨{}, 0, .starting sampleRange (some 4)⟩ {}

/-- It has read its page. -/
def caughtUp (history : History) (page : EventsPage) (report : SyncReport) (store : Store) :
    Fleet Bool :=
  pair { markedShared history (heard page) with store := store } (synced report) {}

theorem reaches_takenOver (hlate : ∀ e ∈ history.events, 4 < e.position.ledger) :
    Reaches sampleConfig sampleIndexer false (.fresh history) (takenOver history) := by
  rw [fresh_eq_pair]
  exact reaches_first (takes_over hlate)

theorem reaches_caughtUp (honest : HonestPage (history.retained 4) (.ledger 4) 3 page)
    (hsync : sampleIndexer.follower.syncPage (.ledger 4) page {}
      ((marked .empty 4).seeing .rpc none) = .ok (none, report, store)) :
    Reaches sampleConfig sampleIndexer false (takenOver history)
      (caughtUp history page report store) :=
  reaches_first (follows_page honest hsync)

end Cycle

def samplePage : EventsPage := Network.pageOf twoNullifiers 2 6

theorem honest_samplePage : HonestPage (twoNullifiers.retained 4) (.ledger 4) 3 samplePage := by
  refine Network.honest_pageOf ?_ ?_ ?_ ?_ ?_ <;> decide

def sampleReport : SyncReport :=
  { pages := 1, inserted := 2, checkpoint := some ⟨endOfLedger 6, 6⟩ }

/-- The store after the page. -/
def followed : Store :=
  ((sampleIndexer.follower.syncPage (.ledger 4) samplePage {}
    ((marked .empty 4).seeing .rpc none)).toOption.map (·.2.2)).getD .empty

theorem syncs_samplePage :
    sampleIndexer.follower.syncPage (.ledger 4) samplePage {}
      ((marked .empty 4).seeing .rpc none) = .ok (none, sampleReport, followed) := by
  rfl

/-- The cycle over two nullifiers. -/
def sampleCaughtUp : Fleet Bool := caughtUp twoNullifiers samplePage sampleReport followed

theorem reaches_sampleCaughtUp :
    Reaches sampleConfig sampleIndexer false (takenOver twoNullifiers) sampleCaughtUp :=
  reaches_caughtUp honest_samplePage syncs_samplePage

theorem ready_means_indexed_caught_up :
    (readiness (synced sampleReport).status sampleConfig 0).ready = true ∧
      ∀ e ∈ twoNullifiers.events, e.position.ledger < 6 → e ∈ followed.stored := by
  refine ⟨by decide +kernel, ?_⟩
  obtain ⟨success, latest, hsuccess, hlatest, hrecent, hall⟩ := ready_means_indexed
    emit_twoNullifiers ((reaches_takenOver late_twoNullifiers).trans reaches_sampleCaughtUp) true
    (by decide +kernel)
  obtain rfl := Option.some.inj hlatest
  exact hall

/-! ## 7. One writer -/

/-- The stream a write of this phase moves. -/
def Writes : Phase → Option Stream
  | .listed _ contract _ _ _ _ => some (.seedOf contract)
  | .seeding _ _ _ => some .seed
  | .holding _ _ _ => some .rpc
  | _ => none

/-- Past `acquire_writer_lock` and not stopped. -/
def Running (task : Task) : Prop := task ≠ .waiting ∧ task ≠ .stopped

theorem running_of_working {task : Task} (h : task.Working) : Running task := by
  cases task <;> first | exact h.elim | exact ⟨by simp, by simp⟩

section Exclusive

variable [DecidableEq ι] {i : ι} {sources : Sources} {config : ServiceConfig} {p p' : Instance}

/-- **What a step does to the store**: nothing, or the commit of a transaction that has read the
stream's checkpoint before. -/
theorem Act.wrote (hsound : s.store.Sound) (hstep : Act sources config ix i s p s' p') :
    s'.store = s.store ∨ ∃ range phase seen stream batch c,
      p.task = .busy range phase (some seen) ∧ Writes phase = some stream ∧
        Store.Written stream batch c (s.store.seeing stream seen) s'.store := by
  cases hstep with
  | manage step => cases step <;> exact .inl rfl
  | seed step =>
    cases step with
    | latestLedger _ _ _ => exact .inl rfl
    | contract _ => exact .inl rfl
    | answer _ _ => exact .inl rfl
    | nothing _ _ => exact .inl rfl
    | openRecords _ _ _ => exact .inl (unwritten_lockRow s i _).store
    | commitRecords listed nonempty _ seeded =>
      have hround := Seed.seedPage_ok (sound_seeing hsound _ _) seeded
      rcases hround.wrote with ⟨hempty, -⟩ | ⟨last, -, hwritten⟩
      · exact absurd hempty nonempty
      · exact .inr ⟨_, _, _, _, _, _, listed, rfl, hwritten⟩
    | openMark _ _ => exact .inl (unwritten_lockRow s i _).store
    | commitMark seeding _ finished =>
      exact .inr ⟨_, _, _, _, _, _, seeding, rfl, finishSeed_ok (sound_seeing hsound _ _) finished⟩
  | follow step =>
    cases step with
    | begin _ _ => exact .inl rfl
    | answer _ _ => exact .inl rfl
    | nothing _ _ _ _ => exact .inl rfl
    | openPage _ _ _ => exact .inl (unwritten_lockRow s i _).store
    | commitPage holding changed _ synced =>
      have hround := Follower.syncPage_ok (sound_seeing hsound _ _) synced
      rcases hround.wrote with hwritten | ⟨hstart, hempty, -⟩
      · exact .inr ⟨_, _, _, _, _, _, holding, rfl, hwritten⟩
      · exact absurd ⟨hstart, hempty⟩ changed

omit [DecidableEq ι] in
theorem lockRow_writer (s : Shared ι) (i : ι) (stream : Stream) :
    (s.lockRow i stream).writer = s.writer := by
  unfold Shared.lockRow
  split <;> rfl

/-- The instance was past the wait for the lock, and leaves the lock alone. -/
def Stays (s s' : Shared ι) (p : Instance) : Prop := Running p.task ∧ s'.writer = s.writer

theorem Manages.writer (hstep : Manages config i s p s' p') :
    Stays s s' p ∨ s.writer = none ∧ s'.writer = some i ∨
      ¬Running p'.task ∧ (s'.writer = s.writer ∨ s.writer = some i) := by
  cases hstep with
  | lock waiting free => exact .inr (.inl ⟨free, rfl⟩)
  | lost resting due lost => exact .inr (.inr ⟨fun h => h.2 rfl, .inl rfl⟩)
  | stop =>
    refine .inr (.inr ⟨fun h => h.2 rfl, ?_⟩)
    by_cases hwriter : s.writer = some i
    · exact .inr hwriter
    · exact .inl (if_neg hwriter)
  | launch stopped => exact .inr (.inr ⟨fun h => h.1 rfl, .inl rfl⟩)
  | range resting due held => exact .inl ⟨by rw [resting]; exact ⟨nofun, nofun⟩, rfl⟩
  | fail working => exact .inl ⟨running_of_working working, rfl⟩
  | resume handingOff followed started =>
    exact .inl ⟨by rw [handingOff]; exact ⟨nofun, nofun⟩, rfl⟩
  | unfollowed handingOff unfollowed =>
    exact .inl ⟨by rw [handingOff]; exact ⟨nofun, nofun⟩, rfl⟩
  | handOff unfollowed started => exact .inl ⟨by rw [unfollowed]; exact ⟨nofun, nofun⟩, rfl⟩

theorem running_of_busy {range : LedgerRange} {phase : Phase} {seen : Option (Option Checkpoint)}
    (h : p.task = .busy range phase seen) : Running p.task := by
  rw [h]
  exact ⟨nofun, nofun⟩

theorem Seeds.writer (hstep : Seeds sources config ix i s p s' p') : Stays s s' p := by
  cases hstep with
  | latestLedger unfollowed empty client => exact ⟨by rw [unfollowed]; exact ⟨nofun, nofun⟩, rfl⟩
  | contract seeding => exact ⟨running_of_busy seeding, rfl⟩
  | answer asking answered => exact ⟨running_of_busy asking, rfl⟩
  | nothing listed seeded => exact ⟨running_of_busy listed, rfl⟩
  | openRecords listed nonempty free => exact ⟨running_of_busy listed, lockRow_writer s i _⟩
  | commitRecords listed nonempty free seeded => exact ⟨running_of_busy listed, rfl⟩
  | openMark seeding free => exact ⟨running_of_busy seeding, lockRow_writer s i _⟩
  | commitMark seeding free finished => exact ⟨running_of_busy seeding, rfl⟩

theorem Follows.writer (hstep : Follows sources config ix i s p s' p') : Stays s s' p := by
  cases hstep with
  | begin starting began => exact ⟨by rw [starting]; exact ⟨nofun, nofun⟩, rfl⟩
  | answer requesting answered => exact ⟨running_of_busy requesting, rfl⟩
  | nothing holding unchanged empty synced => exact ⟨running_of_busy holding, rfl⟩
  | openPage holding changed free => exact ⟨running_of_busy holding, lockRow_writer s i _⟩
  | commitPage holding changed free synced => exact ⟨running_of_busy holding, rfl⟩

/-- **What a step does to the writer lock**: an instance that runs leaves it alone, one that waits
takes it if it is free, and one that stops gives up its own. -/
theorem Act.writer (hstep : Act sources config ix i s p s' p') :
    Stays s s' p ∨ s.writer = none ∧ s'.writer = some i ∨
      ¬Running p'.task ∧ (s'.writer = s.writer ∨ s.writer = some i) := by
  cases hstep with
  | manage step => exact step.writer
  | seed step => exact .inl step.writer
  | follow step => exact .inl step.writer

/-- A transaction that an instance has open has read the checkpoint that is still there. -/
def SeenTrue (s : Shared ι) (p : Instance) : Prop :=
  ∀ range phase seen, p.task = .busy range phase (some seen) →
    ∀ stream, Writes phase = some stream → seen = s.store.checkpoint stream

omit [DecidableEq ι] in
/-- A transaction that a step has just opened. -/
theorem seenTrue_lockRow {range : LedgerRange} {phase : Phase} {stream : Stream}
    (hwrites : Writes phase = some stream)
    (htask : p'.task = .busy range phase (some (s.store.checkpoint stream))) :
    SeenTrue (s.lockRow i stream) p' := by
  intro range' phase' seen h other hother
  rw [htask] at h
  cases h
  obtain rfl := Option.some.inj (hwrites.symm.trans hother)
  rw [(unwritten_lockRow s i stream).store]

/-- An instance has a transaction open after a step only if the step opened it. -/
theorem Act.seen (hstep : Act sources config ix i s p s' p') : SeenTrue s' p' := by
  cases hstep with
  | manage step =>
    intro range phase seen htask
    cases step <;> cases htask
  | seed step =>
    cases step with
    | openRecords listed nonempty free => exact seenTrue_lockRow rfl rfl
    | openMark seeding free => exact seenTrue_lockRow rfl rfl
    | _ =>
      intro range phase seen htask
      cases htask
  | follow step =>
    cases step with
    | openPage holding changed free => exact seenTrue_lockRow rfl rfl
    | begin starting began =>
      intro range phase seen htask
      cases htask
    | answer requesting answered =>
      intro range phase seen htask
      cases htask
    | nothing holding unchanged empty synced =>
      rename_i next
      intro range phase seen htask
      cases next <;> cases htask
    | commitPage holding changed free synced =>
      rename_i next _
      intro range phase seen htask
      cases next <;> cases htask

/-- **Whoever runs holds the lock**, and what it has read for a write is still so. -/
structure Exclusive (i : ι) (s : Shared ι) (p : Instance) : Prop where
  holds : Running p.task → s.writer = some i
  seen : SeenTrue s p

/-- The others leave the holder of the lock alone. -/
structure LeftAlone (i : ι) (s s' : Shared ι) : Prop where
  writer : s.writer = some i → s'.writer = some i
  store : s.writer = some i → s'.store = s.store

theorem Act.sound (hsound : s.store.Sound) (hstep : Act sources config ix i s p s' p') :
    s'.store.Sound := by
  rcases hstep.wrote hsound with hsame | ⟨_, _, _, _, _, _, -, -, hwritten⟩
  · rw [hsame]
    exact hsound
  · exact hwritten.sound

theorem Act.exclusive (hsound : s.store.Sound) (hp : Exclusive i s p)
    (hstep : Act sources config ix i s p s' p') :
    Exclusive i s' p' ∧ ∀ j ≠ i, s.writer = some j → s'.writer = some j ∧ s'.store = s.store := by
  have hwriter := hstep.writer
  refine ⟨⟨fun hrunning => ?_, hstep.seen⟩, fun j hj hheld => ⟨?_, ?_⟩⟩
  · rcases hwriter with ⟨hran, hsame⟩ | ⟨-, htaken⟩ | ⟨hnot, -⟩
    · rw [hsame]
      exact hp.holds hran
    · exact htaken
    · exact absurd hrunning hnot
  · rcases hwriter with ⟨-, hsame⟩ | ⟨hfree, -⟩ | ⟨-, hsame | hown⟩
    · rw [hsame]
      exact hheld
    · rw [hfree] at hheld
      cases hheld
    · rw [hsame]
      exact hheld
    · exact absurd (Option.some.inj (hheld.symm.trans hown)) hj
  · -- whoever writes holds the lock
    rcases hstep.wrote hsound with hsame | ⟨_, _, _, _, _, _, htask, -, -⟩
    · exact hsame
    · have hown := hp.holds (running_of_busy htask)
      exact absurd (Option.some.inj (hheld.symm.trans hown)) hj

/-- **While no connection drops, instances exclude each other**, whatever the sources answer. -/
theorem guarantees_exclusive (sources : Sources) (config : ServiceConfig) (ix : Indexer) :
    RelyGuarantee.Guarantees (Env (ι := ι) ix false) (Act sources config ix)
      (fun s => s.store.Sound) Exclusive LeftAlone where
  env hsound hstep := by
    cases hstep with
    | grow grows emit => exact ⟨hsound, fun _ => ⟨fun h => h, fun _ => rfl⟩⟩
    | tick later => exact ⟨hsound, fun _ => ⟨fun h => h, fun _ => rfl⟩⟩
    | drop allowed => cases allowed
  act hsound hp hstep := by
    obtain ⟨hown, hothers⟩ := Act.exclusive hsound hp hstep
    exact ⟨hstep.sound hsound, hown, fun j hj =>
      ⟨fun h => (hothers j hj h).1, fun h => (hothers j hj h).2⟩⟩
  stable hp hleft := by
    refine ⟨fun hrunning => hleft.writer (hp.holds hrunning), ?_⟩
    intro range phase seen htask stream hwrites
    rw [hleft.store (hp.holds (running_of_busy htask))]
    exact hp.seen range phase seen htask stream hwrites

/-- No stream has moved back. -/
def Ascends (s s' : Shared ι) : Prop :=
  ∀ stream c, s.store.checkpoint stream = some c →
    ∃ c', s'.store.checkpoint stream = some c' ∧ c.cursor ≤ c'.cursor

omit [DecidableEq ι] in
theorem ascends_of_eq (h : s'.store = s.store) : Ascends s s' := by
  intro stream c hc
  rw [h]
  exact ⟨c, hc, le_rfl⟩

/-- **A write by the only writer moves its stream forward.** -/
theorem Act.ascends (hsound : s.store.Sound) (hp : Exclusive i s p)
    (hstep : Act sources config ix i s p s' p') : Ascends s s' := by
  rcases hstep.wrote hsound with
    hsame | ⟨range, phase, seen, stream, batch, c, htask, hwrites, hwritten⟩
  · exact ascends_of_eq hsame
  · -- the transaction has read the checkpoint that is still there
    obtain rfl := hp.seen range phase seen htask stream hwrites
    have hsee : s.store.seeing stream (s.store.checkpoint stream) = s.store := by
      rw [Store.seeing, Function.update_eq_self]
    rw [hsee] at hwritten
    intro other c' hc'
    by_cases hother : other = stream
    · subst hother
      exact ⟨c, hwritten.checkpoint_self, hwritten.forward c' hc'⟩
    · rw [hwritten.checkpoint_of_ne hother]
      exact ⟨c', hc', le_rfl⟩

end Exclusive

section Exclusive

variable [DecidableEq ι] {sources : Sources} {config : ServiceConfig} {history : History}
  {w w' : Fleet ι}

/-- **One writer.**  As long as no connection drops, at most one instance is past the wait for the
lock, and between any two moments of a run no stream's checkpoint moves back.  Nothing is assumed of
what the sources answer. -/
theorem one_writer (hrun : Runs sources config ix false (.fresh history) w)
    (hlater : Runs sources config ix false w w') :
    (∀ i j, Running (w.own i).task → Running (w.own j).task → i = j) ∧
      Ascends w.shared w'.shared := by
  have hfresh : RelyGuarantee.Holds (fun s => s.store.Sound) Exclusive
      (Fleet.fresh history : Fleet ι) :=
    ⟨(Indexing.consistent_empty history 0).sound, fun i => ⟨fun h => absurd rfl h.1, nofun⟩⟩
  have hthen := (guarantees_exclusive sources config ix).run hfresh hrun
  refine ⟨fun i j hi hj => ?_, ?_⟩
  · have hholds := ((hthen.own i).holds hi).symm.trans ((hthen.own j).holds hj)
    exact Option.some.inj hholds
  · refine (guarantees_exclusive sources config ix).run_rel (fun s => ascends_of_eq rfl) ?_ ?_ ?_
      hthen hlater
    · intro s s' s'' h h' stream c hc
      obtain ⟨c', hc', hle⟩ := h stream c hc
      obtain ⟨c'', hc'', hle'⟩ := h' stream c' hc'
      exact ⟨c'', hc'', hle.trans hle'⟩
    · intro s s' _ hstep
      cases hstep with
      | grow grows emit => exact ascends_of_eq rfl
      | tick later => exact ascends_of_eq rfl
      | drop allowed => cases allowed
    · intro i s p s' p' hsound hp hstep
      exact hstep.ascends hsound hp

end Exclusive

/-- The first instance runs, the second waits, and the mark stays where it is. -/
theorem one_writer_caught_up :
    Running ((takenOver twoNullifiers).own true).task ∧
      ¬Running ((takenOver twoNullifiers).own false).task ∧
      Ascends (takenOver twoNullifiers).shared sampleCaughtUp.shared := by
  obtain ⟨hone, hascends⟩ :=
    one_writer (reaches_takenOver late_twoNullifiers) reaches_sampleCaughtUp
  refine ⟨⟨nofun, nofun⟩, fun h => ?_, hascends⟩
  cases hone true false ⟨nofun, nofun⟩ h

end Service

end Veil
