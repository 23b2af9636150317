/-
# Recovering from a gap

When the indexer has been stopped for longer than RPC retains, `rpc_start` refuses with
`HandoffError::Gap`, and its text and `docs/DEPLOY.md` give the remedy: run `seed` again, start
again.  The seed does fill the hole.  Whether ingestion then starts depends on which checkpoint
`rpc_start` consults, and the seed never writes the RPC one (`Inv.seed_rpc`): a gap that came from
the seed's own mark is closed, a gap that came from an RPC cursor is reported again until RPC's
window reaches back to that cursor.
-/
import Veil.Indexer.Indexing

namespace Veil

open EventPosition Tx

namespace Indexing

/-- A step while `seed` runs. -/
inductive ReseedStep (ix : Indexer) : World → World → Prop
  | grow {w : World} {history : History} (grows : w.history.Grows history w.reported)
      (emit : ix.contracts.Emit history) : ReseedStep ix w { w with history := history }
  | seed {w w' : World} (step : SeedStep ix w w') : ReseedStep ix w w'

abbrev Reseeds (ix : Indexer) : World → World → Prop := Relation.ReflTransGen (ReseedStep ix)

variable {ix : Indexer} {w w' : World}

theorem Reseeds.reaches (h : Reseeds ix w w') : Reaches ix 0 w w' := by
  induction h with
  | refl => exact .refl
  | tail _ hstep ih =>
    cases hstep with
    | grow grows emit => exact ih.tail (.grow grows emit)
    | seed step => exact ih.tail (.seed step)

/-- **The seed never moves the RPC checkpoint.** -/
theorem Inv.seed_rpc {floor : Nat} (h : Inv ix floor w) (hstep : SeedStep ix w w') :
    w'.store.checkpoint .rpc = w.store.checkpoint .rpc := by
  cases hstep with
  | commit listed seeded =>
    rcases (Seed.seedPage_ok h.consistent.sound seeded).wrote with ⟨-, rfl⟩ | ⟨last, -, hw⟩
    · rfl
    · exact hw.checkpoint_of_ne (by simp)
  | finish seeding finished =>
    exact (finishSeed_ok h.consistent.sound finished).checkpoint_of_ne (by simp)
  | _ => rfl

theorem Inv.reseeds_rpc (h : Inv ix 0 w) (hrun : Reseeds ix w w') :
    w'.store.checkpoint .rpc = w.store.checkpoint .rpc := by
  induction hrun with
  | refl => rfl
  | tail hrun hstep ih =>
    have hinv := h.run (Reseeds.reaches hrun)
    cases hstep with
    | grow => exact ih
    | seed step => exact (hinv.seed_rpc step).trans ih

/-- **Ingestion is running again**: `rpc_start` lets it start; every event is stored, or RPC retains
it and the first request asks for it; and from there on no event is missing that the checkpoints
account for. -/
def Recovered (ix : Indexer) (range : LedgerRange) (overlap : Nat) (w : World) : Prop :=
  ∃ start request report, rpcStart w.store range overlap = .ok start ∧
    ix.follower.beginSync start w.store = .ok (request, report) ∧
    (∀ e ∈ w.history.events, e ∈ w.store.stored ∨
      range.oldestLedger ≤ e.position.ledger ∧ request.admits e = true) ∧
    ∀ w', Reaches ix range.oldestLedger { w with phase := .requesting request report } w' →
      ∀ e ∈ w'.history.events, w'.store.Accounts e.position → e ∈ w'.store.stored

theorem Consistent.accounted {history : History} {reported : Nat} {s : Store}
    (h : Consistent history reported s) {e : EmittedEvent} (he : e ∈ history.events)
    (haccounts : s.Accounts e.position) : e ∈ s.stored := by
  unfold Store.Accounts at haccounts
  split at haccounts
  · rename_i c hc
    exact (h.claims .rpc c hc).2.2 e he haccounts
  · obtain ⟨c, hc, hle⟩ := haccounts
    exact (h.claims .seed c hc).2 e he hle

/-- What RPC has dropped is in the ledgers of the seed. -/
theorem Inv.raise {oldest : Nat} {seed : Checkpoint} (h : Inv ix 0 w) (hidle : w.phase = .idle)
    (hseed : w.store.checkpoint .seed = some seed) (hretained : oldest ≤ seed.latestLedger + 1) :
    Inv ix oldest w := by
  obtain ⟨hreported, hall⟩ := h.consistent.claims .seed seed hseed
  refine ⟨h.emit, h.consistent, ⟨by omega, fun e he hlt => hall e he (by omega)⟩, ?_⟩
  rw [hidle]
  trivial

/-- If `rpc_start` succeeds on a store whose seed reaches up to RPC's window, nothing is lost. -/
theorem Inv.recovered {range : LedgerRange} {overlap : Nat} {start : Option Nat}
    {seed : Checkpoint} (h : Inv ix 0 w) (hidle : w.phase = .idle)
    (hseed : w.store.checkpoint .seed = some seed)
    (hretained : range.oldestLedger ≤ seed.latestLedger + 1)
    (hstart : rpcStart w.store range overlap = .ok start) : Recovered ix range overlap w := by
  have hinv : Inv ix range.oldestLedger w := h.raise hidle hseed hretained
  obtain ⟨request, report, hbegan⟩ : ∃ request report,
      ix.follower.beginSync start w.store = .ok (request, report) := by
    cases hc : w.store.checkpoint .rpc with
    | some c => exact ⟨_, _, Follower.beginSync_of_some hc start⟩
    | none =>
      rw [rpcStart_of_seed hc hseed, if_neg (by omega)] at hstart
      obtain rfl := Except.ok.inj hstart
      exact ⟨_, _, Follower.beginSync_of_none hc _⟩
  refine ⟨start, request, report, hstart, hbegan, fun e he => ?_, fun w' hrun e he haccounts => ?_⟩
  · by_cases hstored : e ∈ w.store.stored
    · exact .inl hstored
    · obtain ⟨hmem, hadmits⟩ := hinv.asked (hinv.resumes hstart hbegan) (le_max_left _ _) he hstored
      exact .inr ⟨(History.mem_retained.mp hmem).2, hadmits⟩
  · exact ((hinv.begin hstart hbegan).run hrun).consistent.accounted he haccounts

/-- A process that starts on a store that tells the truth. -/
theorem Consistent.inv {history : History} {reported : Nat} {s : Store}
    (hemit : ix.contracts.Emit history) (h : Consistent history reported s) :
    Inv ix 0 ⟨history, reported, s, .idle⟩ :=
  ⟨hemit, h, ⟨Nat.zero_le _, fun _ _ hlt => absurd hlt (Nat.not_lt_zero _)⟩, trivial⟩

/-- **What running `seed` again recovers from.**  Take any store that tells the truth, such as one
on which `rpc_start` has reported a gap, and run `seed` to its end against an honest archive whose
newest ledger reaches up to the window RPC has at the next start.  Ingestion then starts again
without losing an event if and only if there is no RPC checkpoint, or RPC's window reaches back to
it. -/
theorem gap_recovery_iff {history : History} {reported : Nat} {s s1 : Store} {w1 : World}
    {tip : Nat} {report : SeedReport} {range : LedgerRange} {overlap : Nat}
    (hemit : ix.contracts.Emit history) (hconsistent : Consistent history reported s)
    (hseed : Reseeds ix ⟨history, reported, s, .idle⟩ w1)
    (hlast : w1.phase = .seeding tip [] report) (hfinish : finishSeed tip w1.store = .ok s1)
    (hreaches : range.oldestLedger ≤ tip + 1) :
    Recovered ix range overlap { w1 with store := s1, phase := .idle } ↔
      ∀ c, s.checkpoint .rpc = some c → range.oldestLedger ≤ c.cursor.ledger + 1 := by
  have h0 : Inv ix 0 ⟨history, reported, s, .idle⟩ := hconsistent.inv hemit
  have h1 : Inv ix 0 w1 := h0.run hseed.reaches
  have h2 : Inv ix 0 { w1 with store := s1, phase := .idle } := h1.finish hlast hfinish
  have hw := finishSeed_ok h1.consistent.sound hfinish
  have hrpc : s1.checkpoint .rpc = s.checkpoint .rpc :=
    (hw.checkpoint_of_ne (by simp)).trans (h0.reseeds_rpc hseed)
  have hmark : s1.checkpoint .seed = some ⟨endOfLedger tip, tip⟩ := hw.checkpoint_self
  constructor
  · rintro ⟨start, -, -, hstart, -⟩ c hc
    rw [rpcStart_of_rpc (hrpc.trans hc)] at hstart
    split at hstart
    · cases hstart
    · omega
  · intro hwindow
    have hok : ∃ start, rpcStart s1 range overlap = .ok start := by
      cases hc : s.checkpoint .rpc with
      | some c =>
        have := hwindow c hc
        exact ⟨_, by rw [rpcStart_of_rpc (hrpc.trans hc), if_neg (by omega)]⟩
      | none =>
        exact ⟨_, by rw [rpcStart_of_seed (hrpc.trans hc) hmark, if_neg (Nat.not_lt.mpr hreaches)]⟩
    obtain ⟨start, hstart⟩ := hok
    exact h2.recovered rfl hmark hreaches hstart

/-! ### Two gaps -/

/-- The answer of an archive that lists these events. -/
def archivePage (listing : List EmittedEvent) (contract : Address)
    (previous : Option EventPosition) (limit : Nat) : List ContractEvent :=
  ((listing.filter (listed contract previous)).take limit).map
    fun e => { e with source := .stellarExpert }

/-- Read one contract from that archive to its end, in at most `fuel` pages. -/
def readContract (ix : Indexer) (listing : List EmittedEvent) (tip : Nat) (contract : Address) :
    Nat → Option EventPosition → SeedReport → Store → Option (SeedReport × Store)
  | 0, _, _, _ => none
  | fuel + 1, previous, report, s =>
    match seedPage ix.contracts ix.seedPageSize tip contract previous
        (archivePage listing contract previous ix.seedPageSize) report s with
    | .ok (.ask last, report, s) => readContract ix listing tip contract fuel last report s
    | .ok (.contractDone, report, s) => some (report, s)
    | .error _ => none

/-- Read each contract, from its cursor on. -/
def readContracts (ix : Indexer) (listing : List EmittedEvent) (tip fuel : Nat) :
    List Address → SeedReport → Store → Option (SeedReport × Store)
  | [], report, s => some (report, s)
  | contract :: todo, report, s => do
    let (report, s) ← readContract ix listing tip contract fuel
      ((s.checkpoint (.seedOf contract)).map (·.cursor)) report s
    readContracts ix listing tip fuel todo report s

section Reads

variable {history : History} {listing : List EmittedEvent} {reported tip fuel : Nat}
  {contract : Address} {todo : List Address} {report report' : SeedReport} {s s' : Store}
  (hlisting : listing <+: history.events)
  (hcomplete : ∀ e ∈ history.events, e.position.ledger ≤ tip → e ∈ listing)

include hlisting hcomplete

/-- A page that is asked for, answered and committed. -/
theorem reseeds_page {previous : Option EventPosition} {next : SeedNext}
    (h : seedPage ix.contracts ix.seedPageSize tip contract previous
      (archivePage listing contract previous ix.seedPageSize) report s = .ok (next, report', s')) :
    Reseeds ix ⟨history, reported, s, .asking tip contract todo previous report⟩
      ⟨history, reported, s', .afterRecords tip contract todo report' next⟩ := by
  have honest : HonestListing history contract previous ix.seedPageSize tip
      (archivePage listing contract previous ix.seedPageSize) := by
    refine ⟨listing, hlisting, hcomplete, ?_⟩
    rw [archivePage, List.map_map]
    exact List.map_id _
  exact (Relation.ReflTransGen.single (.seed (.answer rfl honest))).tail (.seed (.commit rfl h))

theorem reseeds_readContract {previous : Option EventPosition}
    (h : readContract ix listing tip contract fuel previous report s = some (report', s')) :
    Reseeds ix ⟨history, reported, s, .asking tip contract todo previous report⟩
      ⟨history, reported, s', .seeding tip todo report'⟩ := by
  induction fuel generalizing previous report s with
  | zero => cases h
  | succ fuel ih =>
    unfold readContract at h
    split at h
    · next last report1 s1 hpage => exact (reseeds_page hlisting hcomplete hpage).trans (ih h)
    · next report1 s1 hpage =>
      obtain ⟨rfl, rfl⟩ := Prod.mk.inj (Option.some.inj h)
      exact reseeds_page hlisting hcomplete hpage
    · cases h

theorem reseeds_readContracts
    (h : readContracts ix listing tip fuel todo report s = some (report', s')) :
    Reseeds ix ⟨history, reported, s, .seeding tip todo report⟩
      ⟨history, reported, s', .seeding tip [] report'⟩ := by
  induction todo generalizing report s with
  | nil =>
    obtain ⟨rfl, rfl⟩ := Prod.mk.inj (Option.some.inj h)
    exact .refl
  | cons contract todo ih =>
    obtain ⟨⟨report1, s1⟩, hread, h⟩ := Option.bind_eq_some_iff.mp h
    have hopened : Reseeds ix ⟨history, reported, s, .seeding tip (contract :: todo) report⟩
        ⟨history, reported, s, .asking tip contract todo
          ((s.checkpoint (.seedOf contract)).map (·.cursor)) report⟩ :=
      .single (.seed (.contract rfl))
    exact (hopened.trans (reseeds_readContract hlisting hcomplete hread)).trans (ih h)

/-- A seed that is told `tip` as the newest ledger and reads both contracts. -/
theorem reseeds_both (hreported : reported ≤ tip)
    (h : readContracts ix listing tip fuel ix.contracts.both { completeTo := tip } s =
      some (report, s')) :
    Reseeds ix ⟨history, reported, s, .idle⟩ ⟨history, tip, s', .seeding tip [] report⟩ := by
  have hlatest : SeedStep ix ⟨history, reported, s, .idle⟩
      ⟨history, tip, s, .seeding tip ix.contracts.both { completeTo := tip }⟩ := by
    have hstep := @SeedStep.latestLedger ix ⟨history, reported, s, .idle⟩ tip rfl
    rwa [Nat.max_eq_right hreported] at hstep
  exact .head (.seed hlatest) (reseeds_readContracts hlisting hcomplete h)

end Reads

open Following (twoNullifiers)

/-- Pages of one event. -/
def smallIndexer : Indexer := ⟨⟨.contract 1, .contract 2⟩, 1, 1⟩

theorem emit_smallIndexer : smallIndexer.contracts.Emit twoNullifiers := by
  intro e he
  rcases List.mem_cons.mp he with rfl | he
  · exact List.mem_cons_self
  · obtain rfl := List.mem_singleton.mp he
    exact List.mem_cons_self

/-- Reading both contracts up to ledger 12, at most three pages each. -/
def readNullifiers (s : Store) : Option (SeedReport × Store) :=
  readContracts smallIndexer twoNullifiers.events 12 3 smallIndexer.contracts.both
    { completeTo := 12 } s

theorem reseeds_readNullifiers {reported : Nat} {s : Store} (hreported : reported ≤ 12)
    (h : (readNullifiers s).any (fun r => okAnd (finishSeed 12 r.2) fun s =>
      s.stored.length = 2) = true) :
    ∃ report s1 s2, Reseeds smallIndexer ⟨twoNullifiers, reported, s, .idle⟩
        ⟨twoNullifiers, 12, s1, .seeding 12 [] report⟩ ∧
      finishSeed 12 s1 = .ok s2 ∧ s2.stored.length = 2 := by
  obtain ⟨⟨report, s1⟩, hreads, hfinishes⟩ := (Option.any_eq_true _ _).mp h
  obtain ⟨s2, hfinish, hlength⟩ := okAnd_eq_true.mp hfinishes
  exact ⟨report, s1, s2, reseeds_both (List.prefix_refl _) (fun _ he _ => he) hreported hreads,
    hfinish, of_decide_eq_true hlength⟩

/-- An empty store with one checkpoint, at the end of ledger 3. -/
def stoppedAt (stream : Stream) : Store :=
  { Store.empty with
    checkpoint := Function.update Store.empty.checkpoint stream (some ⟨endOfLedger 3, 3⟩) }

theorem written_stoppedAt (stream : Stream) :
    Store.Written stream [] ⟨endOfLedger 3, 3⟩ .empty (stoppedAt stream) where
  sound := ⟨Store.sound_empty.once, Store.sound_empty.storable, Store.sound_empty.tables⟩
  stored := by simp [stoppedAt, Store.stored, Store.empty]
  moved := rfl
  forward := by simp [Store.empty]

/-- Its events are in ledger 5, after both checkpoints. -/
theorem consistent_stoppedAt {stream : Stream} (h : stream = .rpc ∨ stream = .seed) :
    Consistent twoNullifiers 3 (stoppedAt stream) := by
  refine (consistent_empty _ 3).written (written_stoppedAt stream) (by simp) ?_
  have hlater : ∀ e ∈ twoNullifiers.events, 3 < e.position.ledger := by decide
  rcases h with rfl | rfl
  · refine ⟨isCursor_endOfLedger (by decide), by decide, fun e he hle => ?_⟩
    have := (le_endOfLedger_iff (by decide)).mp hle
    exact absurd (hlater e he) (Nat.not_lt.mpr this)
  · exact ⟨le_rfl, fun e he hle => absurd (hlater e he) (Nat.not_lt.mpr hle)⟩

/-- Seeding either store again reads both events and ends. -/
theorem reseeds_stoppedAt {stream : Stream} (h : stream = .rpc ∨ stream = .seed) :
    ∃ report s1 s2, Reseeds smallIndexer ⟨twoNullifiers, 3, stoppedAt stream, .idle⟩
        ⟨twoNullifiers, 12, s1, .seeding 12 [] report⟩ ∧
      finishSeed 12 s1 = .ok s2 ∧ s2.stored.length = 2 :=
  reseeds_readNullifiers (by decide) (by rcases h with rfl | rfl <;> decide +kernel)

/-- The index stopped before its first RPC page, with a seed complete to ledger 3, and RPC now
retains ledgers 10 and later.  Seeding again up to ledger 12 recovers it. -/
theorem gap_recovery_seed : ∃ w1,
    rpcStart (stoppedAt .seed) ⟨20, 10, by decide, by decide⟩ 0 = .error (.gap 3 10) ∧
      Recovered smallIndexer ⟨20, 10, by decide, by decide⟩ 0 w1 := by
  obtain ⟨report, s1, s2, hrun, hfinish, -⟩ := reseeds_stoppedAt (.inr rfl)
  exact ⟨_, rfl, (gap_recovery_iff emit_smallIndexer (consistent_stoppedAt (.inr rfl)) hrun rfl
    hfinish (by decide)).mpr fun c hc => by cases hc⟩

/-- The index stopped with an RPC cursor at the end of ledger 3.  Seeding again up to ledger 12
stores the events it had missed, and `rpc_start` still reports the same gap. -/
theorem gap_persists_after_seed : ∃ w1 report s1,
    Consistent twoNullifiers 3 (stoppedAt .rpc) ∧
      rpcStart (stoppedAt .rpc) ⟨20, 10, by decide, by decide⟩ 0 = .error (.gap 3 10) ∧
      Reseeds smallIndexer ⟨twoNullifiers, 3, stoppedAt .rpc, .idle⟩ w1 ∧
      w1.phase = .seeding 12 [] report ∧ finishSeed 12 w1.store = .ok s1 ∧
      s1.stored.length = w1.history.events.length ∧
      rpcStart s1 ⟨20, 10, by decide, by decide⟩ 0 = .error (.gap 3 10) := by
  obtain ⟨report, s1, s2, hrun, hfinish, hlength⟩ := reseeds_stoppedAt (.inl rfl)
  have hconsistent := consistent_stoppedAt (.inl rfl)
  have h0 := hconsistent.inv emit_smallIndexer
  have hw := finishSeed_ok (h0.run hrun.reaches).consistent.sound hfinish
  have hrpc : s2.checkpoint .rpc = some ⟨endOfLedger 3, 3⟩ :=
    (hw.checkpoint_of_ne (by simp)).trans (h0.reseeds_rpc hrun)
  refine ⟨_, report, s2, hconsistent, rfl, hrun, rfl, hfinish, hlength, ?_⟩
  rw [rpcStart_of_rpc hrpc]
  rfl

end Indexing

end Veil
