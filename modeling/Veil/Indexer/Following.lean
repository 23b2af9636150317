/-
# Ingestion loses nothing and stores nothing twice

`sync_to_tip` against an honest source, with the process killed and restarted at any moment and the
source's list growing in between.  A `World` is the source's list, what the source has reported,
the store, and where the running `sync_to_tip` is: idle, waiting for an answer, or holding a page
it has not committed.

Only a commit writes the store, and it writes the batch and the cursor together.  So the store
always covers exactly the events from the start ledger up to its cursor (`Covered`), and the
process needs to remember nothing but that its next request starts there (`Inv`).
-/
import Mathlib.Logic.Relation
import Veil.Api.Queries
import Veil.Indexer.Source

namespace Veil

open EventPosition Tx

namespace Following

/-! ## 1. Runs -/

/-- Where `sync_to_tip` is. -/
inductive Phase where
  | idle
  | asking (start : Start) (report : SyncReport)
  | holding (start : Start) (report : SyncReport) (page : EventsPage)

structure World where
  history : History
  /-- The latest ledger the source has named, as its newest or in a cursor. -/
  reported : Nat
  store : Store
  phase : Phase

/-- Nothing read yet. -/
def World.fresh (history : History) : World := ⟨history, 0, .empty, .idle⟩

/-- Ask again from where the round ended, or return. -/
def Phase.after (report : SyncReport) : Option Start → Phase
  | some start => .asking start report
  | none => .idle

/-- One step of the process, its death, or growth of the source's list. -/
inductive Step (f : Follower) (s : Nat) : World → World → Prop
  | grow {w : World} {history : History} (grows : w.history.Grows history w.reported) :
      Step f s w { w with history := history }
  /-- `sync_to_tip` is called.  With a checkpoint stored it ignores the start ledger. -/
  | begin {w : World} {startLedger : Option Nat} {start : Start} {report : SyncReport}
      (idle : w.phase = .idle) (arg : startLedger = some s ∨ startLedger = none)
      (began : f.beginSync startLedger w.store = .ok (start, report)) :
      Step f s w { w with phase := .asking start report }
  | answer {w : World} {start : Start} {report : SyncReport} {page : EventsPage}
      (asking : w.phase = .asking start report)
      (honest : HonestPage w.history start f.pageSize page) :
      Step f s w { w with
        phase := .holding start report page
        reported := max w.reported (max page.latestLedger page.cursor.ledger) }
  | commit {w : World} {start : Start} {report report' : SyncReport} {page : EventsPage}
      {next : Option Start} {store : Store} (holding : w.phase = .holding start report page)
      (synced : f.syncPage start page report w.store = .ok (next, report', store)) :
      Step f s w { w with store := store, phase := .after report' next }
  /-- The process dies, or an error ends the call. -/
  | kill {w : World} : Step f s w { w with phase := .idle }

/-- What any number of steps can lead to. -/
abbrev Reaches (f : Follower) (s : Nat) : World → World → Prop := Relation.ReflTransGen (Step f s)

/-! ## 2. The invariant -/

/-- The events from ledger `s` on that the store's cursor covers. -/
def covered (s : Nat) (w : World) (e : EmittedEvent) : Bool :=
  decide (s ≤ e.position.ledger) &&
    (w.store.checkpoint .rpc).any fun c => decide (e.position ≤ c.cursor)

/-- A request the process may have outstanding: the first one, or one after the stored cursor. -/
def Resumes (s : Nat) (store : Store) : Start → Prop
  | .ledger l => l = s ∧ store.checkpoint .rpc = none
  | .after c => ∃ checkpoint, store.checkpoint .rpc = some checkpoint ∧ checkpoint.cursor = c

/-- What the process remembers is true. -/
def Phase.Valid (s : Nat) (w : World) : Phase → Prop
  | .idle => True
  | .asking start _ => Resumes s w.store start
  | .holding start _ page => Resumes s w.store start ∧ Serves w.history start page ∧
      page.cursor.ledger ≤ w.reported

structure Inv (s : Nat) (w : World) : Prop where
  sound : w.store.Sound
  stored : ∀ e, e ∈ w.store.stored ↔ e ∈ w.history.events ∧ covered s w e = true
  cursor : ∀ c, w.store.checkpoint .rpc = some c →
    c.cursor.IsCursor ∧ s ≤ c.cursor.ledger ∧ c.cursor.ledger ≤ w.reported
  phase : w.phase.Valid s w

theorem inv_fresh (s : Nat) (history : History) : Inv s (.fresh history) where
  sound := Store.sound_empty
  stored := by simp [World.fresh, Store.empty, Store.stored, covered]
  cursor := by simp [World.fresh, Store.empty]
  phase := trivial

variable {contracts : Contracts} {pageSize s : Nat} {w w' : World}

theorem covered_of_some {c : Checkpoint} (hc : w.store.checkpoint .rpc = some c)
    (e : EmittedEvent) :
    covered s w e = true ↔ s ≤ e.position.ledger ∧ e.position ≤ c.cursor := by
  simp [covered, hc]

theorem covered_of_none (hc : w.store.checkpoint .rpc = none) (e : EmittedEvent) :
    covered s w e = false := by
  simp [covered, hc]

/-- Growth adds nothing the cursor covers. -/
theorem Inv.grow {history : History} (h : Inv s w) (hg : w.history.Grows history w.reported) :
    Inv s { w with history := history } where
  sound := h.sound
  stored := by
    intro e
    rw [h.stored e]
    refine ⟨fun ⟨he, hcov⟩ => ⟨hg.kept.subset he, hcov⟩, fun ⟨he, hcov⟩ => ⟨?_, hcov⟩⟩
    rcases hg.later e he with hold | hnew
    · exact hold
    · -- a covered event lies in a reported ledger
      cases hc : w.store.checkpoint .rpc with
      | none =>
        have hcov : covered s w e = true := hcov
        rw [covered_of_none hc] at hcov
        cases hcov
      | some c =>
        have hle := ledger_mono ((covered_of_some hc e).mp hcov).2
        have := (h.cursor c hc).2.2
        omega
  cursor := h.cursor
  phase := by
    have hphase := h.phase
    cases hp : w.phase with
    | idle => trivial
    | asking start report =>
      rw [hp] at hphase
      exact hphase
    | holding start report page =>
      rw [hp] at hphase
      obtain ⟨hres, hserves, hrep⟩ := hphase
      exact ⟨hres, hserves.grow hg hrep, hrep⟩

theorem Inv.begin {startLedger : Option Nat} {start : Start} {report : SyncReport} (h : Inv s w)
    (arg : startLedger = some s ∨ startLedger = none)
    (began : (Follower.mk contracts .rpc pageSize).beginSync startLedger w.store =
      .ok (start, report)) : Inv s { w with phase := .asking start report } where
  sound := h.sound
  stored := h.stored
  cursor := h.cursor
  phase := by
    show Resumes s w.store start
    unfold Follower.beginSync at began
    dsimp only at began
    cases hc : w.store.checkpoint .rpc with
    | some c =>
      rw [hc] at began
      obtain ⟨rfl, -⟩ := Prod.mk.inj (Except.ok.inj began)
      exact ⟨c, hc, rfl⟩
    | none =>
      rw [hc] at began
      rcases arg with rfl | rfl
      · obtain ⟨rfl, -⟩ := Prod.mk.inj (Except.ok.inj began)
        exact ⟨rfl, hc⟩
      · cases began

theorem Inv.answer {start : Start} {report : SyncReport} {page : EventsPage} (h : Inv s w)
    (asking : w.phase = .asking start report)
    (honest : HonestPage w.history start pageSize page) :
    Inv s { w with
      phase := .holding start report page
      reported := max w.reported (max page.latestLedger page.cursor.ledger) } where
  sound := h.sound
  stored := h.stored
  cursor := by
    intro c hc
    obtain ⟨h1, h2, h3⟩ := h.cursor c hc
    exact ⟨h1, h2, h3.trans (le_max_left _ _)⟩
  phase := by
    have hphase := h.phase
    rw [asking] at hphase
    exact ⟨hphase, honest.serves, (le_max_right _ _).trans (le_max_right _ _)⟩

/-- After a round the stored cursor is the page's, whether the page was written or brought
nothing new. -/
theorem Inv.round_checkpoint {start : Start} {page : EventsPage} {next : Option Start}
    {store : Store} (h : Inv s w) (hres : Resumes s w.store start)
    (hround : Follower.Round ⟨contracts, .rpc, pageSize⟩ start page next w.store store) :
    store.Sound ∧ ∃ c, store.checkpoint .rpc = some c ∧ c.cursor = page.cursor := by
  rcases hround.wrote with hw | ⟨rfl, -, rfl⟩
  · exact ⟨hw.sound, _, hw.checkpoint_self, rfl⟩
  · exact ⟨h.sound, hres⟩

/-- **One commit.**  The cases are the two kinds of request: the first one starts from an empty
store, a later one from a store that covers everything up to its cursor. -/
theorem Inv.commit {start : Start} {report report' : SyncReport} {page : EventsPage}
    {next : Option Start} {store : Store} (h : Inv s w)
    (holding : w.phase = .holding start report page)
    (synced : (Follower.mk contracts .rpc pageSize).syncPage start page report w.store =
      .ok (next, report', store)) :
    Inv s { w with store := store, phase := .after report' next } := by
  have hphase := h.phase
  rw [holding] at hphase
  obtain ⟨hres, hserves, hrep⟩ := hphase
  have hround := Follower.syncPage_ok h.sound synced
  obtain ⟨hsound, c, hc, hcursor⟩ := h.round_checkpoint hres hround
  have hstored := hserves.stored hround
  have hstart : s ≤ page.cursor.ledger := by
    cases start with
    | ledger l => exact hres.1 ▸ hserves.scanned l rfl
    | after c0 =>
      obtain ⟨c1, hc1, rfl⟩ := hres
      exact (h.cursor c1 hc1).2.1.trans (ledger_mono (hround.forward _ rfl))
  refine ⟨hsound, fun e => ?_, ?_, ?_⟩
  · rw [hstored e, h.stored e,
      covered_of_some (w := { w with store := store, phase := .after report' next }) hc, hcursor]
    cases start with
    | ledger l =>
      obtain ⟨rfl, hnone⟩ := hres
      simp [covered_of_none hnone, Start.admits]
    | after c0 =>
      obtain ⟨c1, hc1, rfl⟩ := hres
      have hforward := hround.forward _ rfl
      have hs := (h.cursor c1 hc1).2.1
      rw [covered_of_some hc1, Start.admits, decide_eq_true_iff]
      constructor
      · rintro (⟨he, hle, hpos⟩ | ⟨he, hlt, hpos⟩)
        · exact ⟨he, hle, hpos.trans hforward⟩
        · exact ⟨he, hs.trans (ledger_mono hlt.le), hpos⟩
      · rintro ⟨he, hle, hpos⟩
        rcases le_or_gt e.position c1.cursor with hold | hnew
        · exact .inl ⟨he, hle, hold⟩
        · exact .inr ⟨he, hnew, hpos⟩
  · intro c' hc'
    obtain rfl : c = c' := Option.some.inj (hc.symm.trans hc')
    rw [hcursor]
    exact ⟨hserves.cursor, hstart, hrep⟩
  · cases next with
    | none => trivial
    | some start' =>
      rw [hround.resumes start' rfl]
      exact ⟨c, hc, hcursor⟩

theorem Inv.step (h : Inv s w) (hstep : Step ⟨contracts, .rpc, pageSize⟩ s w w') : Inv s w' := by
  cases hstep with
  | grow grows => exact h.grow grows
  | begin idle arg began => exact h.begin arg began
  | answer asking honest => exact h.answer asking honest
  | commit holding synced => exact h.commit holding synced
  | kill => exact ⟨h.sound, h.stored, h.cursor, trivial⟩

theorem Inv.run (h : Inv s w) (hrun : Reaches ⟨contracts, .rpc, pageSize⟩ s w w') : Inv s w' := by
  induction hrun with
  | refl => exact h
  | tail _ hstep ih => exact ih.step hstep

/-! ## 3. The cursor never moves back -/

/-- The stored cursor of `w` lies at or before that of `w'`. -/
def CursorLe (w w' : World) : Prop :=
  ∀ c, w.store.checkpoint .rpc = some c →
    ∃ c', w'.store.checkpoint .rpc = some c' ∧ c.cursor ≤ c'.cursor

theorem CursorLe.of_store (h : w'.store = w.store) : CursorLe w w' := by
  intro c hc
  exact ⟨c, h ▸ hc, le_refl _⟩

theorem Inv.cursor_step (h : Inv s w) (hstep : Step ⟨contracts, .rpc, pageSize⟩ s w w') :
    CursorLe w w' := by
  cases hstep with
  | commit holding synced =>
    rcases (Follower.syncPage_ok h.sound synced).wrote with hw | ⟨-, -, hsame⟩
    · intro c hc
      exact ⟨_, hw.checkpoint_self, hw.forward c hc⟩
    · exact .of_store hsame
  | _ => exact .of_store rfl

theorem Inv.cursor_run (h : Inv s w) (hrun : Reaches ⟨contracts, .rpc, pageSize⟩ s w w') :
    CursorLe w w' := by
  induction hrun with
  | refl => exact .of_store rfl
  | tail hrun hstep ih =>
    intro c hc
    obtain ⟨c1, hc1, hle1⟩ := ih c hc
    obtain ⟨c2, hc2, hle2⟩ := (h.run hrun).cursor_step hstep c1 hc1
    exact ⟨c2, hc2, hle1.trans hle2⟩

/-! ## 4. What is stored -/

/-- The stored events, each once, are the covered ones. -/
theorem Inv.perm (h : Inv s w) :
    w.store.stored.Perm (w.history.events.filter (covered s w)) := by
  rw [List.perm_ext_iff_of_nodup (List.Nodup.of_map _ h.sound.once)
    (w.history.nodup.filter _)]
  intro e
  rw [h.stored e, List.mem_filter]

theorem Inv.indexed (h : Inv s w) {e : EmittedEvent} (he : e ∈ w.history.events)
    (hs : s ≤ e.position.ledger) (hi : e.position.ledger ≤ Verify.indexedLedger w.store) :
    e ∈ w.store.stored := by
  have hpos := (w.history.storable e he).ledger
  cases hc : w.store.checkpoint .rpc with
  | none =>
    rw [Verify.indexedLedger, hc] at hi
    exact absurd hi (Nat.not_le.mpr hpos)
  | some c =>
    rw [Verify.indexedLedger_eq hc] at hi
    exact (h.stored e).mpr ⟨he, (covered_of_some hc e).mpr
      ⟨hs, (h.cursor c hc).1.covers hpos hi⟩⟩

/-- **Ingestion loses nothing and stores nothing twice.**  Whatever list the source starts with and
however it grows, for every page size and start ledger `s`, at every moment of every sequence of
`sync_to_tip` runs that are killed anywhere and restarted:

* the stored events are exactly the source's events in ledgers from `s` on and at or before the
  stored cursor, each once;
* the cursor never decreases, whatever follows;
* every event of the source in the ledgers from `s` to the one `indexed_ledger` reports is stored,
  and the API's `checkpoint` reports the same ledger. -/
theorem ingestion_is_exact (contracts : Contracts) (pageSize s : Nat) (history : History)
    {w : World} (hrun : Reaches ⟨contracts, .rpc, pageSize⟩ s (.fresh history) w) :
    w.store.stored.Perm (w.history.events.filter (covered s w)) ∧
      (∀ w', Reaches ⟨contracts, .rpc, pageSize⟩ s w w' → CursorLe w w') ∧
      (∀ e ∈ w.history.events, s ≤ e.position.ledger →
        e.position.ledger ≤ Verify.indexedLedger w.store → e ∈ w.store.stored) ∧
      ∀ verified complete latest, Api.checkpoint ⟨w.store, verified⟩ = some (complete, latest) →
        complete = Verify.indexedLedger w.store := by
  have h : Inv s w := (inv_fresh s history).run hrun
  refine ⟨h.perm, fun w' => h.cursor_run, fun e he hs hi => h.indexed he hs hi, ?_⟩
  intro verified complete latest hq
  exact Api.checkpoint_fst hq

/-! ### A run -/

/-- The two nullifiers of one call, in ledger 5. -/
def twoNullifiers : History where
  events := [⟨.firstOperation 5 0, .contract 1, (PoolEvent.newNullifier 7).encode⟩,
    ⟨.firstOperation 5 1, .contract 1, (PoolEvent.newNullifier 8).encode⟩]
  sorted := by
    refine List.pairwise_cons.mpr ⟨?_, List.pairwise_singleton _ _⟩
    intro e he
    obtain rfl := List.mem_singleton.mp he
    decide
  storable := by
    intro e he
    rcases List.mem_cons.mp he with rfl | he
    · exact ⟨by decide, by decide, by decide, rfl⟩
    · obtain rfl := List.mem_singleton.mp he
      exact ⟨by decide, by decide, by decide, rfl⟩

/-- A full page of one event: its cursor is that event. -/
def firstNullifier : EventsPage where
  events := (twoNullifiers.events.take 1).map fun e => { e with source := .rpc }
  cursor := .firstOperation 5 0
  latestLedger := 6
  oldestLedger := 1

theorem honest_firstNullifier : HonestPage twoNullifiers (.ledger 2) 1 firstNullifier where
  inOrder := List.take_sublist 1 twoNullifiers.events
  limit := by decide
  complete := by
    intro e he _ hle
    rcases List.mem_cons.mp he with rfl | he
    · exact List.mem_cons_self
    · obtain rfl := List.mem_singleton.mp he
      exact absurd hle (by decide)
  cursor := .inl ⟨_, List.mem_cons_self, rfl⟩
  scanned := by
    intro l hl
    cases hl
    decide

/-- The page after it. -/
def secondNullifier : EventsPage where
  events := (twoNullifiers.events.drop 1).map fun e => { e with source := .rpc }
  cursor := .firstOperation 5 1
  latestLedger := 6
  oldestLedger := 1

theorem honest_secondNullifier :
    HonestPage twoNullifiers (.after firstNullifier.cursor) 1 secondNullifier where
  inOrder := List.Sublist.refl _
  limit := by decide
  complete := by
    intro e he hafter _
    rcases List.mem_cons.mp he with rfl | he
    · exact absurd hafter (by decide)
    · exact he
  cursor := .inl ⟨twoNullifiers.events[1], List.mem_of_getElem rfl, rfl⟩
  scanned := by
    intro l hl
    cases hl

/-- The first page, fetched from ledger 2 on and committed.  The second event is not stored, and
is what a commit of the second page adds. -/
theorem reaches_firstNullifier : ∃ store phase,
    Reaches ⟨⟨.contract 1, .contract 2⟩, .rpc, 1⟩ 2 (.fresh twoNullifiers)
        ⟨twoNullifiers, 6, store, phase⟩ ∧
      store.checkpoint .rpc = some ⟨firstNullifier.cursor, 6⟩ ∧
      twoNullifiers.events[1] ∉ store.stored ∧
      okAnd ((Follower.mk ⟨.contract 1, .contract 2⟩ .rpc 1).syncPage
        (.after firstNullifier.cursor) secondNullifier
        { checkpoint := some ⟨firstNullifier.cursor, 6⟩ } store)
        (fun r => r.2.2.stored.length = 2) = true := by
  have hsync : okAnd ((Follower.mk ⟨.contract 1, .contract 2⟩ .rpc 1).syncPage (.ledger 2)
      firstNullifier {} .empty) (fun r => r.2.2.checkpoint .rpc = some ⟨firstNullifier.cursor, 6⟩ ∧
        twoNullifiers.events[1] ∉ r.2.2.stored ∧
        okAnd ((Follower.mk ⟨.contract 1, .contract 2⟩ .rpc 1).syncPage
          (.after firstNullifier.cursor) secondNullifier
          { checkpoint := some ⟨firstNullifier.cursor, 6⟩ } r.2.2)
          (fun r => r.2.2.stored.length = 2) = true) = true := by decide +kernel
  obtain ⟨⟨next, report, store⟩, hok, hres⟩ := okAnd_eq_true.mp hsync
  refine ⟨store, .after report next, ?_, of_decide_eq_true hres⟩
  exact ((Relation.ReflTransGen.single (Step.begin rfl (.inl rfl) rfl)).tail
    (Step.answer rfl honest_firstNullifier)).tail (Step.commit rfl hok)

/-- Two pages of one event.  The process is killed after the first commit, and again with the
second page in hand; each time it resumes after the stored cursor. -/
theorem ingestion_is_exact_nullifier : ∃ w,
    Reaches ⟨⟨.contract 1, .contract 2⟩, .rpc, 1⟩ 2 (.fresh twoNullifiers) w ∧
      w.store.stored.length = 2 ∧
      w.store.stored.Perm (w.history.events.filter (covered 2 w)) := by
  obtain ⟨store, phase, hfirst, hc, -, hsync⟩ := reaches_firstNullifier
  obtain ⟨⟨next, report, store'⟩, hok, hlen⟩ := okAnd_eq_true.mp hsync
  have hresume : ∀ phase, Reaches ⟨⟨.contract 1, .contract 2⟩, .rpc, 1⟩ 2
      ⟨twoNullifiers, 6, store, phase⟩ ⟨twoNullifiers, 6, store,
        .holding (.after firstNullifier.cursor) { checkpoint := some ⟨firstNullifier.cursor, 6⟩ }
          secondNullifier⟩ := by
    intro phase
    have hbegun : (Follower.mk ⟨.contract 1, .contract 2⟩ .rpc 1).beginSync none store =
        .ok (.after firstNullifier.cursor, { checkpoint := some ⟨firstNullifier.cursor, 6⟩ }) :=
      Follower.beginSync_of_some (f := ⟨⟨.contract 1, .contract 2⟩, .rpc, 1⟩) hc none
    have hasked : Reaches ⟨⟨.contract 1, .contract 2⟩, .rpc, 1⟩ 2
        ⟨twoNullifiers, 6, store, phase⟩ ⟨twoNullifiers, 6, store,
          .asking (.after firstNullifier.cursor)
            { checkpoint := some ⟨firstNullifier.cursor, 6⟩ }⟩ :=
      (Relation.ReflTransGen.single Step.kill).tail (Step.begin rfl (.inr rfl) hbegun)
    exact hasked.tail (@Step.answer _ _ _ _ _ secondNullifier rfl honest_secondNullifier)
  have hrun : Reaches ⟨⟨.contract 1, .contract 2⟩, .rpc, 1⟩ 2 (.fresh twoNullifiers)
      ⟨twoNullifiers, 6, store', .after report next⟩ :=
    ((hfirst.trans (hresume _)).trans (hresume _)).tail (Step.commit rfl hok)
  exact ⟨_, hrun, of_decide_eq_true hlen, (ingestion_is_exact _ _ _ _ hrun).1⟩

end Following

end Veil
