/-
# The index has no gaps

The index may be behind, and one contract may be further behind than the other: a seed reads the
pool to the end before it asks for the allowlist.  Within one contract nothing is ever skipped.
What is stored of a contract is a beginning of what the contract emitted (`Gapless`), at every
moment, and also when several instances write at once and their pages overlap.

The reason is the same for both sources.  An answer goes on from a position up to which everything
is stored, and leaves out nothing up to its own end; so after its commit everything up to that end
is stored.  That the records of a listing are in order, and of the contract asked for, is checked by
the indexer itself (`Seed.readRecords_listed`).
-/
import Veil.Api.ServedRoots
import Veil.Indexer.Fleet

namespace Veil

open EventPosition Tx

/-! ## 1. The records of a listing -/

namespace Seed

theorem checkOrder_eq_ok {contract : Address} {event : EventPosition}
    {previous : Option EventPosition} :
    checkOrder contract event previous = .ok () ↔ ∀ p ∈ previous, p < event := by
  cases previous with
  | none => simp [checkOrder]
  | some p => simp [checkOrder, ensure_eq_ok]

/-- **What the loop over the records has checked**: each is of the contract asked for, and none lies
after the last. -/
theorem readRecords_listed {contracts : Contracts} {contract : Address} :
    ∀ {records : List ContractEvent} {previous last : Option EventPosition}
      {batch : List StoredEvent},
    readRecords contracts contract previous records = .ok (batch, last) →
    ∀ r ∈ records, r.contract = contract ∧ (∀ p ∈ previous, p < r.position) ∧
      ∀ p ∈ records.getLast?, r.position ≤ p.position
  | [], _, _, _, _, r, hr => by cases hr
  | event :: events, previous, last, batch, h, r, hr => by
    obtain ⟨_, hcontract, h⟩ := bind_eq_ok.mp h
    obtain ⟨_, horder, h⟩ := bind_eq_ok.mp h
    obtain ⟨_, -, h⟩ := bind_eq_ok.mp h
    obtain ⟨_, -, h⟩ := bind_eq_ok.mp h
    obtain ⟨⟨batch1, last1⟩, h1, -⟩ := bind_eq_ok.mp h
    have hcontract := ensure_eq_ok.mp hcontract
    have horder := checkOrder_eq_ok.mp horder
    have hrest := readRecords_listed h1
    rcases List.mem_cons.mp hr with rfl | hr
    · refine ⟨hcontract, horder, fun p hp => ?_⟩
      rw [List.getLast?_cons] at hp
      cases hlast : events.getLast? with
      | none =>
        rw [hlast] at hp
        obtain rfl := Option.some.inj (Option.mem_def.mp hp)
        exact le_rfl
      | some p' =>
        rw [hlast] at hp
        obtain rfl := Option.some.inj (Option.mem_def.mp hp)
        exact ((hrest _ (List.mem_of_getLast? hlast)).2.1 _ rfl).le
    · obtain ⟨hc, hlater, hle⟩ := hrest r hr
      refine ⟨hc, fun p hp => (horder p hp).trans (hlater _ rfl), fun p hp => hle p ?_⟩
      rw [List.getLast?_cons] at hp
      cases hlast : events.getLast? with
      | none =>
        rw [List.getLast?_eq_none_iff.mp hlast] at hr
        cases hr
      | some p' =>
        rw [hlast] at hp
        exact hp

theorem seedPage_listed {contracts : Contracts} {pageSize tip : Nat} {contract : Address}
    {previous : Option EventPosition} {records : List ContractEvent} {report report' : SeedReport}
    {next : SeedNext} {s s' : Store}
    (h : seedPage contracts pageSize tip contract previous records report s =
      .ok (next, report', s')) :
    ∀ r ∈ records, r.contract = contract ∧ ∀ p ∈ records.getLast?, r.position ≤ p.position := by
  obtain ⟨_, hread, -⟩ := bind_eq_ok.mp h
  intro r hr
  obtain ⟨hcontract, -, hle⟩ := readRecords_listed hread r hr
  exact ⟨hcontract, hle⟩

end Seed

/-! ## 2. No gaps -/

namespace Service

open Indexing (SeededTo)

variable {ι : Type} {ix : Indexer} {s s' : Shared ι}

/-- **No gaps**: with an event, everything its contract emitted before is stored. -/
def Gapless (s : Shared ι) : Prop :=
  ∀ e ∈ s.store.stored, ∀ x ∈ s.history.events, x.contract = e.contract →
    x.position ≤ e.position → x ∈ s.store.stored

/-- A write that adds to the events a batch without gaps. -/
theorem Gapless.write (h : Gapless s) {batch : List EmittedEvent}
    (hhistory : s'.history = s.history)
    (hstored : ∀ e, e ∈ s'.store.stored ↔ e ∈ s.store.stored ∨ e ∈ batch)
    (hbatch : ∀ e ∈ batch, ∀ x ∈ s.history.events, x.contract = e.contract →
      x.position ≤ e.position → x ∈ s'.store.stored) : Gapless s' := by
  intro e he x hx hcontract hle
  rw [hhistory] at hx
  rcases (hstored e).mp he with he | he
  · exact (hstored x).mpr (.inl (h e he x hx hcontract hle))
  · exact hbatch e he x hx hcontract hle

theorem Unwritten.gapless (h : Unwritten s s') (hgapless : Gapless s) : Gapless s' := by
  unfold Gapless
  rw [h.history, h.store]
  exact hgapless

/-- What is new lies after everything stored. -/
theorem Env.gapless {drops : Bool} (hindex : IndexTrue ix s) (hgapless : Gapless s)
    (hstep : Env ix drops s s') : Gapless s' := by
  cases hstep with
  | grow grows emit =>
    intro e he x hx hcontract hle
    refine hgapless e he x (by_contra fun hnew => ?_) hcontract hle
    exact absurd (grows.after (hindex.consistent.genuine e he) hx hnew) (not_lt.mpr hle)
  | tick later => exact hgapless
  | drop allowed => exact hgapless

section Acts

variable [DecidableEq ι] {i : ι} {config : ServiceConfig} {p p' : Instance}

theorem Manages.gapless (hgapless : Gapless s) (hstep : Manages config i s p s' p') :
    Gapless s' := by
  cases hstep <;> exact hgapless

theorem Seeds.gapless (hindex : IndexTrue ix s) (hp : InstanceTrue ix s p) (hgapless : Gapless s)
    (hstep : Seeds .honest config ix i s p s' p') : Gapless s' := by
  have htask := hp.task
  cases hstep with
  | latestLedger _ _ _ => exact hgapless
  | contract _ => exact hgapless
  | answer _ _ => exact hgapless
  | nothing _ _ => exact hgapless
  | openRecords _ _ _ => exact (unwritten_lockRow s i _).gapless hgapless
  | commitRecords listed nonempty free seeded =>
    rw [listed] at htask
    obtain ⟨-, hprevious, hlists⟩ := htask
    have hlisted := Seed.seedPage_listed seeded
    have hround := Seed.seedPage_ok (sound_seeing hindex.consistent.sound _ _) seeded
    rcases hround.wrote with ⟨hempty, -⟩ | ⟨last, hlast, hwritten⟩
    · exact absurd hempty nonempty
    · have hw := overwritten_of_seen hwritten
      -- after the commit everything up to the last record is stored
      obtain ⟨-, hall⟩ := Indexing.seededTo_last hprevious hlists hlast hw.stored
      refine hgapless.write rfl hw.stored fun e he x hx hcontract hle => ?_
      obtain ⟨r, hr, rfl⟩ := List.mem_map.mp he
      obtain ⟨hasked, hbefore⟩ := hlisted r hr
      exact hall x hx (hcontract.trans hasked) (hle.trans (hbefore last hlast))
  | openMark _ _ => exact (unwritten_lockRow s i _).gapless hgapless
  | commitMark seeding free finished =>
    have hw := overwritten_of_seen
      (finishSeed_ok (sound_seeing hindex.consistent.sound _ _) finished)
    refine hgapless.write rfl hw.stored fun e he => ?_
    cases he

theorem Follows.gapless (hindex : IndexTrue ix s) (hp : InstanceTrue ix s p)
    (hgapless : Gapless s) (hstep : Follows .honest config ix i s p s' p') : Gapless s' := by
  have htask := hp.task
  cases hstep with
  | begin _ _ => exact hgapless
  | answer _ _ => exact hgapless
  | nothing _ _ _ _ => exact hgapless
  | openPage _ _ _ => exact (unwritten_lockRow s i _).gapless hgapless
  | commitPage holding changed free synced =>
    rw [holding] at htask
    have hround := Follower.syncPage_ok (sound_seeing hindex.consistent.sound _ _) synced
    rcases hround.wrote with hwritten | ⟨hstart, hempty, -⟩
    · have hw := overwritten_of_seen hwritten
      have hlater : Later s { s.endTransaction i with store := _ } :=
        ⟨grows_refl _ _, fun e he => (hw.stored e).mpr (.inl he), le_rfl⟩
      -- after the commit everything up to the cursor is stored, of both contracts
      obtain ⟨-, -, hall⟩ := covered_cursor (phaseTrue_of_busy htask) hlater rfl
        fun e he => (hw.stored e).mpr (.inr he)
      refine hgapless.write rfl hw.stored fun e he x hx _ hle => ?_
      obtain ⟨r, hr, rfl⟩ := List.mem_map.mp he
      exact hall x hx (hle.trans (hround.events r hr))
    · exact absurd ⟨hstart, hempty⟩ changed

theorem Act.gapless (hindex : IndexTrue ix s) (hp : InstanceTrue ix s p) (hgapless : Gapless s)
    (hstep : Act .honest config ix i s p s' p') : Gapless s' := by
  cases hstep with
  | manage step => exact step.gapless hgapless
  | seed step => exact step.gapless hindex hp hgapless
  | follow step => exact step.gapless hindex hp hgapless

end Acts

/-! ## 3. Every run -/

section Runs

variable [DecidableEq ι] {config : ServiceConfig} {history : History} {drops : Bool}
  {w w' : Fleet ι}

theorem gapless_of_reaches (hemit : ix.contracts.Emit history)
    (hrun : Reaches config ix drops (.fresh history) w) : Gapless w.shared := by
  have hkept : Gapless (Fleet.fresh history : Fleet ι).shared → Gapless w.shared :=
    (guarantees config ix drops).run_rel (P := fun s s' => Gapless s → Gapless s')
      (fun _ h => h) (fun h h' hs => h' (h hs))
      (fun hindex hstep hs => Env.gapless hindex hs hstep)
      (fun hindex hp hstep hs => Act.gapless hindex hp hs hstep) (holds_fresh hemit) hrun
  exact hkept fun e he => nomatch he

/-- The events of one contract, in the order of emission. -/
def emittedBy (contract : Address) (history : History) : List EmittedEvent :=
  history.events.filter fun e => e.contract = contract

/-- The events stored of one contract. -/
def storedOf (contract : Address) (s : Store) : List EmittedEvent :=
  s.stored.filter fun e => e.contract = contract

/-- What is stored of the contract are the first events it emitted. -/
def HoldsBeginning (contract : Address) (s : Shared ι) : Prop :=
  (storedOf contract s.store).Perm
    ((emittedBy contract s.history).take (storedOf contract s.store).length)

omit [DecidableEq ι] in
/-- **An index without gaps holds a beginning of each contract.** -/
theorem Gapless.holdsBeginning (h : Gapless s) (hindex : IndexTrue ix s) (contract : Address) :
    HoldsBeginning contract s := by
  have hsorted := List.Pairwise.and_mem.mp
    (s.history.sorted.filter fun e => decide (e.contract = contract))
  have hfirst : (emittedBy contract s.history).filter (fun e => e ∈ s.store.stored) <+:
      emittedBy contract s.history := by
    refine filter_prefix_of_closed (fun a b hab hb => ?_) hsorted
    obtain ⟨ha, hb', hlt⟩ := hab
    obtain ⟨ha, hcontract⟩ := List.mem_filter.mp ha
    have hcontract' := (List.mem_filter.mp hb').2
    refine decide_eq_true (h b (of_decide_eq_true hb) a ha ?_ hlt.le)
    exact (of_decide_eq_true hcontract).trans (of_decide_eq_true hcontract').symm
  have hperm : (storedOf contract s.store).Perm
      ((emittedBy contract s.history).filter fun e => e ∈ s.store.stored) := by
    refine (List.perm_ext_iff_of_nodup (hindex.consistent.sound.once.of_map.filter _)
      ((s.history.nodup.filter _).filter _)).mpr fun e => ?_
    simp only [List.mem_filter, decide_eq_true_eq]
    constructor
    · rintro ⟨he, hcontract⟩
      exact ⟨⟨hindex.consistent.genuine e he, hcontract⟩, he⟩
    · rintro ⟨⟨-, hcontract⟩, he⟩
      exact ⟨he, hcontract⟩
  rw [HoldsBeginning, hperm.length_eq, ← List.prefix_iff_eq_take.mp hfirst]
  exact hperm

/-- **The index of each contract is a beginning of what the contract emitted**, at every moment of
every run of any number of instances against honest sources that retain what is asked for.  It never
shrinks, and it reaches to the end of the ledger that is reported as indexed. -/
theorem fleet_holds_beginnings (hemit : ix.contracts.Emit history)
    (hrun : Reaches config ix drops (.fresh history) w) (contract : Address) :
    HoldsBeginning contract w.shared ∧
      (∀ w', Reaches config ix drops w w' →
        storedOf contract w.shared.store ⊆ storedOf contract w'.shared.store) ∧
      ∀ e ∈ emittedBy contract w.shared.history,
        e.position.ledger ≤ Verify.indexedLedger w.shared.store →
        e ∈ storedOf contract w.shared.store := by
  have hholds := holds_of_reaches hemit hrun
  refine ⟨(gapless_of_reaches hemit hrun).holdsBeginning hholds.shared contract, ?_, ?_⟩
  · intro w' hlater e he
    obtain ⟨he, hcontract⟩ := List.mem_filter.mp he
    exact List.mem_filter.mpr ⟨(later_of_reaches hholds hlater).stored e he, hcontract⟩
  · intro e he hle
    obtain ⟨he, hcontract⟩ := List.mem_filter.mp he
    exact List.mem_filter.mpr ⟨hholds.shared.consistent.indexed he hle, hcontract⟩

/-- After its page the first instance holds both events of the pool. -/
theorem fleet_holds_beginnings_caught_up :
    HoldsBeginning (.contract 1) sampleCaughtUp.shared ∧
      (storedOf (.contract 1) sampleCaughtUp.shared.store).length = 2 := by
  refine ⟨(fleet_holds_beginnings emit_twoNullifiers
    ((reaches_takenOver late_twoNullifiers).trans reaches_sampleCaughtUp) (.contract 1)).1, ?_⟩
  decide +kernel

end Runs

end Service

end Veil
