/-
# One row, many transactions

Read-committed transactions that read a row, compare it with the value they want to write, and write
it.  The comparison is safe as long as the row stays locked from the read to the commit.

* `selectForUpdate` locks the row until the transaction ends, if the row exists; a row that does
  not exist is not locked, and an uncommitted one is not seen;
* `upsert` inserts the row or overwrites it, and waits for the transaction that holds it;
* `commit` and `rollback` end the transaction and free the row.

A transaction is a `Phase` and a schedule is a list of `Action`s, each of which may be impossible
for the moment (`none`).  `run_sorted` is the rule: over a row that exists, every schedule of any
number of transactions that refuse to write a smaller key commits keys in ascending order.
-/
import Mathlib

namespace RowLock

/-- The row as committed, and the transaction that holds its lock. -/
structure Row (ι V : Type*) where
  committed : Option V
  holder : Option ι
  deriving DecidableEq, Repr

/-- Where a transaction is. -/
inductive Phase (V : Type*) where
  | start
  /-- It has read the row. -/
  | selected (seen : Option V)
  /-- The value it read lets it write. -/
  | checked
  | upserted
  /-- Committed or rolled back. -/
  | ended
  deriving DecidableEq, Repr

inductive Action (ι : Type*) where
  | select (i : ι)
  | check (i : ι)
  | upsert (i : ι)
  | commit (i : ι)
  | rollback (i : ι)
  deriving DecidableEq, Repr

structure World (ι V : Type*) where
  row : Row ι V
  /-- The values committed so far, in order. -/
  log : List V
  phase : ι → Phase V

/-- All transactions are about to start. -/
def World.init {ι V : Type*} (row : Option V) : World ι V :=
  ⟨⟨row, none⟩, row.toList, fun _ => .start⟩

variable {ι V κ : Type*} [DecidableEq ι] [LinearOrder κ]

namespace Row

/-- No other transaction holds the row. -/
def free (i : ι) (r : Row ι V) : Bool := r.holder.all (· = i)

def lock (i : ι) (r : Row ι V) : Row ι V := { r with holder := some i }

def selectForUpdate (i : ι) (r : Row ι V) : Option (Option V × Row ι V) :=
  match r.committed with
  | none => some (none, r)
  | some v => if r.free i then some (some v, r.lock i) else none

def upsert (i : ι) (r : Row ι V) : Option (Row ι V) := if r.free i then some (r.lock i) else none

def release (i : ι) (r : Row ι V) : Row ι V :=
  if r.holder = some i then { r with holder := none } else r

end Row

/-- One action, where transaction `i` wants to write `new i`, and refuses to write a key below the
one it has read. -/
def step (key : V → κ) (new : ι → V) : Action ι → World ι V → Option (World ι V)
  | .select i, w =>
    match w.phase i with
    | .start => (w.row.selectForUpdate i).map fun r =>
      { w with row := r.2, phase := Function.update w.phase i (.selected r.1) }
    | _ => none
  | .check i, w =>
    match w.phase i with
    | .selected seen =>
      if seen.all (fun v => decide ¬key (new i) < key v) then
        some { w with phase := Function.update w.phase i .checked }
      else none
    | _ => none
  | .upsert i, w =>
    match w.phase i with
    | .checked => (w.row.upsert i).map fun row =>
      { w with row := row, phase := Function.update w.phase i .upserted }
    | _ => none
  | .commit i, w =>
    match w.phase i with
    | .upserted => some
      { row := ⟨some (new i), none⟩
        log := w.log ++ [new i]
        phase := Function.update w.phase i .ended }
    | _ => none
  | .rollback i, w =>
    some { w with row := w.row.release i, phase := Function.update w.phase i .ended }

/-- A schedule. -/
def run (key : V → κ) (new : ι → V) : List (Action ι) → World ι V → Option (World ι V)
  | [], w => some w
  | a :: as, w => (step key new a w).bind (run key new as)

/-! ## The lock covers the write -/

/-- Between its read and its end. -/
def Phase.active : Phase V → Bool
  | .selected _ | .checked | .upserted => true
  | .start | .ended => false

/-- A transaction under way holds the row, has read what is committed, and, once checked, does not
want to write a smaller key. -/
def Phase.Valid (key : V → κ) (new : ι → V) (row : Row ι V) (i : ι) : Phase V → Prop
  | .start | .ended => True
  | .selected seen => row.holder = some i ∧ seen = row.committed
  | .checked | .upserted => row.holder = some i ∧
      ∀ v, row.committed = some v → key v ≤ key (new i)

/-- **The row exists, and whoever is under way holds it.** -/
structure Locked (key : V → κ) (new : ι → V) (w : World ι V) : Prop where
  sorted : w.log.Pairwise fun x y => key x ≤ key y
  last : ∃ v, w.row.committed = some v ∧ ∀ x ∈ w.log, key x ≤ key v
  valid : ∀ i, (w.phase i).Valid key new w.row i

variable {key : V → κ} {new : ι → V} {w w' : World ι V} {row : Row ι V} {phase : Phase V} {i j : ι}

omit [DecidableEq ι] in
theorem locked_init (v : V) : Locked key new (World.init (some v)) where
  sorted := List.pairwise_singleton _ _
  last := ⟨v, rfl, by simp [World.init]⟩
  valid := fun _ => trivial

omit [DecidableEq ι] in
theorem Phase.Valid.holder (h : phase.Valid key new row i) (hactive : phase.active = true) :
    row.holder = some i := by
  cases phase with
  | selected seen => exact h.1
  | checked => exact h.1
  | upserted => exact h.1
  | start => cases hactive
  | ended => cases hactive

omit [DecidableEq ι] in
theorem Phase.Valid.of_inactive (h : phase.active = false) : phase.Valid key new row i := by
  cases phase with
  | start => trivial
  | ended => trivial
  | selected seen => cases h
  | checked => cases h
  | upserted => cases h

theorem Row.free_of_holder (h : row.holder = some i) : row.free i = true := by
  rw [Row.free, h]
  simp

/-- While `i` may take the row, no other transaction is under way. -/
theorem Locked.inactive (h : Locked key new w) (hfree : w.row.free i = true) (hne : j ≠ i) :
    (w.phase j).active = false := by
  refine Bool.eq_false_iff.mpr fun hactive => hne ?_
  rw [Row.free, (h.valid j).holder hactive] at hfree
  simpa using hfree

/-- A step of the one transaction that may take the row: only its own phase needs a proof. -/
theorem Locked.valid_update (h : Locked key new w) (hfree : w.row.free i = true)
    (hphase : phase.Valid key new row i) :
    ∀ j, (Function.update w.phase i phase j).Valid key new row j := by
  intro j
  by_cases hj : j = i
  · subst hj
    rwa [Function.update_self]
  · rw [Function.update_of_ne hj]
    exact .of_inactive (h.inactive hfree hj)

theorem Locked.advance (h : Locked key new w) (hfree : w.row.free i = true)
    (hrow : row.committed = w.row.committed) (hphase : phase.Valid key new row i) :
    Locked key new { w with row := row, phase := Function.update w.phase i phase } where
  sorted := h.sorted
  last := by
    obtain ⟨v, hv, hall⟩ := h.last
    exact ⟨v, hrow.trans hv, hall⟩
  valid := h.valid_update hfree hphase

theorem Locked.commit (h : Locked key new w) (hi : w.phase i = .upserted) :
    Locked key new
      { row := ⟨some (new i), none⟩
        log := w.log ++ [new i]
        phase := Function.update w.phase i .ended } := by
  have hvalid := h.valid i
  rw [hi] at hvalid
  obtain ⟨hholder, hascends⟩ := hvalid
  obtain ⟨v, hv, hall⟩ := h.last
  have hle : ∀ x ∈ w.log, key x ≤ key (new i) := fun x hx => (hall x hx).trans (hascends v hv)
  refine ⟨?_, ⟨new i, rfl, ?_⟩, h.valid_update (Row.free_of_holder hholder) trivial⟩
  · rw [List.pairwise_append]
    refine ⟨h.sorted, List.pairwise_singleton _ _, fun x hx y hy => ?_⟩
    rw [List.mem_singleton.mp hy]
    exact hle x hx
  · intro x hx
    rcases List.mem_append.mp hx with hx | hx
    · exact hle x hx
    · rw [List.mem_singleton.mp hx]

/-- Ending a transaction frees the row from it, and from no other. -/
theorem Locked.rollback (h : Locked key new w) :
    Locked key new
      { w with row := w.row.release i, phase := Function.update w.phase i .ended } := by
  by_cases hholder : w.row.holder = some i
  · refine h.advance (Row.free_of_holder hholder) ?_ trivial
    rw [Row.release, if_pos hholder]
  · rw [Row.release, if_neg hholder]
    refine ⟨h.sorted, h.last, fun j => ?_⟩
    by_cases hj : j = i
    · subst hj
      simp only [Function.update_self]
      trivial
    · simp only [Function.update_of_ne hj]
      exact h.valid j

theorem Locked.step {a : Action ι} (h : Locked key new w) (hstep : step key new a w = some w') :
    Locked key new w' := by
  cases a with
  | rollback i =>
    obtain rfl := Option.some.inj hstep
    exact h.rollback
  | select i =>
    simp only [RowLock.step] at hstep
    split at hstep
    · obtain ⟨⟨seen, row⟩, hselect, rfl⟩ := Option.map_eq_some_iff.mp hstep
      obtain ⟨v, hv, -⟩ := h.last
      simp only [Row.selectForUpdate, hv] at hselect
      split at hselect
      · rename_i hfree
        obtain ⟨rfl, rfl⟩ := Prod.mk.inj (Option.some.inj hselect)
        exact h.advance hfree rfl ⟨rfl, hv.symm⟩
      · cases hselect
    · cases hstep
  | check i =>
    simp only [RowLock.step] at hstep
    split at hstep
    · rename_i seen hi
      split at hstep
      · rename_i hcheck
        obtain rfl := Option.some.inj hstep
        have hvalid := h.valid i
        rw [hi] at hvalid
        obtain ⟨hholder, rfl⟩ := hvalid
        refine h.advance (Row.free_of_holder hholder) rfl ⟨hholder, fun v hv => ?_⟩
        simpa [hv] using hcheck
      · cases hstep
    · cases hstep
  | upsert i =>
    simp only [RowLock.step] at hstep
    split at hstep
    · rename_i hi
      obtain ⟨row, hupsert, rfl⟩ := Option.map_eq_some_iff.mp hstep
      have hvalid := h.valid i
      rw [hi] at hvalid
      unfold Row.upsert at hupsert
      split at hupsert
      · rename_i hfree
        obtain rfl := Option.some.inj hupsert
        exact h.advance hfree rfl ⟨rfl, hvalid.2⟩
      · cases hupsert
    · cases hstep
  | commit i =>
    simp only [RowLock.step] at hstep
    split at hstep
    · rename_i hi
      obtain rfl := Option.some.inj hstep
      exact h.commit hi
    · cases hstep

theorem Locked.run : ∀ {as : List (Action ι)} {w : World ι V}, Locked key new w →
    run key new as w = some w' → Locked key new w'
  | [], _, h, hrun => Option.some.inj hrun ▸ h
  | _ :: _, _, h, hrun => by
    obtain ⟨w1, hstep, hrun⟩ := Option.bind_eq_some_iff.mp hrun
    exact (h.step hstep).run hrun

/-- **Over a row that exists, committed keys ascend**, whatever the schedule. -/
theorem run_sorted {v : V} {as : List (Action ι)}
    (hrun : run key new as (World.init (some v)) = some w') :
    w'.log.Pairwise fun x y => key x ≤ key y :=
  ((locked_init v).run hrun).sorted

end RowLock
