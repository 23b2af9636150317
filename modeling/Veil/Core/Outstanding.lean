/-
# Outstanding value

A ledger hands out numbered items, each worth something, and later marks some of them as redeemed.
`outstanding` is the value of the items that are not marked.  The lemmas are the three things that
happen to it: marking more items never raises it, redeeming a set of open items lowers it by at
least their value, and handing out new items raises it by at most theirs.
-/
import Mathlib.Algebra.BigOperators.Group.Finset.Basic
import Mathlib.Algebra.Order.BigOperators.Group.Finset

namespace Ledger

open Finset

open Classical in
/-- The value of the first `n` items that are not redeemed. -/
noncomputable def outstanding (value : Nat → Nat) (redeemed : Nat → Prop) (n : Nat) : Nat :=
  ∑ i ∈ (range n).filter (fun i => ¬redeemed i), value i

variable {value value' : Nat → Nat} {redeemed redeemed' : Nat → Prop} {n : Nat}

@[simp] theorem outstanding_zero : outstanding value redeemed 0 = 0 := by
  simp [outstanding]

theorem outstanding_congr (hv : ∀ i < n, value i = value' i)
    (hr : ∀ i < n, redeemed i ↔ redeemed' i) :
    outstanding value redeemed n = outstanding value' redeemed' n := by
  classical
  unfold outstanding
  refine sum_congr (filter_congr fun i hi => not_congr (hr i (mem_range.mp hi))) fun i hi => ?_
  exact hv i (mem_range.mp (mem_filter.mp hi).1)

theorem outstanding_anti (h : ∀ i < n, redeemed i → redeemed' i) :
    outstanding value redeemed' n ≤ outstanding value redeemed n := by
  classical
  refine sum_le_sum_of_subset fun i hi => ?_
  obtain ⟨hi, hr⟩ := mem_filter.mp hi
  exact mem_filter.mpr ⟨hi, fun hr' => hr (h i (mem_range.mp hi) hr')⟩

/-- **Redeeming.**  The items of `J` were open and are redeemed now. -/
theorem outstanding_redeem {J : Finset Nat} (hmono : ∀ i < n, redeemed i → redeemed' i)
    (hJ : ∀ i ∈ J, i < n) (hopen : ∀ i ∈ J, ¬redeemed i) (hnow : ∀ i ∈ J, redeemed' i) :
    outstanding value redeemed' n + ∑ i ∈ J, value i ≤ outstanding value redeemed n := by
  classical
  unfold outstanding
  have hdisj : Disjoint ((range n).filter fun i => ¬redeemed' i) J := by
    refine disjoint_left.mpr fun i hi hiJ => ?_
    exact (mem_filter.mp hi).2 (hnow i hiJ)
  rw [← sum_union hdisj]
  refine sum_le_sum_of_subset fun i hi => ?_
  rcases mem_union.mp hi with hi | hi
  · obtain ⟨hi, hr⟩ := mem_filter.mp hi
    exact mem_filter.mpr ⟨hi, fun hr' => hr (hmono i (mem_range.mp hi) hr')⟩
  · exact mem_filter.mpr ⟨mem_range.mpr (hJ i hi), hopen i hi⟩

/-- **Handing out.** -/
theorem outstanding_add (k : Nat) :
    outstanding value redeemed (n + k) ≤
      outstanding value redeemed n + ∑ i ∈ range k, value (n + i) := by
  induction k with
  | zero => simp
  | succ k ih =>
    have hstep : outstanding value redeemed (n + (k + 1)) ≤
        outstanding value redeemed (n + k) + value (n + k) := by
      unfold outstanding
      rw [← Nat.add_assoc, range_add_one, filter_insert]
      split
      · rw [sum_insert (by simp), add_comm]
      · exact Nat.le_add_right _ _
    rw [sum_range_succ]
    omega

end Ledger
