/-
# Covering an amount with one item or two

From a list of weighted items take the lightest that alone covers an amount or, if there is none,
the two heaviest.  This covers the amount whenever any one item or any two of them do: `covers_iff`.

The items are arbitrary, the weights are in a linearly ordered additive monoid.  `[x, y] <+~ items`
says that `x` and `y` are two entries of the list, which may be equal in value.
-/
import Mathlib

namespace Selection

variable {α M : Type*} [LinearOrder M]

/-- The items by weight, the lightest first.  The sort is stable. -/
def byWeight (w : α → M) (items : List α) : List α := items.insertionSort fun x y => w x ≤ w y

/-- The lightest item of weight at least `a`, or else the two heaviest. -/
def choose (w : α → M) (a : M) (items : List α) : List α :=
  match (byWeight w items).find? fun x => a ≤ w x with
  | some x => [x]
  | none => (byWeight w items).reverse.take 2

variable {w : α → M} {a : M} {items : List α}

theorem perm_byWeight (w : α → M) (items : List α) : (byWeight w items).Perm items :=
  List.perm_insertionSort _ items

theorem mem_byWeight {x : α} : x ∈ byWeight w items ↔ x ∈ items := (perm_byWeight w items).mem_iff

theorem sorted_byWeight (w : α → M) (items : List α) :
    (byWeight w items).Pairwise fun x y => w x ≤ w y := by
  have : IsTrans α fun x y => w x ≤ w y := ⟨fun _ _ _ => le_trans⟩
  have : Std.Total fun x y : α => w x ≤ w y := ⟨fun x y => le_total (w x) (w y)⟩
  exact List.pairwise_insertionSort _ items

/-! ## 1. One item -/

/-- In a sorted list the first item that covers is the lightest that does. -/
theorem le_of_find? {l : List α} (h : l.Pairwise fun x y => w x ≤ w y) {x : α}
    (hx : l.find? (fun x => a ≤ w x) = some x) : ∀ y ∈ l, a ≤ w y → w x ≤ w y := by
  induction l with
  | nil => cases hx
  | cons head l ih =>
    obtain ⟨hhead, hrest⟩ := List.pairwise_cons.mp h
    intro y hy hay
    by_cases hcovers : a ≤ w head
    · rw [List.find?_cons_of_pos (by simpa using hcovers)] at hx
      obtain rfl := Option.some.inj hx
      rcases List.mem_cons.mp hy with rfl | hy
      · exact le_rfl
      · exact hhead y hy
    · rw [List.find?_cons_of_neg (by simpa using hcovers)] at hx
      rcases List.mem_cons.mp hy with rfl | hy
      · exact absurd hay hcovers
      · exact ih hrest hx y hy hay

/-- **One item suffices**: the lightest that does. -/
theorem choose_of_covering (h : ∃ x ∈ items, a ≤ w x) :
    ∃ x ∈ items, choose w a items = [x] ∧ a ≤ w x ∧ ∀ y ∈ items, a ≤ w y → w x ≤ w y := by
  obtain ⟨y, hy, hay⟩ := h
  cases hfind : (byWeight w items).find? fun x => a ≤ w x with
  | none =>
    have := List.find?_eq_none.mp hfind y (mem_byWeight.mpr hy)
    exact absurd hay (by simpa using this)
  | some x =>
    refine ⟨x, mem_byWeight.mp (List.mem_of_find?_eq_some hfind), ?_, ?_, fun z hz => ?_⟩
    · rw [choose, hfind]
    · simpa using List.find?_some hfind
    · exact le_of_find? (sorted_byWeight w items) hfind z (mem_byWeight.mpr hz)

/-! ## 2. Two items -/

/-- **No item suffices**: the two heaviest. -/
theorem choose_of_none (h : ∀ x ∈ items, w x < a) :
    choose w a items = (byWeight w items).reverse.take 2 := by
  have hnone : (byWeight w items).find? (fun x => a ≤ w x) = none := by
    rw [List.find?_eq_none]
    intro x hx
    simpa using h x (mem_byWeight.mp hx)
  rw [choose, hnone]

theorem choose_subperm (w : α → M) (a : M) (items : List α) :
    (choose w a items).Subperm items := by
  rw [choose]
  split
  · next x hx =>
    exact List.singleton_subperm_iff.mpr (mem_byWeight.mp (List.mem_of_find?_eq_some hx))
  · exact ((List.take_sublist _ _).subperm.trans (List.reverse_perm _).subperm).trans
      (perm_byWeight w items).subperm

variable [AddCommMonoid M] [IsOrderedAddMonoid M]

/-- In a list sorted downwards no two items are heavier than the first two. -/
theorem add_le_of_sublist {x y p q : α} {rest : List α}
    (h : (x :: y :: rest).Pairwise fun x y => w y ≤ w x) (hpq : [p, q].Sublist (x :: y :: rest)) :
    w p + w q ≤ w x + w y := by
  obtain ⟨hx, hrest⟩ := List.pairwise_cons.mp h
  have hy : ∀ z ∈ y :: rest, w z ≤ w y := by
    intro z hz
    rcases List.mem_cons.mp hz with rfl | hz
    · exact le_rfl
    · exact (List.pairwise_cons.mp hrest).1 z hz
  have hq : q ∈ y :: rest := by
    rcases List.cons_sublist_cons'.mp hpq with hpq | ⟨-, hq⟩
    · exact hpq.subset (List.mem_cons_of_mem _ List.mem_cons_self)
    · exact List.singleton_sublist.mp hq
  have hp : w p ≤ w x := by
    rcases List.cons_sublist_cons'.mp hpq with hpq | ⟨rfl, -⟩
    · exact hx p (hpq.subset List.mem_cons_self)
    · exact le_rfl
  exact add_le_add hp (hy q hq)

/-- **Two items suffice**, if any two do: the heaviest. -/
theorem choose_pair (h : ∀ x ∈ items, w x < a) (hlen : 2 ≤ items.length) :
    ∃ x y, choose w a items = [x, y] ∧ [x, y].Subperm items ∧
      ∀ p q, [p, q].Subperm items → w p + w q ≤ w x + w y := by
  have hperm : (byWeight w items).reverse.Perm items :=
    (List.reverse_perm _).trans (perm_byWeight w items)
  have hsorted : (byWeight w items).reverse.Pairwise fun x y => w y ≤ w x :=
    List.pairwise_reverse.mpr (sorted_byWeight w items)
  rw [choose_of_none h]
  cases hheavy : (byWeight w items).reverse with
  | nil =>
    have := hperm.length_eq
    rw [hheavy, List.length_nil] at this
    omega
  | cons x l =>
    cases l with
    | nil =>
      have := hperm.length_eq
      rw [hheavy, List.length_singleton] at this
      omega
    | cons y rest =>
      rw [hheavy] at hperm hsorted
      refine ⟨x, y, rfl, ?_, fun p q hpq => ?_⟩
      · exact (List.Sublist.subperm (List.sublist_append_left [x, y] rest)).trans hperm.subperm
      · obtain ⟨l, hl, hsub⟩ := hpq.trans hperm.symm.subperm
        obtain rfl | rfl := List.perm_pair.mp hl
        · exact add_le_of_sublist hsorted hsub
        · rw [add_comm]
          exact add_le_of_sublist hsorted hsub

/-- **The choice covers whenever it can.** -/
theorem covers_iff (ha : 0 < a) : a ≤ ((choose w a items).map w).sum ↔
    (∃ x ∈ items, a ≤ w x) ∨ ∃ x y, [x, y].Subperm items ∧ a ≤ w x + w y := by
  by_cases hone : ∃ x ∈ items, a ≤ w x
  · obtain ⟨x, -, hchoose, hx, -⟩ := choose_of_covering hone
    refine iff_of_true ?_ (.inl hone)
    rw [hchoose, List.map_singleton, List.sum_singleton]
    exact hx
  · have hlight : ∀ x ∈ items, w x < a := fun x hx => not_le.mp fun hax => hone ⟨x, hx, hax⟩
    rw [or_iff_right hone]
    by_cases hlen : 2 ≤ items.length
    · obtain ⟨x, y, hchoose, hsub, hbest⟩ := choose_pair hlight hlen
      rw [hchoose, List.map_cons, List.map_singleton, List.sum_cons, List.sum_singleton]
      constructor
      · exact fun h => ⟨x, y, hsub, h⟩
      · rintro ⟨p, q, hpq, h⟩
        exact h.trans (hbest p q hpq)
    · refine iff_of_false (fun h => ?_) ?_
      · -- at most one item, and it is too light
        have hsub := choose_subperm w a items
        cases hchoose : choose w a items with
        | nil =>
          rw [hchoose, List.map_nil, List.sum_nil] at h
          exact absurd h (not_le.mpr ha)
        | cons x rest =>
          rw [hchoose] at h hsub
          have hrest : rest = [] := by
            have := hsub.length_le
            rw [List.length_cons] at this
            exact List.length_eq_zero_iff.mp (by omega)
          rw [hrest, List.map_singleton, List.sum_singleton] at h
          exact absurd h (not_le.mpr (hlight x (hsub.subset List.mem_cons_self)))
      · rintro ⟨p, q, hpq, -⟩
        exact hlen hpq.length_le

end Selection
