/-
# A ring of slots

Values are written one after the other into `n` numbered slots, the first into slot 0, and after
the last slot the writing starts over.  `Holds n values slot` says that `slot` is what is left of
`values`: the last `n` of them, each where its number says, and nothing in the slots that were never
reached.  `Holds.push` is one more value, `Holds.exists_iff` says which values can be found.
-/
import Mathlib.Logic.Function.Basic
import Mathlib.Data.List.Basic

namespace Ring

variable {α : Type*}

structure Holds (n : Nat) (values : List α) (slot : Nat → Option α) : Prop where
  recent : ∀ j x, values[j]? = some x → values.length ≤ j + n → slot (j % n) = some x
  unwritten : ∀ i < n, values.length ≤ i → slot i = none

variable {n : Nat} {values : List α} {slot : Nat → Option α}

theorem holds_nil : Holds n ([] : List α) fun _ => none where
  recent := by simp
  unwritten := fun _ _ _ => rfl

/-- Two numbers less than a round apart have different slots. -/
theorem mod_ne_of_lt {j k : Nat} (hlt : j < k) (hround : k < j + n) : j % n ≠ k % n := by
  intro h
  have hzero : (k - j) % n = 0 := Nat.sub_mod_eq_zero_of_mod_eq h.symm
  rw [Nat.mod_eq_of_lt (by omega)] at hzero
  omega

/-- **One more value** takes the next slot and leaves the others. -/
theorem Holds.push (h : Holds n values slot) (x : α) :
    Holds n (values ++ [x]) (Function.update slot (values.length % n) (some x)) where
  recent := by
    intro j y hy hround
    rw [List.length_append, List.length_singleton] at hround
    rcases Nat.lt_trichotomy j values.length with hj | rfl | hj
    · rw [Function.update_of_ne (mod_ne_of_lt hj (by omega))]
      rw [List.getElem?_append_left hj] at hy
      exact h.recent j y hy (by omega)
    · rw [Function.update_self]
      simpa using hy
    · rw [List.getElem?_eq_none (by rw [List.length_append, List.length_singleton]; omega)] at hy
      cases hy
  unwritten := by
    intro i hi hlen
    rw [List.length_append, List.length_singleton] at hlen
    have hne : i ≠ values.length % n := by
      rw [Nat.mod_eq_of_lt (by omega)]
      omega
    rw [Function.update_of_ne hne]
    exact h.unwritten i hi (by omega)

/-- The last number written to slot `i`. -/
theorem exists_last {k i : Nat} (hi : i < k) (hn : 0 < n) (hin : i < n) :
    ∃ j < k, k ≤ j + n ∧ j % n = i := by
  have hdiv := Nat.div_add_mod (k - 1 - i) n
  have hmod := Nat.mod_lt (k - 1 - i) hn
  refine ⟨i + n * ((k - 1 - i) / n), by omega, by omega, ?_⟩
  rw [Nat.add_mul_mod_self_left, Nat.mod_eq_of_lt hin]

/-- **What can be found**: the last `n` values. -/
theorem Holds.exists_iff (h : Holds n values slot) (hn : 0 < n) (x : α) :
    (∃ i < n, slot i = some x) ↔ ∃ j, values[j]? = some x ∧ values.length ≤ j + n := by
  constructor
  · rintro ⟨i, hi, hslot⟩
    have hlen : i < values.length := by
      refine Nat.lt_of_not_le fun hle => ?_
      rw [h.unwritten i hi hle] at hslot
      cases hslot
    obtain ⟨j, hj, hround, rfl⟩ := exists_last hlen hn hi
    have hrecent := h.recent j _ (List.getElem?_eq_getElem hj) hround
    rw [hslot] at hrecent
    exact ⟨j, (List.getElem?_eq_getElem hj).trans hrecent.symm, hround⟩
  · rintro ⟨j, hj, hround⟩
    exact ⟨j % n, Nat.mod_lt j hn, h.recent j x hj hround⟩

/-- Going round once from any slot visits every slot. -/
theorem exists_round {P : Nat → Prop} {cur : Nat} (hcur : cur < n) :
    (∃ t < n, P ((cur + t) % n)) ↔ ∃ i < n, P i := by
  constructor
  · rintro ⟨t, -, h⟩
    exact ⟨_, Nat.mod_lt _ (by omega), h⟩
  · rintro ⟨i, hi, h⟩
    rcases Nat.lt_or_ge i cur with hlt | hge
    · refine ⟨i + n - cur, by omega, ?_⟩
      rwa [show cur + (i + n - cur) = i + n by omega, Nat.add_mod_right, Nat.mod_eq_of_lt hi]
    · refine ⟨i - cur, by omega, ?_⟩
      rwa [show cur + (i - cur) = i by omega, Nat.mod_eq_of_lt hi]

end Ring
