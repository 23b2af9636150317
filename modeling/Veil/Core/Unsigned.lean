/-
# Unsigned machine integers

Sums and shifts of unsigned integers that fail or stop at the largest value instead of wrapping
around.
-/
import Mathlib

namespace Unsigned

/-- `u32::MAX`. -/
def u32Max : Nat := 2 ^ 32 - 1

/-- `saturating_add` on `u32`. -/
def saturatingAdd (a b : Nat) : Nat := min (a + b) u32Max

/-- `1u64.checked_shl(levels)`. -/
def checkedShl (levels : Nat) : Option Nat := if levels < 64 then some (2 ^ levels) else none

/-- `checked_add` of the unsigned type of `w` bits. -/
def checkedAdd (w a b : Nat) : Option Nat := if a + b < 2 ^ w then some (a + b) else none

@[simp] theorem checkedShl_eq_some {levels m : Nat} :
    checkedShl levels = some m ↔ levels < 64 ∧ 2 ^ levels = m := by
  simp [checkedShl]

@[simp] theorem checkedAdd_eq_some {w a b c : Nat} :
    checkedAdd w a b = some c ↔ a + b < 2 ^ w ∧ a + b = c := by
  simp [checkedAdd]

end Unsigned
