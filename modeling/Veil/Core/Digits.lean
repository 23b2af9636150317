/-
# Numbers written in digits

Texts of decimal and of hexadecimal digits, and the numbers they spell.

* `decimal_padded`: a number is read back from its text, whatever it is padded to;
* `decimal_eq_iff`: two texts spell one number exactly when they differ by leading zeros;
* `digits_append_lt_iff`: texts of equal width compare as their numbers, then by what follows;
* `hexDigits_inj` and `foldl_hexDigits`: a fixed number of hexadecimal digits is a number below a
  power of 16.
-/
import Mathlib

namespace Digits

/-! ## 1. Decimal -/

/-- A number in decimal, padded with zeros to at least `width` digits. -/
def padded (width n : Nat) : List Char :=
  let digits := Nat.toDigits 10 n
  List.replicate (width - digits.length) '0' ++ digits

/-- A text without its leading zeros. -/
def unpadded (digits : List Char) : List Char := digits.dropWhile (· == '0')

/-- The number a text of digits spells. -/
def decimal (digits : List Char) : Nat :=
  digits.foldl (fun n c => 10 * n + (c.toNat - '0'.toNat)) 0

def isDigits (part : List Char) : Bool := !part.isEmpty && part.all Char.isDigit

theorem decimal_eq (digits : List Char) : decimal digits = Nat.ofDigitChars 10 digits 0 := by
  rw [Nat.ofDigitChars_eq_foldl]
  rfl

theorem decimal_padded (width n : Nat) : decimal (padded width n) = n := by
  rw [decimal_eq, padded, Nat.ofDigitChars_append, Nat.ofDigitChars_replicate_zero, Nat.mul_zero,
    Nat.ofDigitChars_ten_toDigits]

theorem isDigit_of_mem_padded {width n : Nat} {c : Char} (h : c ∈ padded width n) :
    c.isDigit = true := by
  rcases List.mem_append.mp h with h | h
  · rw [(List.mem_replicate.mp h).2]
    rfl
  · exact Nat.isDigit_of_mem_toDigits (by decide) (by decide) h

theorem padded_ne_nil (width n : Nat) : padded width n ≠ [] :=
  List.append_ne_nil_of_right_ne_nil _ Nat.toDigits_ne_nil

theorem isDigits_iff {part : List Char} :
    isDigits part = true ↔ part ≠ [] ∧ ∀ c ∈ part, c.isDigit = true := by
  rw [isDigits, Bool.and_eq_true, Bool.not_eq_true', List.isEmpty_eq_false_iff, List.all_eq_true]

theorem isDigits_padded (width n : Nat) : isDigits (padded width n) = true :=
  isDigits_iff.mpr ⟨padded_ne_nil width n, fun _ hc => isDigit_of_mem_padded hc⟩

theorem decimal_cons (c : Char) (digits : List Char) :
    decimal (c :: digits) = 10 ^ digits.length * (c.toNat - '0'.toNat) + decimal digits := by
  rw [decimal_eq, decimal_eq, Nat.ofDigitChars_cons, Nat.mul_zero, Nat.zero_add,
    Nat.ofDigitChars_eq_ofDigitChars_zero]

theorem toNat_of_isDigit {c : Char} (h : c.isDigit = true) : 48 ≤ c.toNat ∧ c.toNat ≤ 57 := by
  simp only [Char.isDigit, Bool.and_eq_true, decide_eq_true_eq, UInt32.le_iff_toNat_le] at h
  exact h

theorem decimal_lt {digits : List Char} (h : ∀ c ∈ digits, c.isDigit = true) :
    decimal digits < 10 ^ digits.length := by
  induction digits with
  | nil => decide
  | cons c digits ih =>
    have hc := toNat_of_isDigit (h c (List.mem_cons_self ..))
    have htail := ih fun c' hc' => h c' (List.mem_cons_of_mem _ hc')
    have hdigit : c.toNat - '0'.toNat ≤ 9 := by
      rw [show '0'.toNat = 48 from rfl]
      omega
    have hhead := Nat.mul_le_mul_left (10 ^ digits.length) hdigit
    rw [decimal_cons, List.length_cons, Nat.pow_succ]
    omega

/-- **Texts of equal width compare as their numbers**, and then by what follows them.  The first
place at which the texts differ outweighs all the places after it. -/
theorem digits_append_lt_iff : ∀ {a b : List Char} {s t : List Char}, a.length = b.length →
    (∀ c ∈ a, c.isDigit = true) → (∀ c ∈ b, c.isDigit = true) →
    (a ++ s < b ++ t ↔ decimal a < decimal b ∨ decimal a = decimal b ∧ s < t)
  | [], [], s, t, _, _, _ => by simp
  | c :: a, d :: b, s, t, hlen, ha, hb => by
    have hlen : a.length = b.length := Nat.succ.inj hlen
    have htailA : ∀ x ∈ a, x.isDigit = true := fun x hx => ha x (List.mem_cons_of_mem _ hx)
    have htailB : ∀ x ∈ b, x.isDigit = true := fun x hx => hb x (List.mem_cons_of_mem _ hx)
    have hc := toNat_of_isDigit (ha c (List.mem_cons_self ..))
    have hd := toNat_of_isDigit (hb d (List.mem_cons_self ..))
    have hltA := decimal_lt htailA
    have hltB := decimal_lt htailB
    have hcharLt : c < d ↔ c.toNat < d.toNat := by
      rw [Char.lt_def, UInt32.lt_iff_toNat_lt]
      rfl
    rw [List.cons_append, List.cons_append, List.cons_lt_cons_iff,
      digits_append_lt_iff hlen htailA htailB, decimal_cons, decimal_cons, hcharLt,
      ← Char.toNat_inj, hlen, show '0'.toNat = 48 from rfl]
    rw [hlen] at hltA
    rcases Nat.lt_trichotomy c.toNat d.toNat with hlt | heq | hgt
    · have hstep := Nat.mul_le_mul_left (10 ^ b.length)
        (show c.toNat - 48 + 1 ≤ d.toNat - 48 by omega)
      rw [Nat.mul_add, Nat.mul_one] at hstep
      omega
    · simp only [heq, lt_irrefl, false_or, true_and, Nat.add_lt_add_iff_left,
        Nat.add_left_cancel_iff]
    · have hstep := Nat.mul_le_mul_left (10 ^ b.length)
        (show d.toNat - 48 + 1 ≤ c.toNat - 48 by omega)
      rw [Nat.mul_add, Nat.mul_one] at hstep
      omega

/-- Texts of equal width that spell one number are equal. -/
theorem digits_inj {a b : List Char} (hlen : a.length = b.length)
    (ha : ∀ c ∈ a, c.isDigit = true) (hb : ∀ c ∈ b, c.isDigit = true)
    (h : decimal a = decimal b) : a = b := by
  have hle : ¬a ++ [] < b ++ [] := by
    rw [digits_append_lt_iff hlen ha hb]
    simp [h]
  have hge : ¬b ++ [] < a ++ [] := by
    rw [digits_append_lt_iff hlen.symm hb ha]
    simp [h]
  rw [List.append_nil, List.append_nil] at hle hge
  exact le_antisymm (not_lt.mp hge) (not_lt.mp hle)

theorem length_padded {width n : Nat} (hw : 0 < width) (h : n < 10 ^ width) :
    (padded width n).length = width := by
  have hle : (Nat.toDigits 10 n).length ≤ width :=
    (Nat.length_toDigits_le_iff (by decide) hw).mpr h
  rw [padded, List.length_append, List.length_replicate, Nat.sub_add_cancel hle]

/-- A text of digits is its number, padded to the text's width. -/
theorem eq_padded {digits : List Char} (hne : digits ≠ [])
    (h : ∀ c ∈ digits, c.isDigit = true) : digits = padded digits.length (decimal digits) :=
  digits_inj (length_padded (List.length_pos_of_ne_nil hne) (decimal_lt h)).symm h
    (fun _ hc => isDigit_of_mem_padded hc) (decimal_padded _ _).symm

theorem unpadded_replicate_append (k : Nat) (digits : List Char) :
    unpadded (List.replicate k '0' ++ digits) = unpadded digits := by
  refine List.dropWhile_append_of_pos fun c hc => ?_
  rw [(List.mem_replicate.mp hc).2]
  rfl

theorem decimal_unpadded (digits : List Char) : decimal (unpadded digits) = decimal digits := by
  induction digits with
  | nil => rfl
  | cons c digits ih =>
    rw [unpadded, List.dropWhile_cons]
    split
    · rename_i hzero
      rw [← unpadded, ih, decimal_cons, eq_of_beq hzero, Nat.sub_self, Nat.mul_zero, Nat.zero_add]
    · rfl

/-- **Two texts spell one number exactly when they differ by leading zeros.** -/
theorem decimal_eq_iff {a b : List Char} (hne : a ≠ []) (ha : ∀ c ∈ a, c.isDigit = true)
    (hne' : b ≠ []) (hb : ∀ c ∈ b, c.isDigit = true) :
    decimal a = decimal b ↔ unpadded a = unpadded b := by
  constructor
  · intro h
    rw [eq_padded hne ha, eq_padded hne' hb, h, padded, padded, unpadded_replicate_append,
      unpadded_replicate_append]
  · intro h
    rw [← decimal_unpadded a, ← decimal_unpadded b, h]

/-! ## 2. Hexadecimal -/

/-- The last `n` hexadecimal digits of `value`. -/
def hexDigits : (n value : Nat) → List Char
  | 0, _ => []
  | n + 1, value => hexDigits n (value / 16) ++ [Nat.digitChar (value % 16)]

/-- The value of a hexadecimal digit. -/
def hexValue (c : Char) : Option Nat :=
  if '0' ≤ c ∧ c ≤ '9' then some (c.toNat - '0'.toNat)
  else if 'a' ≤ c ∧ c ≤ 'f' then some (c.toNat - 'a'.toNat + 10)
  else if 'A' ≤ c ∧ c ≤ 'F' then some (c.toNat - 'A'.toNat + 10)
  else none

theorem digitChar_inj : ∀ a < 16, ∀ b < 16, Nat.digitChar a = Nat.digitChar b → a = b := by
  decide

theorem hexDigits_inj : ∀ {n v w : Nat}, v < 16 ^ n → w < 16 ^ n → hexDigits n v = hexDigits n w →
    v = w
  | 0, v, w, hv, hw, _ => by
    rw [pow_zero] at hv hw
    omega
  | n + 1, v, w, hv, hw, h => by
    rw [pow_succ] at hv hw
    obtain ⟨hinit, hlast⟩ := List.append_inj' h rfl
    have hhigh := hexDigits_inj (by omega) (by omega) hinit
    have hlow := digitChar_inj _ (Nat.mod_lt v (by decide)) _ (Nat.mod_lt w (by decide))
      (List.singleton_inj.mp hlast)
    omega

theorem hexValue_digitChar : ∀ d < 16, hexValue (Nat.digitChar d) = some d := by
  decide

theorem length_hexDigits : ∀ n value, (hexDigits n value).length = n
  | 0, _ => rfl
  | n + 1, value => by
    rw [hexDigits, List.length_append, length_hexDigits n, List.length_singleton]

theorem hexValue_of_mem : ∀ {n value : Nat} {c : Char}, c ∈ hexDigits n value →
    (hexValue c).isSome = true
  | n + 1, value, c, h => by
    rcases List.mem_append.mp h with h | h
    · exact hexValue_of_mem h
    · rw [List.mem_singleton.mp h, hexValue_digitChar _ (Nat.mod_lt _ (by decide))]
      rfl

theorem foldl_hexDigits : ∀ n value,
    (hexDigits n value).foldl (fun n c => 16 * n + (hexValue c).getD 0) 0 = value % 16 ^ n
  | 0, value => by simp [hexDigits, Nat.mod_one]
  | n + 1, value => by
    rw [hexDigits, List.foldl_append, foldl_hexDigits n, List.foldl_cons, List.foldl_nil,
      hexValue_digitChar _ (Nat.mod_lt _ (by decide)), Option.getD_some, Nat.pow_succ',
      Nat.mod_mul, Nat.add_comm]

end Digits
