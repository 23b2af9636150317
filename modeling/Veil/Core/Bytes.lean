/-
# Byte strings

Arrays of a fixed length, slices of a byte string, and integers written big-endian.

* `slice_middle`: what stands between two byte strings is found by its position;
* `toNatBE_ofNatBE` and `ofNatBE_toNatBE`: an array of `n` bytes is a number below `256 ^ n`.
-/
import Mathlib

/-- An array of `n` bytes. -/
abbrev Bytes (n : Nat) := List.Vector UInt8 n

namespace Bytes

variable {k m n : Nat}

/-! ## 1. Arrays and slices -/

/-- The bytes as an array of `n`, if there are `n`. -/
def tryInto (n : Nat) (bytes : List UInt8) : Option (Bytes n) :=
  if h : bytes.length = n then some ⟨bytes, h⟩ else none

/-- The bytes from `lo` up to `hi`, if there are that many. -/
def slice (bytes : List UInt8) (lo hi : Nat) : Option (List UInt8) :=
  if lo ≤ hi ∧ hi ≤ bytes.length then some ((bytes.take hi).drop lo) else none

theorem length_take_toList (bytes : Bytes (k + m)) : (bytes.toList.take k).length = k := by
  rw [List.length_take, List.Vector.toList_length]
  omega

theorem length_drop_toList (bytes : Bytes (k + m)) : (bytes.toList.drop k).length = m := by
  rw [List.length_drop, List.Vector.toList_length]
  omega

/-- The first `k` bytes, and the others. -/
def split (bytes : Bytes (k + m)) : Bytes k × Bytes m :=
  (⟨bytes.toList.take k, length_take_toList bytes⟩, ⟨bytes.toList.drop k, length_drop_toList bytes⟩)

@[simp] theorem tryInto_toList (bytes : Bytes n) : tryInto n bytes.toList = some bytes :=
  dif_pos bytes.toList_length

/-- The bytes between `before` and `after`. -/
theorem slice_middle (before middle after : List UInt8) :
    slice (before ++ middle ++ after) before.length (before.length + middle.length) =
      some middle := by
  have hlen : (before ++ middle).length = before.length + middle.length := List.length_append
  have hle : before.length ≤ before.length + middle.length ∧
      before.length + middle.length ≤ (before ++ middle ++ after).length := by
    rw [List.length_append, hlen]
    omega
  rw [slice, if_pos hle, List.take_left' hlen, List.drop_left' rfl]

theorem append_inj {a a' : Bytes k} {b b' : Bytes m} (h : a ++ b = a' ++ b') : a = a' ∧ b = b' := by
  have hlist : a.toList ++ b.toList = a'.toList ++ b'.toList := congrArg List.Vector.toList h
  obtain ⟨ha, hb⟩ := List.append_inj hlist (a.toList_length.trans a'.toList_length.symm)
  exact ⟨List.Vector.eq _ _ ha, List.Vector.eq _ _ hb⟩

/-! ## 2. Big-endian integers -/

/-- The last `n` bytes of `value`. -/
def digitsBE : (n value : Nat) → List UInt8
  | 0, _ => []
  | n + 1, value => digitsBE n (value / 256) ++ [UInt8.ofNat (value % 256)]

/-- The integer the bytes stand for, most significant first. -/
def toNatBE (bytes : List UInt8) : Nat := bytes.foldl (fun n byte => 256 * n + byte.toNat) 0

@[simp] theorem length_digitsBE : ∀ n value, (digitsBE n value).length = n
  | 0, _ => rfl
  | n + 1, value => by
    rw [digitsBE, List.length_append, length_digitsBE n, List.length_singleton]

/-- `value` in `n` bytes. -/
def ofNatBE (n value : Nat) : Bytes n := ⟨digitsBE n value, length_digitsBE n value⟩

@[simp] theorem toList_ofNatBE (n value : Nat) : (ofNatBE n value).toList = digitsBE n value := rfl

theorem toNatBE_concat (bytes : List UInt8) (byte : UInt8) :
    toNatBE (bytes ++ [byte]) = 256 * toNatBE bytes + byte.toNat := by
  rw [toNatBE, List.foldl_append]
  rfl

theorem toNatBE_digitsBE : ∀ n value, toNatBE (digitsBE n value) = value % 256 ^ n
  | 0, value => by rw [pow_zero, Nat.mod_one]; rfl
  | n + 1, value => by
    have hbyte : (UInt8.ofNat (value % 256)).toNat = value % 256 := by
      rw [UInt8.toNat_ofNat']
      omega
    rw [digitsBE, toNatBE_concat, toNatBE_digitsBE n, hbyte, Nat.pow_succ', Nat.mod_mul]
    omega

/-- The upper and the lower bytes. -/
theorem digitsBE_add (k : Nat) : ∀ m value,
    digitsBE (k + m) value = digitsBE k (value / 256 ^ m) ++ digitsBE m value
  | 0, value => by rw [pow_zero, Nat.div_one, digitsBE, List.append_nil, Nat.add_zero]
  | m + 1, value => by
    rw [Nat.add_succ, digitsBE, digitsBE_add k m, digitsBE, ← List.append_assoc,
      Nat.div_div_eq_div_mul, Nat.pow_succ']

/-- **A value that fits is read back.** -/
theorem toNatBE_ofNatBE {n value : Nat} (h : value < 256 ^ n) :
    toNatBE (ofNatBE n value).toList = value := by
  rw [toList_ofNatBE, toNatBE_digitsBE, Nat.mod_eq_of_lt h]

theorem digitsBE_toNatBE (bytes : List UInt8) : digitsBE bytes.length (toNatBE bytes) = bytes := by
  induction bytes using List.reverseRecOn with
  | nil => rfl
  | append_singleton bytes byte ih =>
    have hlt : byte.toNat < 256 := byte.toNat_lt
    have hdiv : (256 * toNatBE bytes + byte.toNat) / 256 = toNatBE bytes := by omega
    have hmod : (256 * toNatBE bytes + byte.toNat) % 256 = byte.toNat := by omega
    rw [List.length_append, List.length_singleton, toNatBE_concat, digitsBE, hdiv, hmod, ih,
      UInt8.ofNat_toNat]

/-- **Every array is the one of its value.** -/
theorem ofNatBE_toNatBE (bytes : Bytes n) : ofNatBE n (toNatBE bytes.toList) = bytes := by
  refine List.Vector.eq _ _ ?_
  have h := digitsBE_toNatBE bytes.toList
  rwa [bytes.toList_length] at h

theorem toNatBE_lt (bytes : Bytes n) : toNatBE bytes.toList < 256 ^ n := by
  have h : toNatBE (digitsBE n (toNatBE bytes.toList)) = toNatBE bytes.toList := by
    rw [← toList_ofNatBE, ofNatBE_toNatBE]
  rw [← h, toNatBE_digitsBE]
  exact Nat.mod_lt _ (Nat.pow_pos (by decide))

/-! ## 3. As few bytes as it takes -/

/-- `value` without leading zeros; zero itself is one byte. -/
def bytesBE (value : Nat) : List UInt8 :=
  if value = 0 then [0] else ((Nat.digits 256 value).map UInt8.ofNat).reverse

theorem toNatBE_reverse (bytes : List UInt8) :
    toNatBE bytes.reverse = Nat.ofDigits 256 (bytes.map UInt8.toNat) := by
  induction bytes with
  | nil => rfl
  | cons byte bytes ih =>
    rw [List.reverse_cons, toNatBE_concat, ih, List.map_cons, Nat.ofDigits_cons, Nat.add_comm]

theorem toNatBE_bytesBE (value : Nat) : toNatBE (bytesBE value) = value := by
  unfold bytesBE
  split
  · rename_i h
    rw [h]
    rfl
  · have hdigits : (Nat.digits 256 value).map (UInt8.toNat ∘ UInt8.ofNat) =
        Nat.digits 256 value := by
      refine (List.map_congr_left fun d hd => ?_).trans (List.map_id _)
      have hlt : d < 256 := Nat.digits_lt_base (by decide) hd
      rw [Function.comp_apply, UInt8.toNat_ofNat', id, Nat.mod_eq_of_lt hlt]
    rw [toNatBE_reverse, List.map_map, hdigits, Nat.ofDigits_digits]

theorem length_bytesBE_le {n value : Nat} (hn : 0 < n) (h : value < 256 ^ n) :
    (bytesBE value).length ≤ n := by
  unfold bytesBE
  split
  · exact hn
  · rw [List.length_reverse, List.length_map]
    exact (Nat.digits_length_le_iff (by decide) value).mpr h

theorem toNatBE_replicate_append (k : Nat) (bytes : List UInt8) :
    toNatBE (List.replicate k 0 ++ bytes) = toNatBE bytes := by
  have hzeros : ∀ k, toNatBE (List.replicate k 0) = 0 := by
    intro k
    induction k with
    | zero => rfl
    | succ k ih => rw [List.replicate_succ', toNatBE_concat, ih]; rfl
  have hstart := hzeros k
  rw [toNatBE] at hstart ⊢
  rw [List.foldl_append, hstart]
  rfl

/-- **Right-aligned in `n` bytes**, the few bytes are the `n`. -/
theorem replicate_append_bytesBE {n value : Nat} (hn : 0 < n) (h : value < 256 ^ n) :
    List.replicate (n - (bytesBE value).length) 0 ++ bytesBE value = digitsBE n value := by
  have hlen : (List.replicate (n - (bytesBE value).length) 0 ++ bytesBE value).length = n := by
    have := length_bytesBE_le hn h
    rw [List.length_append, List.length_replicate]
    omega
  have hbytes := digitsBE_toNatBE (List.replicate (n - (bytesBE value).length) 0 ++ bytesBE value)
  rw [hlen, toNatBE_replicate_append, toNatBE_bytesBE] at hbytes
  exact hbytes.symm

end Bytes
