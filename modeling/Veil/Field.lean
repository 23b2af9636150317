/-
# The BN254 scalar field

Every commitment, nullifier, root and tree node of the system is an element of one prime field.
The contracts carry such a value as a 256-bit integer and check it against the modulus
(`soroban_utils::constants::BN256_MOD_BYTES`), the circuits compute in the field itself, and the
indexer converts between the two.

The modulus is proved prime here, because the circuits rely on it: a product of two nonzero
signals is nonzero.
-/
import Veil.Arith.Lucas

namespace Veil

/-- `BN256_MOD_BYTES`, read big-endian. -/
def bn256Modulus : Nat :=
  0x30644e72e131a029b85045b68181585d2833e84879b9709143e1f593f0000001

theorem bn256Modulus_prime : bn256Modulus.Prime := by
  have h1 : Nat.Prime 12048837557 :=
    Lucas.prime_of_lucas 2 [2, 2, 7, 7, 661, 93001] (by norm_num) (by norm_num)
      (by norm_num) (by norm_num) (by decide +kernel) (by decide +kernel)
  have h2 : Nat.Prime 5156902474397 :=
    Lucas.prime_of_lucas 2 [2, 2, 107, 12048837557] (by norm_num) (by norm_num)
      (by simp [h1]; norm_num) (by norm_num) (by decide +kernel) (by decide +kernel)
  have h3 : Nat.Prime 1670836401704629 :=
    Lucas.prime_of_lucas 2 [2, 2, 3, 3, 3, 3, 5156902474397] (by norm_num) (by norm_num)
      (by simp [h2]; norm_num) (by norm_num) (by decide +kernel) (by decide +kernel)
  have h4 : Nat.Prime 639533339 :=
    Lucas.prime_of_lucas 2 [2, 229, 853, 1637] (by norm_num) (by norm_num)
      (by norm_num) (by norm_num) (by decide +kernel) (by decide +kernel)
  have h5 : Nat.Prime 65865678001877903 :=
    Lucas.prime_of_lucas 5 [2, 83, 379, 1637, 639533339] (by norm_num) (by norm_num)
      (by simp [h4]; norm_num) (by norm_num) (by decide +kernel) (by decide +kernel)
  have h6 : Nat.Prime 13818364434197438864469338081 :=
    Lucas.prime_of_lucas 3 [2, 2, 2, 2, 2, 5, 823, 1593227, 65865678001877903] (by norm_num)
      (by norm_num) (by simp [h5]; norm_num) (by norm_num) (by decide +kernel) (by decide +kernel)
  have h7 : Nat.Prime 405928799 :=
    Lucas.prime_of_lucas 22 [2, 11, 3691, 4999] (by norm_num) (by norm_num)
      (by norm_num) (by norm_num) (by decide +kernel) (by decide +kernel)
  refine Lucas.prime_of_lucas 5 (List.replicate 28 2 ++ [3, 3, 13, 29, 983, 11003, 237073,
    405928799, 1670836401704629, 13818364434197438864469338081]) (by decide +kernel)
    (by decide +kernel) ?_ (by decide +kernel) (by decide +kernel) (by decide +kernel)
  intro q hq
  rcases List.mem_append.mp hq with hq | hq
  · rw [List.eq_of_mem_replicate hq]
    exact Nat.prime_two
  · simp only [List.mem_cons, List.not_mem_nil, or_false] at hq
    rcases hq with rfl | rfl | rfl | rfl | rfl | rfl | rfl | rfl | rfl | rfl <;>
      first | assumption | norm_num

instance : Fact bn256Modulus.Prime := ⟨bn256Modulus_prime⟩

instance : NeZero bn256Modulus := ⟨bn256Modulus_prime.ne_zero⟩

/-- The field. -/
abbrev F := ZMod bn256Modulus

theorem bn256Modulus_pos : 0 < bn256Modulus := bn256Modulus_prime.pos

/-- The modulus has 254 bits. -/
theorem two_pow_253_lt : 2 ^ 253 < bn256Modulus := by decide +kernel

theorem bn256Modulus_lt : bn256Modulus < 2 ^ 254 := by decide +kernel

end Veil
