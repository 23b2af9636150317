/-
# Primality of a number too large to divide

A number of 254 bits is shown prime by Lucas's test: a base whose order modulo `p` is exactly
`p - 1`, given the prime factors of `p - 1`.  The powers are computed by repeated squaring
(`powMod`), so that checking one of them costs a few hundred multiplications, and
`prime_of_lucas` turns the checks into `Nat.Prime`.
-/
import Mathlib

namespace Lucas

/-- `a ^ n % m`, reading the lowest `bits` bits of `n` from the bottom. -/
def powMod (m : Nat) : (bits a n : Nat) → Nat
  | 0, _, _ => 1 % m
  | bits + 1, a, n =>
    if n % 2 = 1 then a * powMod m bits (a * a % m) (n / 2) % m
    else powMod m bits (a * a % m) (n / 2)

theorem powMod_eq (m : Nat) : ∀ (bits a n : Nat), n < 2 ^ bits → powMod m bits a n = a ^ n % m
  | 0, a, n, h => by
    have hn : n = 0 := by simpa using h
    simp [powMod, hn]
  | bits + 1, a, n, h => by
    have hhalf : powMod m bits (a * a % m) (n / 2) = a ^ (2 * (n / 2)) % m := by
      rw [powMod_eq m bits _ _ (by rw [pow_succ] at h; omega), ← Nat.pow_mod, pow_mul, sq]
    simp only [powMod, hhalf]
    split
    · rw [Nat.mul_mod_mod, ← pow_succ']
      congr 2
      omega
    · congr 2
      omega

/-- **Lucas's test.**  `fs` lists the prime factors of `p - 1`, with repetition. -/
theorem prime_of_lucas {p : Nat} (a : Nat) (fs : List Nat) (hbits : p ≤ 2 ^ 256) (hp : 2 ≤ p)
    (hfs : ∀ q ∈ fs, q.Prime) (hprod : fs.prod = p - 1) (hone : powMod p 256 a (p - 1) = 1)
    (hne : ∀ q ∈ fs, powMod p 256 a ((p - 1) / q) ≠ 1) : p.Prime := by
  have hpow : ∀ n, n < 2 ^ 256 → ((a : ZMod p) ^ n = 1 ↔ powMod p 256 a n = 1) := by
    intro n hn
    rw [powMod_eq p 256 a n hn, ← Nat.cast_pow, ← Nat.cast_one (R := ZMod p),
      ZMod.natCast_eq_natCast_iff', Nat.mod_eq_of_lt (show 1 < p by omega)]
  refine lucas_primality p (a : ZMod p) ((hpow _ (by omega)).mpr hone) fun q hq hdvd => ?_
  rw [← hprod] at hdvd
  obtain ⟨r, hr, hqr⟩ := (Prime.dvd_prod_iff hq.prime).mp hdvd
  have hqr' : q = r := (Nat.prime_dvd_prime_iff_eq hq (hfs r hr)).mp hqr
  subst hqr'
  rw [ne_eq, hpow _ (lt_of_le_of_lt (Nat.div_le_self _ _) (by omega))]
  exact hne q hr

end Lucas
