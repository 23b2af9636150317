/-
# The path update both contracts run

`insert_two_leaves` of the pool and `insert_leaf` of the allowlist end in the same loop: walk
from the new node to the root, pairing with the stored left sibling on a right turn, and storing
the node and pairing with the level's zero hash on a left turn.  The pool enters it at level 1,
with the hash of its two leaves; the allowlist at level 0.  Both constructors fill the two
arrays the loop reads with the same loop, too.

Storage can be missing an entry and a hash input can lie outside the field, so the loop is
partial.  `updatePath_eq` says that on the storage a constructor leaves it is total, and that it
computes `Merkle.climb`.
-/
import Veil.Core.Transaction
import Veil.Core.Unsigned
import Veil.Hash
import Veil.Merkle.Frontier

namespace Veil

open Tx Unsigned

/-- How a contract call fails: with an error of the contract's own, for want of an
authorisation, or by a trap of the host (a panic, an arithmetic trap, a failing callee). -/
inductive Fault (ε : Type) where
  | contract (e : ε)
  | notAuthorized
  | trapped
  deriving DecidableEq, Repr

/-! ## 1. The loops -/

/-- Levels `lvl, .., lvl + k - 1` of the path: the loop of `insert_two_leaves` and
`insert_leaf`. -/
def updatePath {ε : Type} (notInitialized : ε) (zeroes : Nat → Option Nat) :
    (k lvl currentIndex currentHash : Nat) → (Nat → Option Nat) →
      Except (Fault ε) (Nat × (Nat → Option Nat))
  | 0, _, _, currentHash, filledSubtree => .ok (currentHash, filledSubtree)
  | k + 1, lvl, currentIndex, currentHash, filledSubtree =>
    if currentIndex % 2 = 1 then do
      let left ← okOr (filledSubtree lvl) (.contract notInitialized)
      let currentHash ← okOr (poseidon2Compress left currentHash) .trapped
      updatePath notInitialized zeroes k (lvl + 1) (currentIndex / 2) currentHash filledSubtree
    else do
      let filledSubtree := Function.update filledSubtree lvl (some currentHash)
      let zeroVal ← okOr (zeroes lvl) (.contract notInitialized)
      let currentHash ← okOr (poseidon2Compress currentHash zeroVal) .trapped
      updatePath notInitialized zeroes k (lvl + 1) (currentIndex / 2) currentHash filledSubtree

/-- `for i in 0..=levels`: store the zero hash of a level as its filled subtree and as its
zero. -/
def storeZeroes {ε : Type} (notInitialized : ε) :
    List Nat → (Nat → Option Nat) × (Nat → Option Nat) →
      Except (Fault ε) ((Nat → Option Nat) × (Nat → Option Nat))
  | [], m => .ok m
  | i :: is, (filledSubtree, zeroes) => do
    let z ← okOr getZeroes[i]? (.contract notInitialized)
    storeZeroes notInitialized is
      (Function.update filledSubtree i (some z), Function.update zeroes i (some z))

/-! ## 2. What they compute -/

/-- The value stored at level `l` is `fl l`, a field element, for every level up to `L`. -/
def Stored (L : Nat) (m : Nat → Option Nat) (fl : Nat → Nat) : Prop :=
  (∀ l ≤ L, m l = some (fl l)) ∧ ∀ l, fl l < bn256Modulus

theorem Stored.update {L : Nat} {m : Nat → Option Nat} {fl : Nat → Nat} (h : Stored L m fl)
    {v : Nat} (hv : v < bn256Modulus) (l : Nat) :
    Stored L (Function.update m l (some v)) (Function.update fl l v) := by
  constructor
  · intro i hi
    by_cases hil : i = l
    · subst hil; simp
    · simp [hil, h.1 i hi]
  · intro i
    by_cases hil : i = l
    · subst hil; simpa using hv
    · simpa [hil] using h.2 i

/-- **The loop is `Merkle.climb`.**  Over complete storage it never fails, and it keeps the
storage complete. -/
theorem updatePath_eq {ε : Type} (notInitialized : ε) {L : Nat} {zeroes : Nat → Option Nat}
    {zero : Nat → Nat} (hz : Stored L zeroes zero) : ∀ (k lvl idx cur : Nat)
    (m : Nat → Option Nat) (fl : Nat → Nat), lvl + k ≤ L → Stored L m fl → cur < bn256Modulus →
    ∃ m', updatePath notInitialized zeroes k lvl idx cur m =
        .ok ((Merkle.climb compressNat zero k lvl idx cur fl).1, m') ∧
      Stored L m' (Merkle.climb compressNat zero k lvl idx cur fl).2 ∧
      (Merkle.climb compressNat zero k lvl idx cur fl).1 < bn256Modulus
  | 0, _, _, _, m, fl, _, hm, hcur => ⟨m, rfl, hm, hcur⟩
  | k + 1, lvl, idx, cur, m, fl, hL, hm, hcur => by
    by_cases hidx : idx % 2 = 1
    -- a right turn reads the stored sibling and stores nothing
    · have hhash := poseidon2Compress_of_lt (hm.2 lvl) hcur
      simp only [updatePath, Merkle.climb, if_pos hidx, hm.1 lvl (by omega), hhash, okOr_some,
        ok_bind]
      exact updatePath_eq notInitialized hz k _ _ _ m fl (by omega) hm (compressNat_lt _ _)
    · have hhash := poseidon2Compress_of_lt hcur (hz.2 lvl)
      simp only [updatePath, Merkle.climb, if_neg hidx, hz.1 lvl (by omega), hhash, okOr_some,
        ok_bind]
      exact updatePath_eq notInitialized hz k _ _ _ _ _ (by omega) (hm.update hcur lvl)
          (compressNat_lt _ _)

/-- The loop writes at its own levels only. -/
theorem updatePath_frame {ε : Type} {notInitialized : ε} {zeroes : Nat → Option Nat} :
    ∀ {k lvl idx cur root : Nat} {m m' : Nat → Option Nat},
    updatePath notInitialized zeroes k lvl idx cur m = .ok (root, m') →
    ∀ l, l < lvl ∨ lvl + k ≤ l → m' l = m l
  | 0, _, _, _, _, _, _, h, _, _ => by
    obtain ⟨-, rfl⟩ := Prod.mk.inj (Except.ok.inj h)
    rfl
  | k + 1, lvl, idx, cur, root, m, m', h, l, hl => by
    rw [updatePath] at h
    split at h
    · obtain ⟨_, -, h⟩ := bind_eq_ok.mp h
      obtain ⟨_, -, h⟩ := bind_eq_ok.mp h
      exact updatePath_frame h l (by omega)
    · obtain ⟨_, -, h⟩ := bind_eq_ok.mp h
      obtain ⟨_, -, h⟩ := bind_eq_ok.mp h
      rw [updatePath_frame h l (by omega), Function.update_of_ne (by omega)]

theorem storeZeroes_eq {ε : Type} {notInitialized : ε} : ∀ (is : List Nat)
    (f z : Nat → Option Nat), (∀ i ∈ is, i < 33) →
    storeZeroes notInitialized is (f, z) =
      .ok (fun l => if l ∈ is then some (getZeroes.getD l 0) else f l,
        fun l => if l ∈ is then some (getZeroes.getD l 0) else z l)
  | [], f, z, _ => by simp [storeZeroes]
  | i :: is, f, z, his => by
    have hi : i < 33 := his i List.mem_cons_self
    rw [storeZeroes, getZeroes_getElem? hi, okOr_some, ok_bind,
      storeZeroes_eq is _ _ fun j hj => his j (List.mem_cons_of_mem _ hj)]
    congr 1
    ext1 <;>
    · funext l
      by_cases hl : l = i
      · subst hl; by_cases h : l ∈ is <;> simp [h]
      · simp [hl]

/-- What a constructor leaves at every level of both arrays: the roots of the empty trees. -/
theorem storeZeroes_range {ε : Type} (notInitialized : ε) {L : Nat} (hL : L ≤ 32) :
    ∃ m, storeZeroes notInitialized (List.range (L + 1)) (fun _ => none, fun _ => none) =
        .ok (m, m) ∧ Stored L m (Merkle.zeroAt compressNat emptyLeafNat) := by
  have hmem : ∀ i ∈ List.range (L + 1), i < 33 := fun i hi => by
    have := List.mem_range.mp hi
    omega
  refine ⟨_, storeZeroes_eq _ _ _ hmem, fun l hl => ?_, zeroAt_lt⟩
  dsimp only
  rw [if_pos (List.mem_range.mpr (by omega)), getZeroes_eq_zeroAt_nat (by omega)]

/-- The root a constructor starts from. -/
theorem getZeroes_root {L : Nat} (hL : L ≤ 32) : getZeroes[L]? = some (treeRoot L []) := by
  rw [getZeroes_getElem? (by omega), treeRoot_nil, getZeroes_eq_zeroAt_nat hL]

end Veil
