/-
# The circuit's Poseidon2

`poseidon2_compress.circom` and `poseidon2_hash.circom`, on the tables of `poseidon2_const.circom`.
The tables hold the values of the parameters that the other programs hash with, at every width the
circuits support (`sameTables_two`, `sameTables_three`, `sameTables_four`), so `PoseidonCompress`
and `Poseidon2(n)` force the functions `compress`, `poseidon2Two` and `poseidon2Three`, by which the
rest of the circuits is modelled.
-/
import Veil.Hash
import Veil.Circuit.Constants
import Veil.Circuit.Permutation

namespace Veil

namespace Circuit

/-! ## 1. The constants -/

/-- The tables of `poseidon2_const.circom`, as elements of the field. -/
def bn254 : Constants F where
  partialRounds t := (poseidonPartialRounds t).map Nat.cast
  fullRounds t := (poseidonFullRounds t).map (List.map Nat.cast)
  internalMatDiag t := (poseidonInternalMatDiag t).map Nat.cast

/-! ## 2. The templates -/

/-- `PoseidonCompress`. -/
def poseidonCompress (inputs : List F) (out : F) : Prop :=
  ∃ permOut compression, permutation bn254 2 inputs permOut ∧
    compression = List.zipWith (· + ·) permOut inputs ∧ out = compression.headD 0

/-- `Poseidon2(n)`. -/
def poseidon2 (n : Nat) (inputs : List F) (domainSeparation out : F) : Prop :=
  ∃ permOut, permutation bn254 (n + 1) (inputs ++ [domainSeparation]) permOut ∧
    out = permOut.headD 0

/-! ## 3. The tables are the functions' -/

theorem sameTables_two : SameTables bn254 Poseidon2.bn256Params2 :=
  ⟨rfl, rfl, rfl, rfl, rfl, by decide +kernel, by decide +kernel, rfl, by decide +kernel,
    .inl ⟨rfl, rfl⟩⟩

theorem sameTables_three : SameTables bn254 Poseidon2.bn256Params3 :=
  ⟨rfl, rfl, rfl, rfl, rfl, by decide +kernel, by decide +kernel, rfl, by decide +kernel,
    .inr (.inl ⟨rfl, rfl⟩)⟩

theorem sameTables_four : SameTables bn254 Poseidon2.bn256Params4 :=
  ⟨rfl, rfl, rfl, rfl, rfl, by decide +kernel, by decide +kernel, rfl, by decide +kernel,
    .inr (.inr ⟨rfl, rfl, rfl⟩)⟩

/-! ## 4. The hashes -/

/-- `PoseidonCompress` forces `compress`. -/
theorem poseidonCompress_iff {l r out : F} : poseidonCompress [l, r] out ↔ out = compress l r := by
  have hinputs : [l, r].length = 2 := rfl
  obtain ⟨permOut, hfun, hlen⟩ := sameTables_two.exists_permutation hinputs
  have hperm : ∀ {o}, permutation bn254 2 [l, r] o ↔ o = permOut := by
    intro o
    have hiff : permutation bn254 2 [l, r] o ↔
        Poseidon2.permutation Poseidon2.bn256Params2 [l, r] = some o :=
      sameTables_two.permutation_iff_function hinputs
    rw [hiff, hfun, Option.some.injEq, eq_comm]
  obtain ⟨p0, p1, rfl⟩ := List.length_eq_two.mp hlen
  have hcompress : compress l r = p0 + l := by
    rw [compress, hfun]
    rfl
  rw [hcompress]
  constructor
  · rintro ⟨permOut, compression, hpermOut, rfl, rfl⟩
    rw [hperm.mp hpermOut]
    rfl
  · rintro rfl
    exact ⟨_, _, hperm.mpr rfl, rfl, rfl⟩

/-- `Poseidon2(n)` forces the first output of the function of width `n + 1`. -/
theorem poseidon2_iff {params : Poseidon2Params F} (h : SameTables bn254 params) {n : Nat}
    (hn : params.t = n + 1) {inputs : List F} {s out : F} (hlen : inputs.length = n) :
    poseidon2 n inputs s out ↔
      out = ((Poseidon2.permutation params (inputs ++ [s])).getD []).headD 0 := by
  have hfull : (inputs ++ [s]).length = params.t := by
    rw [List.length_append, hlen, hn]
    rfl
  obtain ⟨permOut, hfun, -⟩ := h.exists_permutation hfull
  unfold poseidon2
  simp only [← hn, h.permutation_iff_function hfull, hfun, Option.some.injEq, exists_eq_left',
    Option.getD_some]

/-- `Poseidon2(2)` forces `poseidon2Two`. -/
theorem poseidon2_two_iff {a b s out : F} : poseidon2 2 [a, b] s out ↔
    out = poseidon2Two a b s := by
  unfold poseidon2Two
  exact poseidon2_iff sameTables_three rfl (show [a, b].length = 2 from rfl)

/-- `Poseidon2(3)` forces `poseidon2Three`. -/
theorem poseidon2_three_iff {a b c s out : F} : poseidon2 3 [a, b, c] s out ↔
    out = poseidon2Three a b c s := by
  unfold poseidon2Three
  exact poseidon2_iff sameTables_four rfl (show [a, b, c].length = 3 from rfl)

/-! ## 5. Circuit and programs agree -/

/-- `poseidon2_compression` of `policy-fixture`; indexing an empty output would panic. -/
def poseidon2Compression (left right : F) : Option F := do
  let perm ← Poseidon2.permutation Poseidon2.bn256Params2 [left, right]
  let first ← perm[0]?
  some (first + left)

theorem poseidon2Compression_eq (left right : F) :
    poseidon2Compression left right = some (compress left right) := by
  have hinputs : [left, right].length = 2 := rfl
  obtain ⟨permOut, hfun, hlen⟩ := sameTables_two.exists_permutation hinputs
  obtain ⟨p0, p1, rfl⟩ := List.length_eq_two.mp hlen
  rw [poseidon2Compression, compress, hfun]
  rfl

/-- **The circuits' Poseidon2 is the programs'.**  With the same constants in both tables, over
any field, `Permutation(t)` has one output for every input, the one `Poseidon2::permutation`
returns; with the tables of BN254, `PoseidonCompress` has the one that the indexer and the witness
builder compress to. -/
theorem circuit_poseidon2_is_the_programs :
    (∀ {K : Type*} [Field K] {consts : Constants K} {params : Poseidon2Params K},
      SameTables consts params → ∀ inputs : List K, inputs.length = params.t →
        (∃ out, permutation consts params.t inputs out) ∧
        ∀ out, permutation consts params.t inputs out →
          Poseidon2.permutation params inputs = some out) ∧
    ∀ left right out : F, (poseidonCompress [left, right] out ↔ out = compress left right) ∧
      (poseidonCompress [left, right] out ↔ poseidon2Compression left right = some out) := by
  refine ⟨?_, fun left right out => ⟨poseidonCompress_iff, ?_⟩⟩
  · intro K _ consts params h inputs hlen
    obtain ⟨out, hout, -⟩ := h.exists_permutation hlen
    exact ⟨⟨out, (h.permutation_iff_function hlen).mpr hout⟩,
      fun out => (h.permutation_iff_function hlen).mp⟩
  · rw [poseidonCompress_iff, poseidon2Compression_eq, Option.some.injEq, eq_comm]

theorem circuit_poseidon2_is_the_programs_width_three :
    SameTables bn254 Poseidon2.bn256Params3 ∧
      (∃ out, permutation bn254 3 [0, 1, ((2 : Nat) : F)] out) ∧
      ∀ out, permutation bn254 3 [0, 1, ((2 : Nat) : F)] out →
        Poseidon2.permutation Poseidon2.bn256Params3 [0, 1, ((2 : Nat) : F)] = some out :=
  ⟨sameTables_three, circuit_poseidon2_is_the_programs.1 sameTables_three _ rfl⟩

end Circuit

end Veil
