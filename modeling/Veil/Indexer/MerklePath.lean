/-
# Merkle proofs, from the store to the circuit

Three programs compute a leaf's proof.  The indexer (`tree.rs`) hashes the populated paths of a
sparse map, `tools/policy-fixture/src/lib.rs` hashes a vector of all `2 ^ levels` leaves, and the
circuit (`merkleProof.circom`) folds the siblings it is given under the bits of the path index.

All three are compared with the complete tree: the siblings `path` finds are those of
`Merkle.siblings` (`pathUp_fst`), the dense climb meets the same ones (`climb_level`), and folding
them gives the root.
-/
import Veil.Circuit.PolicyTransaction
import Veil.Indexer.Tree
import Veil.Merkle.Path

namespace Veil

open Tx

/-! ## 1. The dense tree -/

namespace PolicyFixture

/-- Why a tree is refused. -/
inductive MerkleError where
  | emptyLeaves
  | leavesLength
  | invalidLeavesLength
  | indexOutside
  | siblingIndexOverflow
  | siblingIndexUnderflow
  | pathLevelOverflow
  | pathIndexOverflow
  -- an access outside the vector panics
  | panicked
  deriving DecidableEq, Repr

def MerkleError.message : MerkleError → String
  | .emptyLeaves => "leaves cannot be empty"
  | .leavesLength => "leaves length must be a power of two"
  | .invalidLeavesLength => "invalid leaves length"
  | .indexOutside => "index outside merkle tree"
  | .siblingIndexOverflow => "sibling index overflow"
  | .siblingIndexUnderflow => "sibling index underflow"
  | .pathLevelOverflow => "path level overflow"
  | .pathIndexOverflow => "path index overflow"
  | .panicked => "index out of bounds"

/-- `poseidon2_compression`, the same lines as the indexer's. -/
def poseidon2Compression (left right : F) : F := compress left right

/-- The loop of `merkle_root`: one level up while there is more than one node. -/
def reduce (leaves : List F) : List F :=
  if leaves.length > 1 then reduce (Merkle.pairUp poseidon2Compression leaves) else leaves
termination_by leaves.length
decreasing_by
  rw [Merkle.length_pairUp]
  omega

def merkleRoot (leaves : List F) : Except MerkleError F := do
  ensure (¬leaves.isEmpty) .emptyLeaves
  ensure leaves.length.isPowerOfTwo .leavesLength
  okOr (reduce leaves)[0]? .panicked

/-- The neighbour of `index`. -/
def siblingIndex (index : Nat) : Except MerkleError Nat :=
  if index % 2 = 0 then do
    ensure (index + 1 < 2 ^ 64) .siblingIndexOverflow
    .ok (index + 1)
  else do
    ensure (1 ≤ index) .siblingIndexUnderflow
    .ok (index - 1)

/-- The bit of `level` is set when `index` is a right child. -/
def setPathIndex (pathIndices level index : Nat) : Except MerkleError Nat :=
  if index % 2 = 1 then do
    ensure (level < 2 ^ 32) .pathLevelOverflow
    ensure (level < 64) .pathIndexOverflow
    .ok (pathIndices ||| 1 <<< level)
  else .ok pathIndices

/-- The loop of `merkle_proof`, for the `n` levels from `level` on. -/
def climb : (n level : Nat) → (levelNodes : List F) → (index : Nat) → (pathElements : List F) →
    (pathIndices : Nat) → Except MerkleError (List F × Nat)
  | 0, _, _, _, pathElements, pathIndices => .ok (pathElements, pathIndices)
  | n + 1, level, levelNodes, index, pathElements, pathIndices => do
    let siblingIndex ← siblingIndex index
    let sibling ← okOr levelNodes[siblingIndex]? .panicked
    let pathIndices ← setPathIndex pathIndices level index
    climb n (level + 1) (Merkle.pairUp poseidon2Compression levelNodes) (index / 2)
      (pathElements ++ [sibling]) pathIndices

def merkleProof (leaves : List F) (index : Nat) : Except MerkleError (List F × Nat × Nat) := do
  ensure (¬leaves.isEmpty ∧ leaves.length.isPowerOfTwo) .invalidLeavesLength
  ensure (index < leaves.length) .indexOutside
  let levels := leaves.length.log2
  let (pathElements, pathIndices) ← climb levels 0 leaves index [] 0
  .ok (pathElements, pathIndices, levels)

theorem poseidon2Compression_eq : poseidon2Compression = compress := rfl

/-- The loop over all the nodes of a level ends at the one node above them. -/
theorem reduce_level (f : Nat → F) : ∀ n d,
    reduce (Merkle.level compress f d (2 ^ n)) = [Merkle.nodeAt compress f (d + n) 0]
  | 0, d => by
    rw [reduce, if_neg (by simp)]
    simp [Merkle.level]
  | n + 1, d => by
    have hmore : (Merkle.level compress f d (2 ^ (n + 1))).length > 1 := by
      rw [Merkle.length_level, pow_succ]
      have := Nat.two_pow_pos n
      omega
    rw [reduce, if_pos hmore, poseidon2Compression_eq, pow_succ', Merkle.pairUp_level,
      reduce_level f n (d + 1), Nat.add_right_comm, Nat.add_assoc]

theorem isPowerOfTwo_level (f : Nat → F) (L : Nat) :
    ¬(Merkle.level compress f 0 (2 ^ L)).isEmpty ∧
      (Merkle.level compress f 0 (2 ^ L)).length.isPowerOfTwo := by
  refine ⟨?_, L, Merkle.length_level _ _⟩
  rw [List.isEmpty_iff_length_eq_zero, Merkle.length_level]
  exact (Nat.two_pow_pos L).ne'

theorem merkleRoot_level (f : Nat → F) (L : Nat) :
    merkleRoot (Merkle.level compress f 0 (2 ^ L)) = .ok (Merkle.nodeAt compress f L 0) := by
  obtain ⟨hne, hpow⟩ := isPowerOfTwo_level f L
  rw [merkleRoot, ensure_pos hne, ok_bind, ensure_pos hpow, ok_bind, reduce_level, Nat.zero_add]
  rfl

theorem siblingIndex_eq {index n : Nat} (h : index < 2 * n) (hn : 2 * n ≤ 2 ^ 64) :
    siblingIndex index = .ok (index ^^^ 1) ∧ index ^^^ 1 < 2 * n := by
  by_cases hpar : index % 2 = 0
  · rw [siblingIndex, if_pos hpar, ensure_pos (by omega), ok_bind,
      Nat.xor_one_of_even (Nat.even_iff.mpr hpar)]
    exact ⟨rfl, by omega⟩
  · rw [siblingIndex, if_neg hpar, ensure_pos (by omega), ok_bind,
      Nat.xor_one_of_odd (Nat.odd_iff.mpr (by omega))]
    exact ⟨rfl, by omega⟩

/-- The bits set so far are the lowest ones of the index. -/
theorem setPathIndex_eq {level : Nat} (h : level < 64) (i : Nat) :
    setPathIndex (i % 2 ^ level) level (i / 2 ^ level) = .ok (i % 2 ^ (level + 1)) := by
  have hsplit : i % 2 ^ (level + 1) = i % 2 ^ level + 2 ^ level * (i / 2 ^ level % 2) := by
    rw [pow_succ, Nat.mod_mul]
  by_cases hbit : i / 2 ^ level % 2 = 1
  · have hor := Nat.two_pow_add_eq_or_of_lt (Nat.mod_lt i (Nat.two_pow_pos level)) 1
    rw [setPathIndex, if_pos hbit, ensure_pos (by omega), ok_bind, ensure_pos h, ok_bind, hsplit,
      hbit, Nat.one_shiftLeft, Nat.or_comm, Nat.add_comm, hor, Nat.mul_one]
  · rw [setPathIndex, if_neg hbit, hsplit, show i / 2 ^ level % 2 = 0 by omega, Nat.mul_zero,
      Nat.add_zero]

/-- **The dense climb meets the siblings of the complete tree.**  With `n` levels to go the nodes
left are those of level `level`, and the bits set are the `level` lowest of the index. -/
theorem climb_level (f : Nat → F) (i : Nat) : ∀ n level pathElements, level + n ≤ 64 →
    i < 2 ^ (level + n) →
    climb n level (Merkle.level compress f level (2 ^ n)) (i / 2 ^ level) pathElements
        (i % 2 ^ level) =
      .ok (pathElements ++ Merkle.siblings compress f n level (i / 2 ^ level), i)
  | 0, level, pathElements, _, hi => by
    rw [climb, Merkle.siblings, List.append_nil, Nat.mod_eq_of_lt (by simpa using hi)]
  | n + 1, level, pathElements, hfit, hi => by
    have hpow : 2 * 2 ^ n ≤ 2 ^ 64 := by
      rw [← pow_succ']
      exact Nat.pow_le_pow_right (by omega) (by omega)
    have hindex : i / 2 ^ level < 2 * 2 ^ n := by
      rw [Nat.div_lt_iff_lt_mul (Nat.two_pow_pos level), ← pow_succ', ← pow_add]
      rwa [Nat.add_comm (n + 1)]
    obtain ⟨hsibling, hlt⟩ := siblingIndex_eq hindex hpow
    have ih := climb_level f i n (level + 1)
      (pathElements ++ [Merkle.nodeAt compress f level (i / 2 ^ level ^^^ 1)]) (by omega)
      (by rwa [Nat.add_right_comm, Nat.add_assoc])
    rw [pow_succ 2 level, ← Nat.div_div_eq_div_mul] at ih
    rw [climb, hsibling, ok_bind, pow_succ' 2 n, Merkle.getElem?_level hlt, okOr_some, ok_bind,
      setPathIndex_eq (by omega), ok_bind, poseidon2Compression_eq, Merkle.pairUp_level,
      pow_succ 2 level, ih, Merkle.siblings, List.append_assoc, List.singleton_append]

theorem merkleProof_level (f : Nat → F) {L i : Nat} (hL : L ≤ 64) (hi : i < 2 ^ L) :
    merkleProof (Merkle.level compress f 0 (2 ^ L)) i =
      .ok (Merkle.siblings compress f L 0 i, i, L) := by
  have hclimb := climb_level f i L 0 [] (by omega) (by simpa using hi)
  rw [pow_zero, Nat.div_one, Nat.mod_one, List.nil_append] at hclimb
  have hlen : i < (Merkle.level compress f 0 (2 ^ L)).length := by rwa [Merkle.length_level]
  rw [merkleProof, ensure_pos (isPowerOfTwo_level f L), ok_bind, ensure_pos hlen, ok_bind]
  simp only [Merkle.length_level, Nat.log2_two_pow, hclimb, ok_bind]

end PolicyFixture

/-! ## 2. The sparse tree -/

namespace Tree

/-- The leaves `root` and `path` take: at distinct indices that fit the tree. -/
def Fits (L : Nat) (leaves : List (Nat × F)) : Prop :=
  (∀ p ∈ leaves, p.1 < 2 ^ L) ∧ (leaves.map Prod.fst).Nodup

/-- All the leaves of the tree, the empty ones included. -/
def paddedLeaves (L : Nat) (leaves : List (Nat × F)) : List F :=
  (List.range (2 ^ L)).map (leafAt leaves)

theorem exists_root_iff {L : Nat} (h1 : 1 ≤ L) (h2 : L ≤ 32) (leaves : List (Nat × F)) :
    (∃ r, root L leaves = .ok r) ↔ Fits L leaves := by
  constructor
  · rintro ⟨r, hr⟩
    exact root_inv hr
  · intro h
    exact ⟨_, root_eq h1 h2 h.1 h.2⟩

theorem exists_path_iff {L : Nat} (h1 : 1 ≤ L) (h2 : L ≤ 32) (leaves : List (Nat × F))
    (index : Nat) : (∃ r, path L leaves index = .ok r) ↔ Fits L leaves := by
  constructor
  · rintro ⟨r, hr⟩
    simp only [path, bind_eq_ok] at hr
    obtain ⟨_, -, _, hins, -⟩ := hr
    exact ⟨(insertLeaves_inv hins).1, (insertLeaves_inv hins).2.1⟩
  · intro h
    obtain ⟨r, hr, -⟩ := path_eq h1 h2 h.1 h.2 index
    exact ⟨r, hr⟩

theorem foldSiblings_eq : ∀ (siblings : List F) (index : Nat) (current : F),
    foldSiblings siblings index current = Merkle.foldPath compress siblings index current
  | [], _, _ => rfl
  | s :: siblings, index, current => by
    rw [foldSiblings, Merkle.foldPath, foldSiblings_eq siblings]

/-- **The level loop of `path` meets the siblings of the complete tree**: an empty position of the
map is an empty node. -/
theorem pathUp_fst {f : Nat → F} : ∀ (zeroes : List F) (d : Nat) (nodes : List (Nat × F))
    (position : Nat), Merkle.Sparse compress emptyLeaf f d nodes →
    (∀ i (h : i < zeroes.length), zeroes[i] = Merkle.zeroAt compress emptyLeaf (d + i)) →
    (pathUp zeroes nodes position).1 = Merkle.siblings compress f zeroes.length d position
  | [], _, _, _, _, _ => rfl
  | zero :: zeroes, d, nodes, position, h, hz => by
    have h0 : zero = Merkle.zeroAt compress emptyLeaf d := hz 0 (by simp)
    have ih := pathUp_fst zeroes (d + 1) (Merkle.levelUp compress zero nodes) (position / 2)
      (h0 ▸ h.levelUp) (fun i hi => by
        have := hz (i + 1) (by simpa using hi)
        rwa [List.getElem_cons_succ, show d + (i + 1) = d + 1 + i by omega] at this)
    rw [pathUp, List.length_cons, Merkle.siblings, ← ih, ← h (position ^^^ 1), ← h0]

/-- **What `path` serves** for a leaf at `index`. -/
theorem path_served {L : Nat} (h1 : 1 ≤ L) (h2 : L ≤ 32) {leaves : List (Nat × F)}
    (h : Fits L leaves) {index : Nat} {leaf : F} (hmem : (index, leaf) ∈ leaves) :
    path L leaves index = .ok (some
      { index := index, leaf := leaf
        siblings := Merkle.siblings compress (leafAt leaves) L 0 index
        root := Merkle.nodeAt compress (leafAt leaves) L 0 }) := by
  have hlook : leaves.lookup index = some leaf := Assoc.lookup_eq_some_of_mem h.2 hmem
  have hlook' : (leaves.reverse ++ []).lookup index = some leaf := by
    rw [List.append_nil, ← Assoc.lookup_perm (List.reverse_perm leaves).symm h.2, hlook]
  have hsiblings := pathUp_fst ((emptyHashes L).take L) 0 _ index (sparse_leaves h.2)
    (emptyHashes_take L)
  have hroot := lookup_levelsUp (L := L) (sparse_leaves h.2)
  rw [List.length_take, emptyHashes_length, Nat.min_eq_left (by omega)] at hsiblings
  simp only [path, zeroes_eq h1 h2, ok_bind, insertLeaves_ok leaves [] h.1 h.2 (fun _ _ => rfl),
    hlook', hsiblings, pathUp_snd, hroot]

theorem path_none {L : Nat} (h1 : 1 ≤ L) (h2 : L ≤ 32) {leaves : List (Nat × F)}
    (h : Fits L leaves) {index : Nat} (hnone : ∀ p ∈ leaves, p.1 ≠ index) :
    path L leaves index = .ok none := by
  obtain ⟨r, hr, hsome, -⟩ := path_eq h1 h2 h.1 h.2 index
  have hlook : (leaves.lookup index).isSome = false := by
    rw [← Bool.not_eq_true, Assoc.isSome_lookup_iff]
    intro hmem
    obtain ⟨p, hp, hpi⟩ := List.mem_map.mp hmem
    exact hnone p hp hpi
  rw [hlook, Option.isSome_eq_false_iff, Option.isNone_iff_eq_none] at hsome
  rw [hr, hsome]

theorem level_leafAt (L : Nat) (leaves : List (Nat × F)) :
    paddedLeaves L leaves = Merkle.level compress (leafAt leaves) 0 (2 ^ L) := rfl

/-! ## 3. The three agree -/

theorem foldPath_siblings_root (f : Nat → F) {L index : Nat} (h : index < 2 ^ L) :
    Merkle.foldPath compress (Merkle.siblings compress f L 0 index) index (f index) =
      Merkle.nodeAt compress f L 0 := by
  rw [← Merkle.nodeAt_zero compress f index, Merkle.foldPath_siblings, Nat.div_eq_of_lt h,
    Nat.zero_add]

/-- Over the siblings of the complete tree, the circuit's constraints have the root as the one
output. -/
theorem merkleProof_siblings_iff (lib : Circuit.Circomlib) (f : Nat → F) {L index : Nat}
    (hL : L ≤ 253) (hindex : index < 2 ^ L) (out : F) :
    Circuit.merkleProof lib L (f index) (Merkle.siblings compress f L 0 index) index out ↔
      out = Merkle.nodeAt compress f L 0 := by
  constructor
  · intro h
    obtain ⟨-, -, hout⟩ := Circuit.merkleProof_sound hL h
    rw [hout, Circuit.val_cast_of_lt hL hindex, foldPath_siblings_root f hindex]
  · rintro rfl
    rw [← foldPath_siblings_root f hindex]
    exact Circuit.merkleProof_of_lt hL (Merkle.length_siblings _ _ _) hindex

/-- **The proof of a leaf** has one sibling for each level, folds to the root of the complete tree,
and satisfies `MerkleProof(L)` with that root as the only output. -/
theorem path_of_mem (lib : Circuit.Circomlib) {L : Nat} (h1 : 1 ≤ L) (h2 : L ≤ 32)
    {leaves : List (Nat × F)} (h : Fits L leaves) {index : Nat} {leaf : F}
    (hmem : (index, leaf) ∈ leaves) :
    ∃ p, path L leaves index = .ok (some p) ∧ p.leaf = leaf ∧ p.siblings.length = L ∧
      p.root = Merkle.nodeAt compress (leafAt leaves) L 0 ∧ p.computedRoot = p.root ∧
      (∀ out, Circuit.merkleProof lib L p.leaf p.siblings p.pathIndices out ↔ out = p.root) ∧
      PolicyFixture.merkleProof (paddedLeaves L leaves) index =
        .ok (p.siblings, p.pathIndices, L) := by
  have hindex : index < 2 ^ L := h.1 _ hmem
  have hleaf : leafAt leaves index = leaf := by
    rw [leafAt, Assoc.lookup_eq_some_of_mem h.2 hmem, Option.getD_some]
  refine ⟨_, path_served h1 h2 h hmem, rfl, Merkle.length_siblings _ _ _, rfl, ?_, ?_, ?_⟩
  · rw [MerklePath.computedRoot, foldSiblings_eq, ← hleaf, foldPath_siblings_root _ hindex]
  · intro out
    rw [← hleaf]
    exact merkleProof_siblings_iff lib (leafAt leaves) (by omega) hindex out
  · rw [level_leafAt, PolicyFixture.merkleProof_level _ (by omega) hindex]
    rfl

/-- **Served Merkle proofs are the circuit's.**  `root` and `path` take leaves at distinct indices
that fit the tree and no others; the root is that of the complete tree; and the proof of a leaf has
the siblings, the path index and the root that the dense tree gives it, folds to the root, and
satisfies `MerkleProof(L)` with the root as the only output. -/
theorem served_paths_fit_the_circuit (lib : Circuit.Circomlib) {L : Nat} (h1 : 1 ≤ L)
    (h2 : L ≤ 32) (leaves : List (Nat × F)) :
    ((∃ r, root L leaves = .ok r) ↔ Fits L leaves) ∧
    (∀ index, (∃ r, path L leaves index = .ok r) ↔ Fits L leaves) ∧
    (Fits L leaves →
      root L leaves = .ok (Merkle.nodeAt compress (leafAt leaves) L 0) ∧
      PolicyFixture.merkleRoot (paddedLeaves L leaves) =
        .ok (Merkle.nodeAt compress (leafAt leaves) L 0) ∧
      ∀ index, ((∀ p ∈ leaves, p.1 ≠ index) → path L leaves index = .ok none) ∧
        ∀ leaf, (index, leaf) ∈ leaves → ∃ p, path L leaves index = .ok (some p) ∧
          p.leaf = leaf ∧ p.siblings.length = L ∧ root L leaves = .ok p.root ∧
          p.computedRoot = p.root ∧
          (∀ out, Circuit.merkleProof lib L p.leaf p.siblings p.pathIndices out ↔ out = p.root) ∧
          PolicyFixture.merkleProof (paddedLeaves L leaves) index =
            .ok (p.siblings, p.pathIndices, L)) := by
  refine ⟨exists_root_iff h1 h2 leaves, exists_path_iff h1 h2 leaves, fun h => ?_⟩
  have hroot := root_eq h1 h2 h.1 h.2
  refine ⟨hroot, ?_, fun index => ⟨path_none h1 h2 h, fun leaf hmem => ?_⟩⟩
  · rw [level_leafAt, PolicyFixture.merkleRoot_level]
  · obtain ⟨p, hp, hleaf, hlen, hproot, hrest⟩ := path_of_mem lib h1 h2 h hmem
    exact ⟨p, hp, hleaf, hlen, hproot ▸ hroot, hrest⟩

/-- Two leaves of four, the right one given first. -/
def twoLeaves : List (Nat × F) := [(2, ((5 : Nat) : F)), (0, ((7 : Nat) : F))]

theorem served_paths_fit_the_circuit_two_leaves :
    ∃ p, path 2 twoLeaves 2 = .ok (some p) ∧ p.siblings.length = 2 ∧ p.computedRoot = p.root ∧
      Circuit.merkleProof Circuit.Circomlib.standard 2 p.leaf p.siblings p.pathIndices p.root ∧
      path 2 twoLeaves 1 = .ok none := by
  have hfits : Fits 2 twoLeaves := ⟨by decide, by decide⟩
  obtain ⟨-, -, h⟩ := served_paths_fit_the_circuit Circuit.Circomlib.standard (L := 2) (by decide)
    (by decide) twoLeaves
  obtain ⟨-, -, hpaths⟩ := h hfits
  obtain ⟨p, hp, -, hlen, -, hfold, hcircuit, -⟩ :=
    (hpaths 2).2 ((5 : Nat) : F) List.mem_cons_self
  exact ⟨p, hp, hlen, hfold, (hcircuit p.root).mpr rfl, (hpaths 1).1 (by decide)⟩

end Tree

end Veil
