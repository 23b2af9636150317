/-
# The trees recomputed off chain

`services/indexer/src/tree.rs`.  The indexer and the API rebuild the contracts' trees from stored
leaves in two ways:

* `root` and `path` hash the populated paths of a tree given as a map from index to leaf;
* `IncrementalTree` appends one leaf at a time and reports the root after each, the way the
  allowlist contract does.

A `BTreeMap` is modelled as an association list; each parent is inserted once with a value that
depends on the map below it only, so the order of the keys does not matter.

`root_eq` and `Replays.push` say that both compute the root of the full tree.
-/
import Veil.Core.Transaction
import Veil.Hash
import Veil.Merkle.Frontier
import Veil.Merkle.Sparse

namespace Veil

open Tx

namespace Tree

inductive TreeError where
  | notAFieldElement (value : Nat)
  | levels (levels : Nat)
  | indexOutOfRange (index levels : Nat)
  | duplicateIndex (index : Nat)
  deriving DecidableEq, Repr

/-- Deepest tree either contract accepts. -/
def maxLevels : Nat := 32

/-! ## 1. The functions -/

/-- `Field::from_u256`: reduce, and refuse what the reduction changed. -/
def fromU256 (value : Nat) : Except TreeError F := do
  let element : F := value
  ensure (element.val = value) (.notAFieldElement value)
  .ok element

def checkLevels (levels : Nat) : Except TreeError Unit :=
  ensure (¬(levels = 0 ∨ levels > maxLevels)) (.levels levels)

/-- `current` and its `n` successive self-compressions. -/
def zeroesFrom : (n : Nat) → (current : F) → List F
  | 0, current => [current]
  | n + 1, current => current :: zeroesFrom n (compress current current)

/-- The empty subtree hash at each level, `0..=levels`. -/
def zeroes (levels : Nat) : Except TreeError (List F) := do
  checkLevels levels
  let current ← fromU256 emptyLeafNat
  .ok (zeroesFrom levels current)

/-- The loop that fills the map of leaves. -/
def insertLeaves (levels : Nat) :
    List (Nat × F) → List (Nat × F) → Except TreeError (List (Nat × F))
  | [], nodes => .ok nodes
  | (index, leaf) :: leaves, nodes => do
    ensure (¬index ≥ 2 ^ levels) (.indexOutOfRange index levels)
    ensure ((nodes.lookup index).isSome = false) (.duplicateIndex index)
    insertLeaves levels leaves ((index, leaf) :: nodes)

/-- Root of a tree of depth `levels` with `leaves` set at their indices and every other
position empty. -/
def root (levels : Nat) (leaves : List (Nat × F)) : Except TreeError F := do
  let zeroes ← zeroes levels
  let nodes ← insertLeaves levels leaves []
  let nodes := Merkle.levelsUp compress (zeroes.take levels) nodes
  .ok ((nodes.lookup 0).getD (zeroes.getLast?.getD 0))

/-- A Merkle proof for one leaf. -/
structure MerklePath where
  index : Nat
  leaf : F
  siblings : List F
  root : F
  deriving DecidableEq

/-- Bit `i` set means the node at level `i` is a right child, the order the circuit's
`pathIndices` uses. -/
def MerklePath.pathIndices (p : MerklePath) : Nat := p.index

/-- Recomputes the root from the leaf and siblings. -/
def foldSiblings : List F → (index : Nat) → (current : F) → F
  | [], _, current => current
  | sibling :: siblings, index, current =>
    foldSiblings siblings (index / 2)
      (if index % 2 = 1 then compress sibling current else compress current sibling)

def MerklePath.computedRoot (p : MerklePath) : F := foldSiblings p.siblings p.index p.leaf

/-- The level loop of `path`: the sibling of `position` at each level, and the last map. -/
def pathUp : (zeroes : List F) → (nodes : List (Nat × F)) → (position : Nat) →
    List F × List (Nat × F)
  | [], nodes, _ => ([], nodes)
  | zero :: zeroes, nodes, position =>
    let sibling := (nodes.lookup (position ^^^ 1)).getD zero
    let (siblings, nodes) := pathUp zeroes (Merkle.levelUp compress zero nodes) (position / 2)
    (sibling :: siblings, nodes)

/-- The proof for the leaf at `index`, or `none` if no leaf is set there. -/
def path (levels : Nat) (leaves : List (Nat × F)) (index : Nat) :
    Except TreeError (Option MerklePath) := do
  let zeroes ← zeroes levels
  let nodes ← insertLeaves levels leaves []
  match nodes.lookup index with
  | none => .ok none
  | some leaf =>
    let (siblings, nodes) := pathUp (zeroes.take levels) nodes index
    .ok (some { index := index, leaf := leaf, siblings := siblings
                root := (nodes.lookup 0).getD (zeroes.getLast?.getD 0) })

/-- An append-only tree that reports its root after every insertion. -/
structure IncrementalTree where
  levels : Nat
  zeroes : List F
  filled : List F
  nextIndex : Nat
  root : F

namespace IncrementalTree

def new (levels : Nat) : Except TreeError IncrementalTree := do
  let zeroes ← Tree.zeroes levels
  .ok { levels := levels, zeroes := zeroes, filled := zeroes, nextIndex := 0
        root := zeroes.getLast?.getD 0 }

/-- The level loop of `push`, over the stored hashes and the zeroes in step. -/
def pushLoop : (k : Nat) → (filled zeroes : List F) → (index : Nat) → (current : F) → F × List F
  | k + 1, f :: filled, z :: zeroes, index, current =>
    if index % 2 = 1 then
      let (current, filled) := pushLoop k filled zeroes (index / 2) (compress f current)
      (current, f :: filled)
    else
      let (root, filled) := pushLoop k filled zeroes (index / 2) (compress current z)
      (root, current :: filled)
  | _, filled, _, _, current => (current, filled)

/-- Appends `leaf`; the new root is `root` of the result. -/
def push (t : IncrementalTree) (leaf : F) : Except TreeError IncrementalTree := do
  ensure (¬t.nextIndex ≥ 2 ^ t.levels) (.indexOutOfRange t.nextIndex t.levels)
  let (current, filled) := pushLoop t.levels t.filled t.zeroes t.nextIndex leaf
  .ok { t with filled := filled, nextIndex := t.nextIndex + 1, root := current }

end IncrementalTree

/-! ## 2. `zeroes` -/

theorem fromU256_val (x : F) : fromU256 x.val = .ok x := by
  simp only [fromU256, ZMod.natCast_zmod_val, ensure_pos, ok_bind]

theorem fromU256_of_lt {v : Nat} (h : v < bn256Modulus) : fromU256 v = .ok (v : F) := by
  have := fromU256_val (v : F)
  rwa [ZMod.val_natCast_of_lt h] at this

theorem fromU256_ok {v : Nat} {x : F} (h : fromU256 v = .ok x) : x.val = v := by
  simp only [fromU256, bind_eq_ok, ensure_eq_ok, Except.ok.injEq] at h
  obtain ⟨-, hv, rfl⟩ := h
  exact hv

/-- The empty hashes of levels `0, .., L`. -/
def emptyHashes (L : Nat) : List F := (List.range (L + 1)).map (Merkle.zeroAt compress emptyLeaf)

theorem zeroesFrom_eq : ∀ (n d : Nat), zeroesFrom n (Merkle.zeroAt compress emptyLeaf d) =
    (List.range' d (n + 1)).map (Merkle.zeroAt compress emptyLeaf)
  | 0, d => by simp [zeroesFrom]
  | n + 1, d => by
    rw [zeroesFrom, ← Merkle.zeroAt_succ compress, zeroesFrom_eq n (d + 1),
      List.range'_succ (n := n + 1),
      List.map_cons]

theorem zeroes_eq {L : Nat} (h1 : 1 ≤ L) (h2 : L ≤ 32) : zeroes L = .ok (emptyHashes L) := by
  have hlev : ¬(L = 0 ∨ L > maxLevels) := by simp only [maxLevels]; omega
  have hfrom : zeroesFrom L emptyLeaf = emptyHashes L := by
    rw [emptyHashes, List.range_eq_range', ← zeroesFrom_eq]
    rfl
  simp only [zeroes, checkLevels, ensure_pos hlev, ok_bind, emptyLeafNat, fromU256_val, hfrom]

@[simp] theorem emptyHashes_length (L : Nat) : (emptyHashes L).length = L + 1 := by
  simp [emptyHashes]

theorem emptyHashes_getLast (L : Nat) :
    (emptyHashes L).getLast?.getD 0 = Merkle.zeroAt compress emptyLeaf L := by
  simp [emptyHashes, List.range_succ]

/-! ## 3. `root` and `path` -/

/-- The leaf function of a map: the leaf set at an index, the empty leaf elsewhere. -/
def leafAt (leaves : List (Nat × F)) (i : Nat) : F := (leaves.lookup i).getD emptyLeaf

theorem insertLeaves_ok {L : Nat} : ∀ (leaves nodes : List (Nat × F)),
    (∀ p ∈ leaves, p.1 < 2 ^ L) → (leaves.map Prod.fst).Nodup →
    (∀ p ∈ leaves, nodes.lookup p.1 = none) →
    insertLeaves L leaves nodes = .ok (leaves.reverse ++ nodes)
  | [], nodes, _, _, _ => rfl
  | (i, x) :: leaves, nodes, hlt, hnd, hnew => by
    have hi : ¬i ≥ 2 ^ L := Nat.not_le.mpr (hlt (i, x) List.mem_cons_self)
    have hn : (nodes.lookup i).isSome = false := by
      rw [hnew (i, x) List.mem_cons_self]; rfl
    rw [List.map_cons, List.nodup_cons] at hnd
    rw [insertLeaves, ensure_pos hi, ok_bind, ensure_pos hn, ok_bind,
      insertLeaves_ok leaves ((i, x) :: nodes) (fun p hp => hlt p (List.mem_cons_of_mem _ hp))
        hnd.2 ?_]
    · simp
    · intro p hp
      have hne : p.1 ≠ i := fun h => hnd.1 (List.mem_map.mpr ⟨p, hp, h⟩)
      rw [List.lookup_cons, beq_false_of_ne hne]
      exact hnew p (List.mem_cons_of_mem _ hp)

theorem emptyHashes_take (L i : Nat) (h : i < ((emptyHashes L).take L).length) :
    ((emptyHashes L).take L)[i] = Merkle.zeroAt compress emptyLeaf (0 + i) := by
  simp [emptyHashes]

/-- The level loop, run over the leaves of any map, ends at the root of the full tree. -/
theorem lookup_levelsUp {L : Nat} {f : Nat → F} {nodes : List (Nat × F)}
    (h : Merkle.Sparse compress emptyLeaf f 0 nodes) :
    ((Merkle.levelsUp compress ((emptyHashes L).take L) nodes).lookup 0).getD
      ((emptyHashes L).getLast?.getD 0) = Merkle.nodeAt compress f L 0 := by
  have hs := h.levelsUp _ 0 nodes (emptyHashes_take L) 0
  simpa [emptyHashes_getLast] using hs

theorem sparse_leaves {leaves : List (Nat × F)} (hnd : (leaves.map Prod.fst).Nodup) :
    Merkle.Sparse compress emptyLeaf (leafAt leaves) 0 (leaves.reverse ++ []) := by
  intro i
  rw [List.append_nil, ← Assoc.lookup_perm (List.reverse_perm leaves).symm hnd]
  rfl

/-- **`root` is the root of the full tree.**  The leaves may come in any order. -/
theorem root_eq {L : Nat} (h1 : 1 ≤ L) (h2 : L ≤ 32) {leaves : List (Nat × F)}
    (hlt : ∀ p ∈ leaves, p.1 < 2 ^ L) (hnd : (leaves.map Prod.fst).Nodup) :
    root L leaves = .ok (Merkle.nodeAt compress (leafAt leaves) L 0) := by
  simp only [root, zeroes_eq h1 h2, ok_bind, insertLeaves_ok leaves [] hlt hnd (fun _ _ => rfl),
    lookup_levelsUp (sparse_leaves hnd)]

theorem pathUp_snd : ∀ (zeroes : List F) (nodes : List (Nat × F)) (position : Nat),
    (pathUp zeroes nodes position).2 = Merkle.levelsUp compress zeroes nodes
  | [], _, _ => rfl
  | zero :: zeroes, nodes, position => by
    rw [pathUp, Merkle.levelsUp, ← pathUp_snd zeroes _ (position / 2)]

/-- A path is served for exactly the indices that hold a leaf, and it carries the root that
`root` computes. -/
theorem path_eq {L : Nat} (h1 : 1 ≤ L) (h2 : L ≤ 32) {leaves : List (Nat × F)}
    (hlt : ∀ p ∈ leaves, p.1 < 2 ^ L) (hnd : (leaves.map Prod.fst).Nodup) (index : Nat) :
    ∃ r, path L leaves index = .ok r ∧ (r.isSome = (leaves.lookup index).isSome) ∧
      ∀ p ∈ r, p.index = index ∧ leaves.lookup index = some p.leaf ∧
        p.root = Merkle.nodeAt compress (leafAt leaves) L 0 := by
  have hlook : (leaves.reverse ++ []).lookup index = leaves.lookup index := by
    rw [List.append_nil, ← Assoc.lookup_perm (List.reverse_perm leaves).symm hnd]
  have hroot := lookup_levelsUp (L := L) (sparse_leaves hnd)
  simp only [path, zeroes_eq h1 h2, ok_bind, insertLeaves_ok leaves [] hlt hnd (fun _ _ => rfl),
    hlook]
  cases hl : leaves.lookup index with
  | none => exact ⟨none, rfl, rfl, by simp⟩
  | some leaf =>
    refine ⟨_, rfl, rfl, ?_⟩
    intro p hp
    obtain rfl := Option.mem_some_iff.mp hp
    exact ⟨rfl, rfl, by rw [pathUp_snd, hroot]⟩

/-! ### Leaves that fill the tree from the left -/

/-- Leaves at the positions `0, 1, ..`. -/
def indexed (leaves : List F) : List (Nat × F) := leaves.zipIdx.map Prod.swap

theorem map_fst_indexed (leaves : List F) : (indexed leaves).map Prod.fst =
    List.range leaves.length := by
  simp [indexed, List.map_map, Function.comp_def, List.zipIdx_map_snd, List.range_eq_range']

theorem nodup_fst_indexed (leaves : List F) : ((indexed leaves).map Prod.fst).Nodup := by
  rw [map_fst_indexed]
  exact List.nodup_range

theorem leafAt_indexed (leaves : List F) : leafAt (indexed leaves) =
    Merkle.padded emptyLeaf leaves := by
  have hnd := nodup_fst_indexed leaves
  funext i
  by_cases hi : i < leaves.length
  · have hmem : (i, leaves[i]) ∈ indexed leaves :=
      List.mem_map.mpr ⟨(leaves[i], i), by simp [List.mem_zipIdx_iff_getElem?, hi], rfl⟩
    rw [leafAt, Assoc.lookup_eq_some_of_mem hnd hmem, Merkle.padded_of_lt hi]
    rfl
  · have hnone : (indexed leaves).lookup i = none := by
      rw [← Option.not_isSome_iff_eq_none, Assoc.isSome_lookup_iff, map_fst_indexed]
      simpa using hi
    rw [leafAt, hnone, Merkle.padded_of_le (by omega)]
    rfl

/-- The order in which the leaves are given does not matter. -/
theorem leafAt_of_perm {leaves : List (Nat × F)} {ls : List F} (h : leaves.Perm (indexed ls)) :
    leafAt leaves = Merkle.padded emptyLeaf ls := by
  rw [← leafAt_indexed]
  funext i
  rw [leafAt, leafAt, Assoc.lookup_perm h.symm (nodup_fst_indexed ls)]

theorem root_of_perm {L : Nat} (h1 : 1 ≤ L) (h2 : L ≤ 32) {leaves : List (Nat × F)} {ls : List F}
    (h : leaves.Perm (indexed ls)) (hfit : ls.length ≤ 2 ^ L) :
    root L leaves = .ok (fieldRoot L ls) := by
  have hfst : (leaves.map Prod.fst).Perm (List.range ls.length) := by
    rw [← map_fst_indexed]
    exact h.map _
  rw [root_eq h1 h2, leafAt_of_perm h]
  · rfl
  · intro p hp
    have hmem := hfst.subset (List.mem_map_of_mem hp)
    rw [List.mem_range] at hmem
    omega
  · exact hfst.nodup_iff.mpr List.nodup_range

theorem root_indexed {L : Nat} (h1 : 1 ≤ L) (h2 : L ≤ 32) {leaves : List F}
    (hfit : leaves.length ≤ 2 ^ L) : root L (indexed leaves) = .ok (fieldRoot L leaves) :=
  root_of_perm h1 h2 (List.Perm.refl _) hfit

/-- Leaves at the indices `0, .., n - 1`, in any order, are the leaves of a list. -/
theorem exists_indexed {leaves : List (Nat × F)} {n : Nat}
    (h : (leaves.map Prod.fst).Perm (List.range n)) :
    ∃ ls : List F, ls.length = n ∧ leaves.Perm (indexed ls) := by
  have hnd : (leaves.map Prod.fst).Nodup := h.nodup_iff.mpr List.nodup_range
  refine ⟨(List.range n).map (leafAt leaves), by simp, ?_⟩
  have hself : (leaves.map Prod.fst).map (fun i => (i, leafAt leaves i)) = leaves := by
    rw [List.map_map]
    refine (List.map_congr_left fun p hp => ?_).trans (List.map_id leaves)
    rw [Function.comp_apply, leafAt, Assoc.lookup_eq_some_of_mem hnd hp]
    rfl
  have hindexed : indexed ((List.range n).map (leafAt leaves)) =
      (List.range n).map fun i => (i, leafAt leaves i) := by
    refine List.ext_getElem (by simp [indexed]) fun i hi hi' => ?_
    simp [indexed]
  rw [hindexed]
  nth_rewrite 1 [← hself]
  exact h.map _

/-- **What `root` refuses.**  A root is returned for distinct indices that fit the tree only. -/
theorem insertLeaves_inv {L : Nat} : ∀ {leaves nodes r : List (Nat × F)},
    insertLeaves L leaves nodes = .ok r →
    (∀ p ∈ leaves, p.1 < 2 ^ L) ∧ (leaves.map Prod.fst).Nodup ∧
      ∀ p ∈ leaves, nodes.lookup p.1 = none
  | [], _, _, _ => ⟨by simp, List.nodup_nil, by simp⟩
  | (i, x) :: leaves, nodes, r, h => by
    simp only [insertLeaves, bind_eq_ok, ensure_eq_ok, Option.isSome_eq_false_iff,
      Option.isNone_iff_eq_none] at h
    obtain ⟨-, hlt, -, hfree, h⟩ := h
    obtain ⟨hall, hnd, hnew⟩ := insertLeaves_inv h
    have hne : ∀ p ∈ leaves, p.1 ≠ i := by
      intro p hp hpi
      have := hnew p hp
      rw [hpi, List.lookup_cons_self] at this
      cases this
    refine ⟨?_, ?_, ?_⟩
    · intro p hp
      rcases List.mem_cons.mp hp with rfl | hp
      · exact Nat.not_le.mp hlt
      · exact hall p hp
    · rw [List.map_cons, List.nodup_cons]
      refine ⟨fun hi => ?_, hnd⟩
      obtain ⟨p, hp, hpi⟩ := List.mem_map.mp hi
      exact hne p hp hpi
    · intro p hp
      rcases List.mem_cons.mp hp with rfl | hp
      · exact hfree
      · have := hnew p hp
        rwa [List.lookup_cons, beq_false_of_ne (hne p hp)] at this

theorem root_inv {L : Nat} {leaves : List (Nat × F)} {r : F} (h : root L leaves = .ok r) :
    (∀ p ∈ leaves, p.1 < 2 ^ L) ∧ (leaves.map Prod.fst).Nodup := by
  simp only [root, bind_eq_ok] at h
  obtain ⟨_, -, _, hins, -⟩ := h
  exact ⟨(insertLeaves_inv hins).1, (insertLeaves_inv hins).2.1⟩

/-! ## 4. The incremental tree -/

namespace IncrementalTree

/-- **`push` is `Merkle.climb`**, over the lists of stored hashes and zeroes. -/
theorem pushLoop_eq (zero : Nat → F) : ∀ (k n lvl index : Nat) (current : F) (fl : Nat → F), k ≤ n →
    pushLoop k ((List.range' lvl n).map fl) ((List.range' lvl n).map zero) index current =
      ((Merkle.climb compress zero k lvl index current fl).1,
        (List.range' lvl n).map (Merkle.climb compress zero k lvl index current fl).2)
  | 0, n, lvl, index, current, fl, _ => by cases n <;> simp [pushLoop, Merkle.climb]
  | k + 1, 0, lvl, index, current, fl, h => by omega
  | k + 1, n + 1, lvl, index, current, fl, h => by
    by_cases hidx : index % 2 = 1
    · simp only [List.range'_succ, List.map_cons, pushLoop, Merkle.climb, if_pos hidx]
      rw [pushLoop_eq zero k n (lvl + 1) (index / 2) _ fl (by omega),
        Merkle.climb_snd_of_lt _ _ _ _ _ _ _ (Nat.lt_succ_self lvl)]
    · simp only [List.range'_succ, List.map_cons, pushLoop, Merkle.climb, if_neg hidx]
      have hmap : (List.range' (lvl + 1) n).map fl =
          (List.range' (lvl + 1) n).map (Function.update fl lvl current) :=
        List.map_congr_left fun l hl => by
          have := (List.mem_range'_1.mp hl).1
          rw [Function.update_of_ne (by omega)]
      rw [hmap, pushLoop_eq zero k n (lvl + 1) (index / 2) _ (Function.update fl lvl current)
        (by omega), Merkle.climb_snd_of_lt _ _ _ _ _ _ _ (Nat.lt_succ_self lvl),
        Function.update_self]

/-- **The tree has been fed `leaves`.** -/
structure Replays (L : Nat) (leaves : List F) (t : IncrementalTree) : Prop where
  levels : t.levels = L
  zeroes : t.zeroes = emptyHashes L
  nextIndex : t.nextIndex = leaves.length
  fits : leaves.length ≤ 2 ^ L
  root : t.root = fieldRoot L leaves
  filled : ∃ fl, t.filled = (List.range' 0 (L + 1)).map fl ∧
    Merkle.Frontier compress L 0 leaves.length (Merkle.padded emptyLeaf leaves) fl

theorem replays_new {L : Nat} (h1 : 1 ≤ L) (h2 : L ≤ 32) : ∃ t, new L = .ok t ∧ Replays L [] t := by
  refine ⟨_, by simp only [new, zeroes_eq h1 h2, ok_bind]; rfl, ?_⟩
  exact {
    levels := rfl
    zeroes := rfl
    nextIndex := rfl
    fits := Nat.zero_le _
    root := by simp [emptyHashes_getLast, fieldRoot]
    filled := ⟨_, by rw [← List.range_eq_range']; rfl, Merkle.frontier_zero _ _ _ _ _⟩ }

/-- **One leaf.**  With room left, `push` succeeds and its root is that of the longer tree. -/
theorem Replays.push {L : Nat} {leaves : List F} {t : IncrementalTree} (h : Replays L leaves t)
    (leaf : F) (hfit : leaves.length < 2 ^ L) :
    ∃ t', push t leaf = .ok t' ∧ Replays L (leaves ++ [leaf]) t' := by
  obtain ⟨fl, hfl, hfr⟩ := h.filled
  obtain ⟨hroot, hfr'⟩ := hfr.append (g := Merkle.padded emptyLeaf (leaves ++ [leaf]))
    (fun i hi => (Merkle.padded_append_of_lt (by omega)).symm)
    (fun i hi => Merkle.padded_of_le (by simp; omega)) (fun _ _ _ => rfl) (Nat.zero_le L)
    (by simpa using hfit)
  have hnode : Merkle.nodeAt compress (Merkle.padded emptyLeaf (leaves ++ [leaf])) 0
      leaves.length = leaf := by
    rw [Merkle.nodeAt_zero, Merkle.padded_of_lt (by simp)]
    simp
  rw [hnode, Nat.sub_zero] at hroot hfr'
  have hloop := pushLoop_eq (Merkle.zeroAt compress emptyLeaf) L (L + 1) 0 leaves.length leaf fl
    (by omega)
  rw [← hfl, ← List.range_eq_range', ← emptyHashes, ← h.zeroes] at hloop
  refine ⟨_, by
    simp only [IncrementalTree.push, h.levels, h.nextIndex, hloop,
      ensure_pos (Nat.not_le.mpr hfit), ok_bind]
    rfl, ?_⟩
  exact {
    levels := rfl
    zeroes := h.zeroes
    nextIndex := by simp
    fits := by simpa using hfit
    root := hroot
    filled := ⟨_, by rw [← List.range_eq_range'], by simpa using hfr'⟩ }

/-- The same, read backwards from a successful `push`. -/
theorem Replays.of_push {L : Nat} {leaves : List F} {t t' : IncrementalTree} {leaf : F}
    (h : Replays L leaves t) (hok : IncrementalTree.push t leaf = .ok t') :
    Replays L (leaves ++ [leaf]) t' := by
  obtain ⟨_, hroom, -⟩ := bind_eq_ok.mp hok
  have hlt := Nat.not_le.mp (ensure_eq_ok.mp hroom)
  rw [h.nextIndex, h.levels] at hlt
  obtain ⟨t1, ht1, h1⟩ := h.push leaf hlt
  obtain rfl : t1 = t' := Except.ok.inj (ht1.symm.trans hok)
  exact h1

end IncrementalTree

end Tree

end Veil
