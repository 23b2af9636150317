/-
# The pool's tree: an append-only Merkle tree with a ring of recent roots

`contracts/pool/src/merkle_with_history.rs`.  The contract keeps one hash for each level, the next
free index, and the last `rootHistorySize` roots in a ring.  Leaves arrive two at a time, so the
path update starts at level 1.

The first section is the module as written, with its own error type; storage entries are options
because a read of a missing entry is an error the code reports.  The rest is one invariant:

* `Holds L leaves s` says that the storage `s` describes the tree of depth `L` whose first leaves
  are `leaves`: the stored subtrees are the frontier of that tree, the current ring slot holds its
  root, and EVERY ring slot holds the root of an earlier prefix;
* `holds_init` and `Holds.insertTwoLeaves` carry it through the two writing operations.
-/
import Veil.Contract.PathUpdate

namespace Veil

open Tx Unsigned

/-- Number of roots kept in history for proof verification. -/
def rootHistorySize : Nat := 90

/-- The module's `Error`. -/
inductive MerkleError where
  | alreadyInitialized
  | wrongLevels
  | merkleTreeFull
  | nextIndexNotEven
  | notInitialized
  | overflow
  deriving DecidableEq, Repr

/-- The persistent entries under `MerkleDataKey`. -/
structure MerkleStorage where
  levels : Option Nat
  currentRootIndex : Option Nat
  nextIndex : Option Nat
  filledSubtree : Nat → Option Nat
  zeroes : Nat → Option Nat
  root : Nat → Option Nat

/-- Storage before `init`. -/
def MerkleStorage.empty : MerkleStorage := ⟨none, none, none, fun _ => none, fun _ => none,
  fun _ => none⟩

namespace MerkleTreeWithHistory

/-! ## 1. The operations -/

def init (levels : Nat) (s : MerkleStorage) : Except (Fault MerkleError) MerkleStorage := do
  ensure (levels ≠ 0 ∧ levels ≤ 32) (.contract .wrongLevels)
  ensure (s.currentRootIndex = none) (.contract .alreadyInitialized)
  let (filledSubtree, zeroes) ← storeZeroes .notInitialized (List.range (levels + 1))
    (s.filledSubtree, s.zeroes)
  let root0 ← okOr getZeroes[levels]? (.contract .notInitialized)
  .ok { levels := some levels
        currentRootIndex := some 0
        nextIndex := some 0
        filledSubtree := filledSubtree
        zeroes := zeroes
        root := Function.update s.root 0 (some root0) }

/-- Returns the two indices and the new storage. -/
def insertTwoLeaves (leaf1 leaf2 : Nat) (s : MerkleStorage) :
    Except (Fault MerkleError) ((Nat × Nat) × MerkleStorage) := do
  let levels ← okOr s.levels (.contract .notInitialized)
  let nextIndex ← okOr s.nextIndex (.contract .notInitialized)
  let rootIndex ← okOr s.currentRootIndex (.contract .notInitialized)
  let maxLeaves ← okOr (checkedShl levels) (.contract .wrongLevels)
  ensure (nextIndex % 2 = 0) (.contract .nextIndexNotEven)
  let afterIndex ← okOr (checkedAdd 64 nextIndex 2) (.contract .overflow)
  ensure (¬afterIndex > maxLeaves) (.contract .merkleTreeFull)
  let currentHash ← okOr (poseidon2Compress leaf1 leaf2) .trapped
  let (currentHash, filledSubtree) ← updatePath .notInitialized s.zeroes (levels - 1) 1
    (nextIndex / 2) currentHash s.filledSubtree
  let rootIndex ← okOr (checkedAdd 32 rootIndex 1) (.contract .overflow)
  let rootIndex := rootIndex % rootHistorySize
  let idx0 ← okOr (if nextIndex < 2 ^ 32 then some nextIndex else none)
    (.contract .merkleTreeFull)
  let idx1 ← okOr (checkedAdd 64 nextIndex 1) (.contract .overflow)
  let idx1 ← okOr (if idx1 < 2 ^ 32 then some idx1 else none) (.contract .merkleTreeFull)
  .ok ((idx0, idx1),
    { s with
      filledSubtree := filledSubtree
      root := Function.update s.root rootIndex (some currentHash)
      currentRootIndex := some rootIndex
      nextIndex := some afterIndex })

/-- Whether another two-leaf insertion no longer fits. -/
def isFull (s : MerkleStorage) : Except (Fault MerkleError) Bool := do
  let levels ← okOr s.levels (.contract .notInitialized)
  let nextIndex ← okOr s.nextIndex (.contract .notInitialized)
  let maxLeaves ← okOr (checkedShl levels) (.contract .wrongLevels)
  let afterIndex ← okOr (checkedAdd 64 nextIndex 2) (.contract .overflow)
  .ok (decide (afterIndex > maxLeaves))

/-- Leaves still free in the tree. -/
def remainingLeaves (s : MerkleStorage) : Except (Fault MerkleError) Nat := do
  let levels ← okOr s.levels (.contract .notInitialized)
  let nextIndex ← okOr s.nextIndex (.contract .notInitialized)
  let maxLeaves ← okOr (checkedShl levels) (.contract .wrongLevels)
  .ok (maxLeaves - nextIndex)

/-- The search loop of `is_known_root`.  The ring has `rootHistorySize` slots, so a search that
has looked at one slot more than that and is not back at its start never ends; the host then
stops it. -/
def searchRoots (s : MerkleStorage) (root currentRootIndex : Nat) :
    (fuel i : Nat) → Except (Fault MerkleError) Bool
  | 0, _ => .error .trapped
  | fuel + 1, i =>
    if s.root i = some root then .ok true
    else do
      let i ← okOr (checkedAdd 32 i 1) (.contract .overflow)
      let i := i % rootHistorySize
      if i = currentRootIndex then .ok false else searchRoots s root currentRootIndex fuel i

def isKnownRoot (s : MerkleStorage) (root : Nat) : Except (Fault MerkleError) Bool :=
  if root = 0 then .ok false
  else do
    let currentRootIndex ← okOr s.currentRootIndex (.contract .notInitialized)
    searchRoots s root currentRootIndex (rootHistorySize + 1) currentRootIndex

def getLastRoot (s : MerkleStorage) : Except (Fault MerkleError) Nat := do
  let currentRootIndex ← okOr s.currentRootIndex (.contract .notInitialized)
  okOr (s.root currentRootIndex) (.contract .notInitialized)

/-! ## 2. The invariant -/

/-- **The storage describes the tree of depth `L` over `leaves`.** -/
structure Holds (L : Nat) (leaves : List Nat) (s : MerkleStorage) : Prop where
  levels : s.levels = some L
  depth : 1 ≤ L ∧ L ≤ 32
  nextIndex : s.nextIndex = some leaves.length
  even : leaves.length % 2 = 0
  fits : leaves.length ≤ 2 ^ L
  field : ∀ x ∈ leaves, x < bn256Modulus
  frontier : ∃ fl, Stored L s.filledSubtree fl ∧ Merkle.Frontier compressNat L 1
    (leaves.length / 2) (Merkle.padded emptyLeafNat leaves) fl
  zeroes : Stored L s.zeroes (Merkle.zeroAt compressNat emptyLeafNat)
  current : ∃ r < rootHistorySize, s.currentRootIndex = some r ∧
    s.root r = some (treeRoot L leaves)
  history : ∀ i r, s.root i = some r →
    ∃ k, 2 * k ≤ leaves.length ∧ r = treeRoot L (leaves.take (2 * k))

theorem holds_init {L : Nat} (h1 : 1 ≤ L) (h2 : L ≤ 32) :
    ∃ s, init L .empty = .ok s ∧ Holds L [] s := by
  obtain ⟨m, hm, hstored⟩ := storeZeroes_range MerkleError.notInitialized h2
  refine ⟨_, by
    simp only [init, ensure_pos (show L ≠ 0 ∧ L ≤ 32 from ⟨by omega, h2⟩), MerkleStorage.empty,
      ok_bind, hm, getZeroes_root h2, okOr_some]; rfl, ?_⟩
  exact {
    levels := rfl
    depth := ⟨h1, h2⟩
    nextIndex := rfl
    even := rfl
    fits := Nat.zero_le _
    field := by simp
    frontier := ⟨_, hstored, Merkle.frontier_zero _ _ _ _ _⟩
    zeroes := hstored
    current := ⟨0, by decide, rfl, by simp⟩
    history := by
      intro i r hr
      by_cases hi : i = 0
      · subst hi
        exact ⟨0, by simp, by simpa using hr.symm⟩
      · simp [hi] at hr }

variable {L : Nat} {leaves : List Nat} {s s' : MerkleStorage} {leaf1 leaf2 : Nat}

/-- The parent of the two new leaves is the node of their block. -/
theorem nodeAt_block (he : leaves.length % 2 = 0) :
    Merkle.nodeAt compressNat (Merkle.padded emptyLeafNat (leaves ++ [leaf1, leaf2])) 1
      (leaves.length / 2) = compressNat leaf1 leaf2 := by
  have h2 : 2 * (leaves.length / 2) = leaves.length := by omega
  rw [Merkle.nodeAt_succ, h2, Merkle.nodeAt_zero, Merkle.nodeAt_zero,
    Merkle.padded_of_lt (by simp), Merkle.padded_of_lt (by simp)]
  simp

/-- The path update of an insertion returns the root of the tree with the two leaves. -/
theorem Holds.updatePath (h : Holds L leaves s) (leaf1 leaf2 : Nat)
    (hfit : leaves.length + 2 ≤ 2 ^ L) :
    ∃ m' fl', updatePath MerkleError.notInitialized s.zeroes (L - 1) 1 (leaves.length / 2)
        (compressNat leaf1 leaf2) s.filledSubtree =
          .ok (treeRoot L (leaves ++ [leaf1, leaf2]), m') ∧
      Stored L m' fl' ∧ Merkle.Frontier compressNat L 1 (leaves.length / 2 + 1)
        (Merkle.padded emptyLeafNat (leaves ++ [leaf1, leaf2])) fl' := by
  obtain ⟨fl, hst, hfr⟩ := h.frontier
  have hL := h.depth.1
  have heven := h.even
  obtain ⟨m', hup, hst', -⟩ := updatePath_eq MerkleError.notInitialized
    h.zeroes (L - 1) 1 (leaves.length / 2) (compressNat leaf1 leaf2) s.filledSubtree fl (by omega)
    hst (compressNat_lt _ _)
  have hblocks : leaves.length / 2 < 2 ^ (L - 1) := by
    have : 2 ^ L = 2 * 2 ^ (L - 1) := by rw [← pow_succ', Nat.sub_add_cancel hL]
    omega
  obtain ⟨hroot, hfr'⟩ := hfr.append (g := Merkle.padded emptyLeafNat (leaves ++ [leaf1, leaf2]))
    (fun i hi => (Merkle.padded_append_of_lt (by omega)).symm)
    (fun i hi => Merkle.padded_of_le (by simp; omega)) (fun _ _ _ => rfl) hL hblocks
  rw [nodeAt_block heven] at hroot hfr'
  exact ⟨m', _, by rw [hup, hroot]; rfl, hst', hfr'⟩

/-- **One insertion.**  With room for two leaves it succeeds, hands out the next two indices,
and the storage describes the longer tree. -/
theorem Holds.insertTwoLeaves (h : Holds L leaves s) (h1 : leaf1 < bn256Modulus)
    (h2 : leaf2 < bn256Modulus) (hfit : leaves.length + 2 ≤ 2 ^ L) :
    ∃ s', insertTwoLeaves leaf1 leaf2 s = .ok ((leaves.length, leaves.length + 1), s') ∧
      Holds L (leaves ++ [leaf1, leaf2]) s' := by
  obtain ⟨m', fl', hup, hst', hfr'⟩ := h.updatePath leaf1 leaf2 hfit
  obtain ⟨r, hr, hcur, -⟩ := h.current
  have hL := h.depth
  have heven := h.even
  have hcap : 2 ^ L ≤ 2 ^ 32 := Nat.pow_le_pow_right (by omega) hL.2
  have hr1 : checkedAdd 32 r 1 = some (r + 1) := by
    simp only [rootHistorySize] at hr
    simp; omega
  have hshl : checkedShl L = some (2 ^ L) := by simp; omega
  have hadd2 : checkedAdd 64 leaves.length 2 = some (leaves.length + 2) := by simp; omega
  have hadd1 : checkedAdd 64 leaves.length 1 = some (leaves.length + 1) := by simp; omega
  refine ⟨_, by
    simp only [MerkleTreeWithHistory.insertTwoLeaves, h.levels, h.nextIndex, hcur, hshl, hadd2,
      hadd1, hr1, okOr_some, ok_bind, ensure_pos heven, ensure_pos (Nat.not_lt.mpr hfit),
      poseidon2Compress_of_lt h1 h2, hup, if_pos (show leaves.length < 2 ^ 32 by omega),
      if_pos (show leaves.length + 1 < 2 ^ 32 by omega)]; rfl, ?_⟩
  exact {
    levels := rfl
    depth := hL
    nextIndex := by simp
    even := by simp; omega
    fits := by simpa using hfit
    field := by
      intro x hx
      simp only [List.mem_append, List.mem_cons, List.not_mem_nil, or_false] at hx
      rcases hx with hx | rfl | rfl
      exacts [h.field x hx, h1, h2]
    frontier := ⟨fl', hst', by
      have hlen : (leaves ++ [leaf1, leaf2]).length / 2 = leaves.length / 2 + 1 := by simp
      rwa [hlen]⟩
    zeroes := h.zeroes
    current := ⟨(r + 1) % rootHistorySize, Nat.mod_lt _ (by decide), rfl, by simp⟩
    history := by
      intro i q hq
      by_cases hi : i = (r + 1) % rootHistorySize
      · subst hi
        refine ⟨leaves.length / 2 + 1, by simp; omega, ?_⟩
        rw [List.take_of_length_le (by simp; omega)]
        simpa using hq.symm
      · obtain ⟨k, hk, rfl⟩ := h.history i q (by simpa [hi] using hq)
        exact ⟨k, by simp; omega, by rw [List.take_append_of_le_length hk]⟩ }

/-! ## 3. The readers under the invariant -/

theorem Holds.checkedShl (h : Holds L leaves s) : checkedShl L = some (2 ^ L) := by
  have := h.depth.2
  simp; omega

theorem Holds.checkedAdd (h : Holds L leaves s) :
    checkedAdd 64 leaves.length 2 = some (leaves.length + 2) := by
  have hcap : 2 ^ L ≤ 2 ^ 32 := Nat.pow_le_pow_right (by omega) h.depth.2
  have := h.fits
  simp; omega

theorem Holds.isFull (h : Holds L leaves s) :
    isFull s = .ok (decide (leaves.length + 2 > 2 ^ L)) := by
  simp only [MerkleTreeWithHistory.isFull, h.levels, h.nextIndex, h.checkedShl, h.checkedAdd,
    okOr_some, ok_bind]

theorem Holds.remainingLeaves (h : Holds L leaves s) :
    remainingLeaves s = .ok (2 ^ L - leaves.length) := by
  simp only [MerkleTreeWithHistory.remainingLeaves, h.levels, h.nextIndex, h.checkedShl,
    okOr_some, ok_bind]

theorem Holds.getLastRoot (h : Holds L leaves s) : getLastRoot s = .ok (treeRoot L leaves) := by
  obtain ⟨r, -, hcur, hroot⟩ := h.current
  simp only [MerkleTreeWithHistory.getLastRoot, hcur, hroot, okOr_some, ok_bind]

/-- A tree with room has room for two: the capacity and the next index are both even. -/
theorem Holds.full_iff (h : Holds L leaves s) :
    leaves.length + 2 > 2 ^ L ↔ leaves.length = 2 ^ L := by
  have hpow : 2 ^ L = 2 * 2 ^ (L - 1) := by rw [← pow_succ', Nat.sub_add_cancel h.depth.1]
  have := h.fits
  have := h.even
  omega

theorem Holds.insertTwoLeaves_full (h : Holds L leaves s) (hfull : leaves.length + 2 > 2 ^ L) :
    MerkleTreeWithHistory.insertTwoLeaves leaf1 leaf2 s = .error (.contract .merkleTreeFull) := by
  obtain ⟨r, -, hcur, -⟩ := h.current
  simp only [MerkleTreeWithHistory.insertTwoLeaves, h.levels, h.nextIndex, hcur, h.checkedShl,
    h.checkedAdd, okOr_some, ok_bind, ensure_pos h.even, ensure_neg (not_not.mpr hfull),
    error_bind]

/-- Under the invariant an insertion fails in two ways only: for want of room, or by the panic of
the hash on a leaf outside the field. -/
theorem Holds.insertTwoLeaves_cases (h : Holds L leaves s) (leaf1 leaf2 : Nat) :
    (MerkleTreeWithHistory.insertTwoLeaves leaf1 leaf2 s = .error (.contract .merkleTreeFull) ∧
        leaves.length + 2 > 2 ^ L) ∨
      MerkleTreeWithHistory.insertTwoLeaves leaf1 leaf2 s = .error .trapped ∨
      (leaves.length + 2 ≤ 2 ^ L ∧ leaf1 < bn256Modulus ∧ leaf2 < bn256Modulus) := by
  by_cases hfull : leaves.length + 2 > 2 ^ L
  · exact .inl ⟨h.insertTwoLeaves_full hfull, hfull⟩
  by_cases hlt : leaf1 < bn256Modulus ∧ leaf2 < bn256Modulus
  · exact .inr (.inr ⟨by omega, hlt⟩)
  · obtain ⟨r, -, hcur, -⟩ := h.current
    have hnone : poseidon2Compress leaf1 leaf2 = none := if_pos (by omega)
    refine .inr (.inl ?_)
    simp only [MerkleTreeWithHistory.insertTwoLeaves, h.levels, h.nextIndex, hcur, h.checkedShl,
      h.checkedAdd, okOr_some, okOr_none, ok_bind, error_bind, ensure_pos h.even,
      ensure_pos hfull, hnone]

/-- A successful insertion, read backwards. -/
theorem Holds.of_insertTwoLeaves (h : Holds L leaves s) {idx : Nat × Nat}
    (hok : MerkleTreeWithHistory.insertTwoLeaves leaf1 leaf2 s = .ok (idx, s')) :
    idx = (leaves.length, leaves.length + 1) ∧ Holds L (leaves ++ [leaf1, leaf2]) s' := by
  rcases h.insertTwoLeaves_cases leaf1 leaf2 with ⟨he, -⟩ | he | ⟨hfit, h1, h2⟩
  · rw [he] at hok; cases hok
  · rw [he] at hok; cases hok
  · obtain ⟨s1, hs1, hh⟩ := h.insertTwoLeaves h1 h2 hfit
    rw [hs1] at hok
    cases hok
    exact ⟨rfl, hh⟩

/-! ## 4. Facts that hold of any storage -/

/-- **What an insertion touches**: the counter, the next slot of the ring, and the stored subtrees
of the levels between the leaves and the root. -/
structure InsertedTwo (idx : Nat × Nat) (s s' : MerkleStorage) : Prop where
  levels : s'.levels = s.levels
  zeroes : s'.zeroes = s.zeroes
  nextIndex : ∃ n, s.nextIndex = some n ∧ idx = (n, n + 1) ∧ s'.nextIndex = some (n + 2)
  ring : ∃ cur hash, s.currentRootIndex = some cur ∧
    s'.currentRootIndex = some ((cur + 1) % rootHistorySize) ∧
    s'.root = Function.update s.root ((cur + 1) % rootHistorySize) (some hash)
  subtrees : ∀ L, s.levels = some L → ∀ l, l < 1 ∨ L ≤ l →
    s'.filledSubtree l = s.filledSubtree l

theorem insertTwoLeaves_frame {idx : Nat × Nat}
    (hok : insertTwoLeaves leaf1 leaf2 s = .ok (idx, s')) : InsertedTwo idx s s' := by
  simp only [MerkleTreeWithHistory.insertTwoLeaves, bind_eq_ok, okOr_eq_ok, ensure_eq_ok,
    Prod.exists, Except.ok.injEq, Prod.mk.injEq, checkedAdd_eq_some, Option.ite_none_right_eq_some,
    Option.some.injEq] at hok
  obtain ⟨L, hL, n, hn, cur, hcur, _, _, _, _, _, ⟨_, rfl⟩, _, _, _, _, hash, m, hpath, _, ⟨_, rfl⟩,
    _, ⟨_, rfl⟩, _, ⟨_, rfl⟩, _, ⟨_, rfl⟩, rfl, rfl⟩ := hok
  refine ⟨rfl, rfl, ⟨n, hn, rfl, rfl⟩, ⟨cur, hash, hcur, rfl, rfl⟩, fun L' hL' l hl => ?_⟩
  obtain rfl : L = L' := Option.some.inj (hL.symm.trans hL')
  exact updatePath_frame hpath l (by omega)

theorem searchRoots_true {root cur : Nat} : ∀ {fuel i : Nat},
    searchRoots s root cur fuel i = .ok true → ∃ j, s.root j = some root
  | 0, _, h => by simp [searchRoots] at h
  | fuel + 1, i, h => by
    rw [searchRoots] at h
    split at h
    · exact ⟨i, ‹_›⟩
    · obtain ⟨j, -, hj⟩ := bind_eq_ok.mp h
      dsimp only at hj
      split at hj
      · simp at hj
      · exact searchRoots_true hj

/-- A known root is in the ring. -/
theorem isKnownRoot_true {root : Nat} (h : isKnownRoot s root = .ok true) :
    ∃ j, s.root j = some root := by
  unfold isKnownRoot at h
  split at h
  · simp at h
  · obtain ⟨_, -, h⟩ := bind_eq_ok.mp h
    exact searchRoots_true h

end MerkleTreeWithHistory

end Veil
