/-
# One tree, computed three ways

The pool inserts leaves in pairs, the allowlist one at a time, and the indexer hashes the
populated paths of the finished tree.  Fed the same leaves, all three arrive at the root of the
complete tree whose other leaves are empty.

`insertPairs` and `insertLeaves` are runs of insertions; their lemmas repeat the one-step lemmas
`MerkleTreeWithHistory.Holds.insertTwoLeaves` and `ASPMembership.Maintains.insertLeaf`.
-/
import Veil.Contract.AspMembership
import Veil.Contract.RootHistory
import Veil.Indexer.Tree

namespace Veil

open Tx

namespace ASPMembership

/-- Insert the leaves one after the other. -/
def insertLeaves (auth : Address → Bool) (leaves : List Nat) (s : AspState) :
    Except (Fault AspError) AspState :=
  leaves.foldlM (fun s leaf => insertLeaf auth leaf s) s

theorem Maintains.insertLeaves {L : Nat} {auth : Address → Bool} : ∀ (new : List Nat)
    {leaves : List Nat} {s : AspState}, Maintains L leaves s → authorizeInsert auth s = .ok () →
    (∀ x ∈ new, x < bn256Modulus) → leaves.length + new.length ≤ 2 ^ L →
    ∃ s', insertLeaves auth new s = .ok s' ∧ Maintains L (leaves ++ new) s'
  | [], leaves, s, h, _, _, _ => ⟨s, rfl, by simpa using h⟩
  | leaf :: new, leaves, s, h, hauth, hlt, hfit => by
    rw [List.length_cons] at hfit
    obtain ⟨s1, hs1, h1, -, hadmin, honly⟩ := h.insertLeaf (hlt leaf (by simp)) (by omega) hauth
    have hauth1 : authorizeInsert auth s1 = .ok () := by
      rw [← hauth, authorizeInsert, authorizeInsert, getAdminInsertOnly, getAdminInsertOnly,
        hadmin, honly]
    obtain ⟨s2, hs2, h2⟩ := Maintains.insertLeaves new h1 hauth1
      (fun x hx => hlt x (by simp [hx])) (by simp; omega)
    refine ⟨s2, ?_, by simpa using h2⟩
    rw [ASPMembership.insertLeaves, List.foldlM_cons, hs1, ok_bind]
    exact hs2

end ASPMembership

/-- **The incremental trees are the full tree.**  For every depth the contracts accept and every
list of leaf pairs that fits, the pool's insertions all succeed, the `i`-th hands out the indices
`2 i` and `2 i + 1`, and the last root is that of the complete tree over those leaves.  The
indexer's `root` returns the same, and so do as many insertions into an allowlist of that
depth. -/
theorem insert_two_leaves_full_tree {L : Nat} (h1 : 1 ≤ L) (h2 : L ≤ 32) (pairs : List (F × F))
    (hfit : 2 * pairs.length ≤ 2 ^ L) (admin : Address) :
    ∃ s0 s t0 t,
      MerkleTreeWithHistory.init L .empty = .ok s0 ∧
      MerkleTreeWithHistory.insertPairs (pairs.map fun p => (p.1.val, p.2.val)) s0 =
        .ok ((List.range pairs.length).map fun i => (2 * i, 2 * i + 1), s) ∧
      s.nextIndex = some (2 * pairs.length) ∧
      MerkleTreeWithHistory.getLastRoot s = .ok (fieldRoot L (flatPairs pairs)).val ∧
      Tree.root L (Tree.indexed (flatPairs pairs)) = .ok (fieldRoot L (flatPairs pairs)) ∧
      ASPMembership.constructor admin L = .ok t0 ∧
      ASPMembership.insertLeaves (· == admin) ((flatPairs pairs).map ZMod.val) t0 = .ok t ∧
      ASPMembership.getRoot t = .ok (fieldRoot L (flatPairs pairs)).val := by
  have hflat : flatPairs (pairs.map fun p => (p.1.val, p.2.val)) =
      (flatPairs pairs).map ZMod.val := by simp [flatPairs, List.flatMap_map, List.map_flatMap]
  have hlt : ∀ x ∈ (flatPairs pairs).map ZMod.val, x < bn256Modulus := by
    intro x hx
    obtain ⟨y, -, rfl⟩ := List.mem_map.mp hx
    exact ZMod.val_lt y
  obtain ⟨s0, hs0, h0⟩ := MerkleTreeWithHistory.holds_init h1 h2
  obtain ⟨s, hs, h⟩ := h0.insertPairs (pairs.map fun p => (p.1.val, p.2.val))
    (hflat ▸ hlt) (by simpa using hfit)
  obtain ⟨t0, ht0, hm0, -, hadmin⟩ := ASPMembership.maintains_constructor admin h1 h2
  have hauth : ASPMembership.authorizeInsert (· == admin) t0 = .ok () := by
    simp [ASPMembership.authorizeInsert, hadmin, requireAuth, ensure, okOr, ok_bind]
  obtain ⟨t, ht, hm⟩ := hm0.insertLeaves _ hauth hlt (by simpa using hfit)
  rw [List.nil_append, hflat] at h
  rw [List.nil_append] at hm
  refine ⟨s0, s, t0, t, hs0, by simpa using hs, by simpa using h.nextIndex, ?_,
    Tree.root_indexed h1 h2 (by simpa using hfit), ht0, ht, ?_⟩
  · rw [h.getLastRoot, val_fieldRoot]
  · rw [ASPMembership.getRoot, hm.root, okOr_some, val_fieldRoot]

/-- Depth 2 filled by its two pairs. -/
theorem insert_two_leaves_full_tree_depth_two : ∃ s0 s,
    MerkleTreeWithHistory.init 2 .empty = .ok s0 ∧
    MerkleTreeWithHistory.insertPairs [(11, 22), (33, 44)] s0 = .ok ([(0, 1), (2, 3)], s) ∧
    MerkleTreeWithHistory.getLastRoot s = .ok (fieldRoot 2 [11, 22, 33, 44]).val := by
  obtain ⟨s0, s, -, -, h0, hs, -, hroot, -⟩ := insert_two_leaves_full_tree (L := 2) (by decide)
    (by decide) [(11, 22), (33, 44)] (by decide) (.account 1)
  exact ⟨s0, s, h0, hs, hroot⟩

end Veil
