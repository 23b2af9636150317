/-
# What a served path proves

`GET /v1/pool/leaves/{leaf_index}/path` and `GET /v1/allowlist/leaves/{leaf}/path`, answered from
tables of which nothing is known: they may lack rows, hold rows that were never emitted or stand
beside a wrong depth.

An answer that is given leads all the same from its leaf to its own root (`Leads`), because both
handlers hash the path and the root in one climb.  The leaf of the allowlist's answer is the one
asked for, and the leaf of the pool's answer is one of its rows.  What the tables decide is only
whether the root is one the contract holds.
-/
import Veil.Api.AllowlistPath

namespace Veil

open Tx

/-! ## 1. The climb -/

namespace Tree

/-- **The path leads from its leaf to its root**, over `L` levels. -/
structure MerklePath.Leads (p : MerklePath) (L : Nat) : Prop where
  index : p.index < 2 ^ L
  siblings : p.siblings.length = L
  folds : Merkle.foldPath compress p.siblings p.index p.leaf = p.root

theorem zeroes_inv {L : Nat} {hashes : List F} (h : zeroes L = .ok hashes) : 1 ≤ L ∧ L ≤ 32 := by
  obtain ⟨_, hlevels, -⟩ := bind_eq_ok.mp h
  have hdepth := ensure_eq_ok.mp hlevels
  unfold maxLevels at hdepth
  omega

/-- **Every path leads**, and starts at the leaf given for its index. -/
theorem path_leads {L index : Nat} {leaves : List (Nat × F)} {p : MerklePath}
    (h : path L leaves index = .ok (some p)) :
    p.Leads L ∧ p.index = index ∧ (index, p.leaf) ∈ leaves ∧ Fits L leaves := by
  obtain ⟨hashes, hzeroes, -⟩ := bind_eq_ok.mp h
  obtain ⟨h1, h2⟩ := zeroes_inv hzeroes
  have hfits : Fits L leaves := (exists_path_iff h1 h2 leaves index).mp ⟨_, h⟩
  by_cases hmem : ∃ leaf, (index, leaf) ∈ leaves
  · obtain ⟨leaf, hmem⟩ := hmem
    have hindex : index < 2 ^ L := hfits.1 _ hmem
    have hleaf : leafAt leaves index = leaf := by
      rw [leafAt, Assoc.lookup_eq_some_of_mem hfits.2 hmem, Option.getD_some]
    rw [path_served h1 h2 hfits hmem] at h
    obtain rfl := Option.some.inj (Except.ok.inj h)
    refine ⟨⟨hindex, Merkle.length_siblings _ _ _, ?_⟩, rfl, hmem, hfits⟩
    dsimp only
    rw [← hleaf]
    exact foldPath_siblings_root (leafAt leaves) hindex
  · have hnone : ∀ q ∈ leaves, q.1 ≠ index := by
      rintro q hq rfl
      exact hmem ⟨q.2, hq⟩
    rw [path_none h1 h2 hfits hnone] at h
    cases h

end Tree

/-! ## 2. The pool -/

namespace Api

theorem mem_asTree : ∀ {leaves : List PoolLeaf} {tree : List (Nat × F)} {i : Nat} {x : F},
    asTree leaves = .ok tree → (i, x) ∈ tree → ∃ leaf ∈ leaves, leaf.index = i ∧ leaf.value = x.val
  | [], tree, i, x, h, hx => by
    obtain rfl : [] = tree := Except.ok.inj h
    cases hx
  | leaf :: leaves, tree, i, x, h, hx => by
    obtain ⟨field, hfield, h⟩ := bind_eq_ok.mp h
    obtain ⟨rest, hrest, h⟩ := bind_eq_ok.mp h
    obtain rfl := Except.ok.inj h
    rcases List.mem_cons.mp hx with heq | hx
    · obtain ⟨rfl, rfl⟩ := Prod.mk.inj heq
      exact ⟨leaf, List.mem_cons_self, rfl, (Tree.fromU256_ok (mapError_eq_ok.mp hfield)).symm⟩
    · obtain ⟨leaf', hleaf', heq⟩ := mem_asTree hrest hx
      exact ⟨leaf', List.mem_cons_of_mem _ hleaf', heq⟩

/-- A leaf of the listing is one of a row of this pool. -/
theorem mem_poolLeaves {db : Database} {pool : Address} {first : Nat} {limit : Option Nat}
    {leaf : PoolLeaf} (h : leaf ∈ poolLeaves db pool first limit) :
    ∃ row ∈ db.index.tables.commitments, row.pool = pool ∧ leaf ∈ rowLeaves row := by
  have htake : ∀ leaves : List PoolLeaf, leaf ∈ limit.elim leaves leaves.take → leaf ∈ leaves := by
    intro leaves hleaf
    cases limit with
    | none => exact hleaf
    | some limit => exact List.mem_of_mem_take hleaf
  obtain ⟨hleaf, -⟩ := List.mem_filter.mp (htake _ h)
  obtain ⟨row, hrow, hleaf⟩ := List.mem_flatMap.mp hleaf
  have hselected := List.mem_filter.mp ((List.mem_insertionSort _).mp (List.mem_of_mem_take hrow))
  exact ⟨row, hselected.1, (of_decide_eq_true hselected.2).1, hleaf⟩

/-- **A path of the pool** leads from a stored leaf at the index asked for. -/
theorem poolPath_ok {db : Database} {pool : Address} {i : Nat} {path : MerklePath}
    (h : poolPath db pool i = .ok path) : ∃ L proof, path = merklePath proof (indexedLedger db) ∧
      proof.Leads L ∧ proof.index = i ∧ ∃ row ∈ db.index.tables.commitments, row.pool = pool ∧
        ∃ leaf ∈ rowLeaves row, leaf.index = i ∧ leaf.value = proof.leaf.val := by
  obtain ⟨L, -, h⟩ := bind_eq_ok.mp h
  obtain ⟨tree, htree, h⟩ := bind_eq_ok.mp h
  obtain ⟨found, hfound, h⟩ := bind_eq_ok.mp h
  obtain ⟨proof, hproof, h⟩ := bind_eq_ok.mp h
  obtain rfl := Except.ok.inj h
  rw [okOr_eq_ok.mp hproof] at hfound
  obtain ⟨hleads, hindex, hmem, -⟩ := Tree.path_leads (mapError_eq_ok.mp hfound)
  obtain ⟨leaf, hleaf, hi, hvalue⟩ := mem_asTree htree hmem
  obtain ⟨row, hrow, hpool, hleaf⟩ := mem_poolLeaves hleaf
  exact ⟨L, proof, rfl, hleads, hindex, row, hrow, hpool, leaf, hleaf, hi, hvalue⟩

/-- **The pool's path of a leaf in the tree**, for leaves that fit the depth on record. -/
theorem poolPath_served {db : Database} {pool : Address} {L : Nat} {tree : List (Nat × F)}
    (hlevels : levels db pool = .ok L) (htree : asTree (poolLeaves db pool 0 none) = .ok tree)
    (h1 : 1 ≤ L) (h2 : L ≤ 32) (hfits : Tree.Fits L tree) {i : Nat} {leaf : F}
    (hmem : (i, leaf) ∈ tree) : ∃ proof, poolPath db pool i =
      .ok (merklePath proof (indexedLedger db)) ∧ proof.siblings.length = L ∧
      proof.root = Merkle.nodeAt compress (Tree.leafAt tree) L 0 := by
  refine ⟨⟨i, leaf, Merkle.siblings compress (Tree.leafAt tree) L 0 i, _⟩, ?_,
    Merkle.length_siblings _ _ _, rfl⟩
  simp only [poolPath, hlevels, htree, Tree.path_served h1 h2 hfits hmem, ok_bind, Except.mapError,
    okOr_some]

/-! ## 3. The allowlist -/

namespace Routes

/-- The loop keeps what it has and adds every row at its index. -/
theorem mem_of_replayAdditions : ∀ {rows : List AllowlistRow} {t t' : Tree.IncrementalTree}
    {acc leaves : List (Nat × F)}, replayAdditions rows t acc = .ok (t', leaves) →
    acc <+: leaves ∧ ∀ row ∈ rows, ∃ i x, row.leafIndex = some i ∧ x.val = row.leaf ∧
      (i, x) ∈ leaves
  | [], t, t', acc, leaves, h => by
    obtain ⟨-, rfl⟩ := Prod.mk.inj (Except.ok.inj h)
    exact ⟨List.prefix_rfl, by simp⟩
  | row :: rows, t, t', acc, leaves, h => by
    obtain ⟨field, hfield, h⟩ := bind_eq_ok.mp h
    obtain ⟨_, hindex, h⟩ := bind_eq_ok.mp h
    obtain ⟨pushed, hpush, h⟩ := bind_eq_ok.mp h
    obtain ⟨_, -, hpushed⟩ := bind_eq_ok.mp (mapError_eq_ok.mp hpush)
    have hnext : pushed.nextIndex - 1 = t.nextIndex := by
      obtain rfl := Except.ok.inj hpushed
      rfl
    rw [hnext] at h
    obtain ⟨hbegins, hrows⟩ := mem_of_replayAdditions h
    refine ⟨(List.prefix_append _ _).trans hbegins, fun r hr => ?_⟩
    rcases List.mem_cons.mp hr with rfl | hr
    · exact ⟨t.nextIndex, field, ensure_eq_ok.mp hindex,
        Tree.fromU256_ok (mapError_eq_ok.mp hfield), hbegins.subset (by simp)⟩
    · exact hrows r hr

end Routes

/-- **A path of the allowlist** leads from the leaf asked for. -/
theorem allowlistPath_ok {db : Database} {contract : Address} {value : String} {path : MerklePath}
    (h : Routes.allowlistPath db contract value = .ok path) {wanted : Nat}
    (hwanted : parseU256 value "leaf" = .ok wanted) :
    ∃ L proof, path = merklePath proof (indexedLedger db) ∧ proof.Leads L ∧
      proof.leaf.val = wanted := by
  rw [Routes.allowlistPath, hwanted, ok_bind] at h
  obtain ⟨L, -, h⟩ := bind_eq_ok.mp h
  obtain ⟨_, -, h⟩ := bind_eq_ok.mp h
  obtain ⟨_, -, h⟩ := bind_eq_ok.mp h
  obtain ⟨⟨_, leaves⟩, hreplay, h⟩ := bind_eq_ok.mp h
  obtain ⟨_, -, h⟩ := bind_eq_ok.mp h
  obtain ⟨index, hindex, h⟩ := bind_eq_ok.mp h
  obtain ⟨found, hfound, h⟩ := bind_eq_ok.mp h
  obtain ⟨proof, hproof, h⟩ := bind_eq_ok.mp h
  obtain rfl := Except.ok.inj h
  rw [okOr_eq_ok.mp hproof] at hfound
  obtain ⟨hleads, -, hmem, hfits⟩ := Tree.path_leads (mapError_eq_ok.mp hfound)
  refine ⟨L, proof, rfl, hleads, ?_⟩
  -- the index is that of a row for the leaf asked for
  obtain ⟨row, hrow, hat⟩ := Option.bind_eq_some_iff.mp (okOr_eq_ok.mp hindex)
  have hleaf : row.leaf = wanted := by simpa using List.find?_some hrow
  obtain ⟨i, x, hi, hx, hlisted⟩ := (Routes.mem_of_replayAdditions hreplay).2 row
    (List.mem_reverse.mp (List.mem_of_find?_eq_some hrow))
  obtain rfl : i = index := Option.some.inj (hi.symm.trans hat)
  have hlookup := Assoc.lookup_eq_some_of_mem hfits.2 hmem
  rw [Assoc.lookup_eq_some_of_mem hfits.2 hlisted] at hlookup
  rw [← Option.some.inj hlookup, hx, hleaf]

end Api

end Veil
