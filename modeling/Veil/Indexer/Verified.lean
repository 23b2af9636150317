/-
# Passing verification means the index holds the real leaves

A root is a hash, so two leaf lists with one root are equal only if the hash has no collision among
the pairs that the two trees hash.  Under that assumption the checks bind the rows:

* `check_pool` finds the indices contiguous from 0 and one more than the largest of them equal to
  the on-chain counter, so the stored tree is filled from the left to the same size as the chain's;
  equal roots then make the leaves equal (`checkPool_binds`);
* `check_allowlist` replays the rows into the append-only tree and counts them
  (`checkAllowlist_binds`).

Both end in `Merkle.fullRoot_inj`.
-/
import Veil.Indexer.Verify
import Veil.Merkle.Binding

namespace Veil

open Tx

namespace Verify

/-! ## 1. Contiguous indices -/

theorem eq_range_of_zipIdx {l : List Nat} (h : (l.zipIdx.all fun p => p.1 == p.2) = true) :
    l = List.range l.length := by
  refine List.ext_getElem (by simp) fun i hi _ => ?_
  have hmem : (l[i], i) ∈ l.zipIdx := by
    rw [List.mem_zipIdx_iff_getElem?]
    exact List.getElem?_eq_getElem hi
  have := List.all_eq_true.mp h _ hmem
  rw [List.getElem_range]
  exact eq_of_beq this

/-- The first check: the indices are `0, .., n - 1` in some order. -/
theorem contiguous_perm {leaves : List (Nat × F)} (h : contiguous leaves = true) :
    (leaves.map Prod.fst).Perm (List.range leaves.length) := by
  have hsorted := eq_range_of_zipIdx h
  rw [List.length_insertionSort, List.length_map] at hsorted
  rw [← hsorted]
  exact (List.perm_insertionSort _ _).symm

theorem le_foldl_max {x : Nat} : ∀ (l : List Nat) (a : Nat),
    x ≤ l.foldl max a ↔ x ≤ a ∨ ∃ y ∈ l, x ≤ y
  | [], a => by simp
  | y :: l, a => by
    rw [List.foldl_cons, le_foldl_max l, le_max_iff]
    simp [or_assoc]

/-- The second check: with these indices, one more than the largest is their number. -/
theorem nextIndex_of_perm {leaves : List (Nat × F)} {n : Nat}
    (h : (leaves.map Prod.fst).Perm (List.range n)) : nextIndex leaves = n := by
  have hle : ∀ x, x ≤ nextIndex leaves ↔ x ≤ 0 ∨ ∃ i < n, x ≤ i + 1 := by
    intro x
    rw [nextIndex, le_foldl_max]
    refine or_congr_right ?_
    constructor
    · rintro ⟨y, hy, hx⟩
      obtain ⟨p, hp, rfl⟩ := List.mem_map.mp hy
      exact ⟨p.1, List.mem_range.mp (h.subset (List.mem_map_of_mem hp)), hx⟩
    · rintro ⟨i, hi, hx⟩
      obtain ⟨p, hp, rfl⟩ := List.mem_map.mp (h.symm.subset (List.mem_range.mpr hi))
      exact ⟨p.1 + 1, List.mem_map.mpr ⟨p, hp, rfl⟩, hx⟩
  refine le_antisymm ?_ ?_
  · rcases (hle _).mp le_rfl with h0 | ⟨i, hi, hx⟩
    · omega
    · omega
  · rw [hle]
    rcases Nat.eq_zero_or_pos n with h0 | hpos
    · exact .inl (by omega)
    · exact .inr ⟨n - 1, by omega, by omega⟩

/-! ## 2. The pool -/

/-- The tree positions a row stands for: its own, and for a deposit the zero after it. -/
def rowPositions (row : CommitmentRow) : List (Nat × Nat) :=
  if row.origin = .legacyDeposit then [(row.leafIndex, row.commitment), (row.leafIndex + 1, 0)]
  else [(row.leafIndex, row.commitment)]

/-- The positions of the pool's tree that the rows up to `ledger` stand for. -/
def storedPositions (rows : List CommitmentRow) (pool : Address) (ledger : Nat) :
    List (Nat × Nat) :=
  (poolRows rows pool ledger).flatMap rowPositions

theorem rowLeaves_ok {row : CommitmentRow} {leaves : List (Nat × F)}
    (h : rowLeaves row = .ok leaves) :
    leaves.map (fun l => (l.1, l.2.val)) = rowPositions row := by
  simp only [rowLeaves, bind_eq_ok, Except.ok.injEq] at h
  obtain ⟨leaf, hleaf, rfl⟩ := h
  have hval := Tree.fromU256_ok hleaf
  unfold rowPositions
  split <;> simp [hval]

/-- The leaves the check works on are the positions of the rows. -/
theorem poolLeaves_ok : ∀ {rows : List CommitmentRow} {leaves : List (Nat × F)},
    poolLeaves rows = .ok leaves →
    leaves.map (fun l => (l.1, l.2.val)) = rows.flatMap rowPositions
  | [], leaves, h => by
    rw [← Except.ok.inj h]
    rfl
  | row :: rows, leaves, h => by
    simp only [poolLeaves, bind_eq_ok, Except.ok.injEq] at h
    obtain ⟨l1, h1, l2, h2, rfl⟩ := h
    rw [List.map_append, rowLeaves_ok h1, poolLeaves_ok h2, List.flatMap_cons]

/-- The field elements at the positions of the rows. -/
def storedLeaves (rows : List CommitmentRow) (pool : Address) (ledger : Nat) : List (Nat × F) :=
  (storedPositions rows pool ledger).map fun p => (p.1, (p.2 : F))

theorem poolLeaves_eq {rows : List CommitmentRow} {pool : Address} {ledger : Nat}
    {leaves : List (Nat × F)} (h : poolLeaves (poolRows rows pool ledger) = .ok leaves) :
    leaves = storedLeaves rows pool ledger := by
  rw [storedLeaves, storedPositions, ← poolLeaves_ok h, List.map_map]
  refine ((List.map_congr_left fun p _ => ?_).trans (List.map_id leaves)).symm
  simp

theorem val_lt_two_pow (x : F) : x.val < 2 ^ 256 :=
  (ZMod.val_lt x).trans (bn256Modulus_lt.trans (by norm_num))

variable {L ledger : Nat} {onChain : List F}

/-- **The pool's checks bind its rows.** -/
theorem checkPool_binds (h1 : 1 ≤ L) (h2 : L ≤ 32) (hfit : onChain.length ≤ 2 ^ L)
    {rows : List CommitmentRow} {pool : Address} {checks : List Check}
    (hS : Merkle.NoCollision compress
      (Merkle.treePairs compress (Tree.leafAt (storedLeaves rows pool ledger)) L onChain.length ∪
        Merkle.treePairs compress (Merkle.padded emptyLeaf onChain) L onChain.length))
    (hok : checkPool rows pool ⟨ledger, L, onChain.length, (fieldRoot L onChain).val⟩ = .ok checks)
    (hpass : ∀ c ∈ checks, c.ok = true) :
    (storedPositions rows pool ledger).Perm
      ((Tree.indexed onChain).map fun p => (p.1, p.2.val)) := by
  simp only [checkPool, bind_eq_ok, Except.ok.injEq] at hok
  obtain ⟨leaves, hleaves, computed, hroot, rfl⟩ := hok
  simp only [List.mem_cons, List.not_mem_nil, or_false, forall_eq_or_imp, forall_eq,
    checkBool_ok, checkNat_ok, checkU256_ok (val_lt_two_pow _) (val_lt_two_pow _)] at hpass
  obtain ⟨hcont, hnext, hval⟩ := hpass
  have hpos := poolLeaves_ok hleaves
  obtain rfl := poolLeaves_eq hleaves
  -- contiguity and the counter fix the number of leaves
  have hperm := contiguous_perm hcont
  rw [← nextIndex_of_perm hperm, hnext] at hperm
  obtain ⟨ls, hlen, hls⟩ := Tree.exists_indexed hperm
  have hcap : ls.length ≤ 2 ^ L := hlen ▸ hfit
  rw [Tree.root_of_perm h1 h2 hls hcap, Except.ok.injEq] at hroot
  have heq : ls = onChain := by
    refine Merkle.fullRoot_inj hS hlen hcap ?_ Set.subset_union_right ?_
    · rw [← Tree.leafAt_of_perm hls, hlen]
      exact Set.subset_union_left
    · rw [← hroot] at hval
      exact ZMod.val_injective _ hval
  rw [storedPositions, ← hpos, ← heq]
  exact hls.map _

/-! ## 3. The allowlist -/

theorem Replay.push_ok {r r' : Replay} {row : AllowlistRow} (h : r.push row = .ok r') :
    ∃ leaf, leaf.val = row.leaf ∧ r.tree.push leaf = .ok r'.tree ∧
      r'.replayed = r.replayed + 1 ∧ r'.handedToOperator = r.handedToOperator ∧
      (r'.emittedRootsMatch = true →
        r.emittedRootsMatch = true ∧ row.leafIndex = some r.tree.nextIndex) := by
  simp only [Replay.push, bind_eq_ok, Except.ok.injEq] at h
  obtain ⟨leaf, hleaf, tree, htree, rfl⟩ := h
  refine ⟨leaf, Tree.fromU256_ok hleaf, htree, rfl, rfl, fun hm => ?_⟩
  simp only [Bool.and_eq_true, decide_eq_true_eq] at hm
  exact hm.1

/-- A round that leaves the tree with the contract replayed an addition. -/
theorem Replay.row_ok {r r' : Replay} {row : AllowlistRow} (h : r.row row = .ok r')
    (hopen : r'.handedToOperator = false) :
    r.handedToOperator = false ∧ row.kind = .added ∧
      ∃ leaf, leaf.val = row.leaf ∧ r.tree.push leaf = .ok r'.tree ∧
        r'.replayed = r.replayed + 1 ∧ (r'.emittedRootsMatch = true →
          r.emittedRootsMatch = true ∧ row.leafIndex = some r.tree.nextIndex) := by
  unfold Replay.row at h
  dsimp only at h
  split at h
  · rename_i hhanded
    rw [← Except.ok.inj h] at hopen
    exact absurd (hhanded.symm.trans hopen) (by simp)
  · rename_i hhanded
    rw [Bool.not_eq_true, Bool.or_eq_false_iff, decide_eq_false_iff_not] at hhanded
    obtain ⟨hr, hkind⟩ := hhanded
    obtain ⟨leaf, hleaf, hpush, hcount, -, hmatch⟩ := Replay.push_ok h
    refine ⟨hr, ?_, leaf, hleaf, hpush, hcount, hmatch⟩
    cases hk : row.kind with
    | added => rfl
    | revoked => exact absurd hk hkind

theorem Replay.row_handed {r r' : Replay} {row : AllowlistRow} (h : r.row row = .ok r')
    (hset : r.handedToOperator = true) : r'.handedToOperator = true := by
  unfold Replay.row at h
  simp only [hset, Bool.true_or, if_true, Except.ok.injEq] at h
  rw [← h]

/-- The flag is never cleared. -/
theorem Replay.rows_handed : ∀ {rows : List AllowlistRow} {r r' : Replay},
    Replay.rows rows r = .ok r' → r.handedToOperator = true → r'.handedToOperator = true
  | [], r, r', h, hset => Except.ok.inj h ▸ hset
  | row :: rows, r, r', h, hset => by
    obtain ⟨r1, hrow, hrest⟩ := bind_eq_ok.mp h
    exact Replay.rows_handed hrest (Replay.row_handed hrow hset)

/-- **A replay that ends with the contract** has seen additions only, and its tree has been fed
their leaves.  If every root recomputed, they came at consecutive positions. -/
theorem Replay.rows_ok : ∀ {rows : List AllowlistRow} {r r' : Replay} {ls : List F},
    Replay.rows rows r = .ok r' → r'.handedToOperator = false →
    Tree.IncrementalTree.Replays L ls r.tree →
    r.handedToOperator = false ∧ (∀ row ∈ rows, row.kind = .added) ∧
      r'.replayed = r.replayed + rows.length ∧
      (∃ new : List F, new.map ZMod.val = rows.map (·.leaf) ∧
        Tree.IncrementalTree.Replays L (ls ++ new) r'.tree) ∧
      (r'.emittedRootsMatch = true → r.emittedRootsMatch = true ∧
        rows.map (·.leafIndex) = (List.range' ls.length rows.length).map some)
  | [], r, r', ls, h, hopen, htree => by
    obtain rfl := Except.ok.inj h
    exact ⟨hopen, by simp, by simp, ⟨[], rfl, by simpa using htree⟩, fun hm => ⟨hm, rfl⟩⟩
  | row :: rows, r, r', ls, h, hopen, htree => by
    obtain ⟨r1, hrow, hrest⟩ := bind_eq_ok.mp h
    have hopen1 : r1.handedToOperator = false := by
      by_contra hset
      rw [Replay.rows_handed hrest (by simpa using hset)] at hopen
      cases hopen
    obtain ⟨hr, hkind, leaf, hleaf, hpush, hcount, hmatch⟩ := Replay.row_ok hrow hopen1
    have htree1 := htree.of_push hpush
    obtain ⟨-, hkinds, hcounts, ⟨new, hnew, htree'⟩, hmatches⟩ := Replay.rows_ok hrest hopen htree1
    refine ⟨hr, ?_, ?_, ⟨leaf :: new, ?_, ?_⟩, ?_⟩
    · intro x hx
      rcases List.mem_cons.mp hx with rfl | hx
      · exact hkind
      · exact hkinds x hx
    · rw [hcounts, hcount, List.length_cons]
      omega
    · rw [List.map_cons, List.map_cons, hleaf, hnew]
    · simpa using htree'
    · intro hm
      obtain ⟨hm1, hrest⟩ := hmatches hm
      obtain ⟨hm0, hindex⟩ := hmatch hm1
      refine ⟨hm0, ?_⟩
      rw [htree.nextIndex] at hindex
      rw [List.map_cons, hindex, hrest, List.length_append, List.length_singleton,
        List.length_cons, List.range'_succ, List.map_cons]

/-- **The allowlist's checks bind its rows.** -/
theorem checkAllowlist_binds (h1 : 1 ≤ L) (h2 : L ≤ 32) {rows : List AllowlistRow}
    {allowlist : Address} {checks : List Check}
    (hS : Merkle.NoCollision compress
      (Merkle.treePairs compress (Merkle.padded emptyLeaf
          ((allowlistRows rows allowlist ledger).map fun row => (row.leaf : F))) L onChain.length ∪
        Merkle.treePairs compress (Merkle.padded emptyLeaf onChain) L onChain.length))
    (hok : checkAllowlist rows allowlist
      ⟨ledger, L, onChain.length, (fieldRoot L onChain).val, false⟩ = .ok checks)
    (hpass : ∀ c ∈ checks, c.ok = true) :
    (∀ row ∈ allowlistRows rows allowlist ledger, row.kind = .added) ∧
      (allowlistRows rows allowlist ledger).map (·.leaf) = onChain.map ZMod.val ∧
      (allowlistRows rows allowlist ledger).map (·.leafIndex) =
        (List.range onChain.length).map some := by
  simp only [checkAllowlist, bind_eq_ok, Except.ok.injEq] at hok
  obtain ⟨tree, htree, r, hrows, rfl⟩ := hok
  obtain ⟨t0, ht0, hreplays⟩ := Tree.IncrementalTree.replays_new h1 h2
  obtain rfl : t0 = tree := Except.ok.inj (ht0.symm.trans htree)
  -- the second check says that the operator never had the tree, so all five are there
  have hopen : r.handedToOperator = false := by
    have := hpass (checkBool "allowlist: operator-maintained" r.handedToOperator false)
      (by simp [Replay.checks])
    exact checkBool_ok.mp this
  simp only [Replay.checks, hopen, Bool.false_eq_true, if_false, List.cons_append,
    List.nil_append, List.mem_cons, List.not_mem_nil, or_false, forall_eq_or_imp, forall_eq,
    checkBool_ok, checkNat_ok, checkU256_ok (val_lt_two_pow _) (val_lt_two_pow _)] at hpass
  obtain ⟨hmatch, -, -, hroot, hcount⟩ := hpass
  obtain ⟨-, hkinds, hreplayed, ⟨new, hnew, hnewtree⟩, hindices⟩ :=
    Replay.rows_ok hrows hopen hreplays
  rw [List.nil_append] at hnewtree
  have hrowcount : (allowlistRows rows allowlist ledger).length = onChain.length := by
    rw [← hcount, hreplayed, Nat.zero_add]
  have hlen : new.length = onChain.length := by
    have hmap := congrArg List.length hnew
    rw [List.length_map, List.length_map] at hmap
    exact hmap.trans hrowcount
  have hcast : (allowlistRows rows allowlist ledger).map (fun row => (row.leaf : F)) = new := by
    have := congrArg (List.map (Nat.cast : Nat → F)) hnew
    rw [List.map_map, List.map_map] at this
    rw [← Function.comp_def (Nat.cast : Nat → F), ← this]
    exact (List.map_congr_left fun x _ => ZMod.natCast_zmod_val x).trans (List.map_id new)
  have heq : new = onChain := by
    refine Merkle.fullRoot_inj hS hlen hnewtree.fits ?_ Set.subset_union_right ?_
    · rw [hcast, hlen]
      exact Set.subset_union_left
    · rw [hnewtree.root] at hroot
      exact ZMod.val_injective _ hroot
  refine ⟨hkinds, by rw [← hnew, heq], ?_⟩
  rw [(hindices hmatch).2, List.length_nil, ← List.range_eq_range', hrowcount]

/-! ## 4. Both contracts -/

/-- **Passing verification means the index holds the real leaves.**  Let the chain's tree have any
depth the contracts accept and hold the field elements `onChain`, and let the hash have no
collision among the pairs that the stored tree and the chain's tree hash.

* Whatever rows `pool_commitments` holds, if `check_pool` returns and its checks pass, then the
  rows of the pool up to the state's ledger, with a zero after each legacy deposit, are the leaves
  of the chain at their positions.
* Whatever rows `allowlist_events` holds, if `check_allowlist` returns for an allowlist that was
  not handed over and its checks pass, then the rows up to the state's ledger are all additions,
  of the leaves of the chain, in order. -/
theorem verified_index_holds_the_leaves (h1 : 1 ≤ L) (h2 : L ≤ 32) (ledger : Nat)
    (onChain : List F) (hfit : onChain.length ≤ 2 ^ L) :
    (∀ (rows : List CommitmentRow) (pool : Address) (checks : List Check),
      Merkle.NoCollision compress
        (Merkle.treePairs compress (Tree.leafAt (storedLeaves rows pool ledger)) L
            onChain.length ∪
          Merkle.treePairs compress (Merkle.padded emptyLeaf onChain) L onChain.length) →
      checkPool rows pool ⟨ledger, L, onChain.length, (fieldRoot L onChain).val⟩ = .ok checks →
      (∀ c ∈ checks, c.ok = true) →
      (storedPositions rows pool ledger).Perm
        ((Tree.indexed onChain).map fun p => (p.1, p.2.val))) ∧
    ∀ (rows : List AllowlistRow) (allowlist : Address) (checks : List Check),
      Merkle.NoCollision compress
        (Merkle.treePairs compress (Merkle.padded emptyLeaf
            ((allowlistRows rows allowlist ledger).map fun row => (row.leaf : F))) L
            onChain.length ∪
          Merkle.treePairs compress (Merkle.padded emptyLeaf onChain) L onChain.length) →
      checkAllowlist rows allowlist
        ⟨ledger, L, onChain.length, (fieldRoot L onChain).val, false⟩ = .ok checks →
      (∀ c ∈ checks, c.ok = true) →
      (∀ row ∈ allowlistRows rows allowlist ledger, row.kind = .added) ∧
        (allowlistRows rows allowlist ledger).map (·.leaf) = onChain.map ZMod.val ∧
        (allowlistRows rows allowlist ledger).map (·.leafIndex) =
          (List.range onChain.length).map some := by
  refine ⟨?_, ?_⟩
  · intro rows pool checks hS hok hpass
    exact checkPool_binds h1 h2 hfit hS hok hpass
  · intro rows allowlist checks hS hok hpass
    exact checkAllowlist_binds h1 h2 hS hok hpass

/-- A deposit of the closed path, which stands for two leaves, and the two outputs of a payment, out
of order; then an output of another pool and one of a later ledger. -/
def sampleRows : List CommitmentRow :=
  [⟨.firstOperation 6 1, .contract 1, 3, 14, some [], .transact, 6⟩,
    ⟨.firstOperation 5 0, .contract 1, 0, 11, none, .legacyDeposit, 5⟩,
    ⟨.firstOperation 6 0, .contract 1, 2, 13, some [], .transact, 6⟩,
    ⟨.firstOperation 6 2, .contract 3, 0, 15, some [], .transact, 6⟩,
    ⟨.firstOperation 8 0, .contract 1, 4, 16, some [], .transact, 8⟩]

/-- Three additions, out of order, and one of a later ledger. -/
def sampleAdditions : List AllowlistRow :=
  [⟨.firstOperation 6 0, .contract 2, .added, 22, some 1, (fieldRoot 3 [21, 22]).val, 6⟩,
    ⟨.firstOperation 5 0, .contract 2, .added, 21, some 0, (fieldRoot 3 [21]).val, 5⟩,
    ⟨.firstOperation 7 0, .contract 2, .added, 23, some 2, (fieldRoot 3 [21, 22, 23]).val, 7⟩,
    ⟨.firstOperation 8 0, .contract 2, .added, 24, some 3, 0, 8⟩]

/-- Trees of depth 3 as of ledger 7.  The pairs that they hash have distinct hashes. -/
theorem verified_index_holds_the_leaves_deposit :
    (storedPositions sampleRows (.contract 1) 7).Perm
        ((Tree.indexed ([11, 0, 13, 14] : List F)).map fun p => (p.1, p.2.val)) ∧
      (∀ row ∈ allowlistRows sampleAdditions (.contract 2) 7, row.kind = .added) ∧
      (allowlistRows sampleAdditions (.contract 2) 7).map (·.leaf) =
        ([21, 22, 23] : List F).map ZMod.val := by
  have hpool : okAnd (checkPool sampleRows (.contract 1)
      ⟨7, 3, 4, (fieldRoot 3 [11, 0, 13, 14]).val⟩) (fun checks => checks.all Check.ok) = true := by
    decide +kernel
  have hallowlist : okAnd (checkAllowlist sampleAdditions (.contract 2)
      ⟨7, 3, 3, (fieldRoot 3 [21, 22, 23]).val, false⟩) (fun checks => checks.all Check.ok) =
      true := by decide +kernel
  obtain ⟨poolChecks, hpool, hpass⟩ := okAnd_eq_true.mp hpool
  obtain ⟨allowlistChecks, hallowlist, hpass'⟩ := okAnd_eq_true.mp hallowlist
  have hleaves := (verified_index_holds_the_leaves (L := 3) (by decide) (by decide) 7
    [11, 0, 13, 14] (by decide)).1 _ _ poolChecks
    (Merkle.noCollision_of_pairList (by decide +kernel) (by decide +kernel)) hpool
    (List.all_eq_true.mp hpass)
  obtain ⟨hkinds, hadded, -⟩ := (verified_index_holds_the_leaves (L := 3) (by decide) (by decide) 7
    [21, 22, 23] (by decide)).2 _ _ allowlistChecks
    (Merkle.noCollision_of_pairList (by decide +kernel) (by decide +kernel)) hallowlist
    (List.all_eq_true.mp hpass')
  exact ⟨hleaves, hkinds, hadded⟩

end Verify

end Veil
