/-
# Which roots the pool accepts

`is_known_root` of `contracts/pool/src/merkle_with_history.rs` looks for a root in a ring of
`ROOT_HISTORY_SIZE` slots.  The ring starts with the empty root in slot 0 and every insertion takes
the next slot, so it is a `Ring` of the roots so far (`Ringed`), and the search goes round it once
(`searchRoots_round`).  Together: a root is known exactly as long as fewer than `ROOT_HISTORY_SIZE`
insertions came after it, and the search ends wherever the ring stands.
-/
import Veil.Core.Ring
import Veil.Contract.MerkleWithHistory

namespace Veil

open Tx Unsigned

/-! ## 1. Insertions in sequence -/

/-- The leaves of a list of pairs, in order. -/
def flatPairs {α : Type} (pairs : List (α × α)) : List α := pairs.flatMap fun p => [p.1, p.2]

@[simp] theorem flatPairs_nil {α : Type} : flatPairs ([] : List (α × α)) = [] := rfl

@[simp] theorem flatPairs_cons {α : Type} (p : α × α) (ps : List (α × α)) :
    flatPairs (p :: ps) = p.1 :: p.2 :: flatPairs ps := rfl

@[simp] theorem length_flatPairs {α : Type} (ps : List (α × α)) :
    (flatPairs ps).length = 2 * ps.length := by
  induction ps with
  | nil => rfl
  | cons p ps ih => simp only [flatPairs_cons, List.length_cons, ih]; omega

namespace MerkleTreeWithHistory

/-- Insert the pairs in order, and return the indices each call handed out. -/
def insertPairs : List (Nat × Nat) → MerkleStorage →
    Except (Fault MerkleError) (List (Nat × Nat) × MerkleStorage)
  | [], s => .ok ([], s)
  | (leaf1, leaf2) :: pairs, s => do
    let (idx, s) ← insertTwoLeaves leaf1 leaf2 s
    let (idxs, s) ← insertPairs pairs s
    .ok (idx :: idxs, s)

/-- **Every run of insertions that fits succeeds** and hands out consecutive indices. -/
theorem Holds.insertPairs {L : Nat} : ∀ (pairs : List (Nat × Nat)) {leaves : List Nat}
    {s : MerkleStorage}, Holds L leaves s → (∀ x ∈ flatPairs pairs, x < bn256Modulus) →
    leaves.length + 2 * pairs.length ≤ 2 ^ L →
    ∃ s', insertPairs pairs s = .ok ((List.range pairs.length).map
        (fun i => (leaves.length + 2 * i, leaves.length + 2 * i + 1)), s') ∧
      Holds L (leaves ++ flatPairs pairs) s'
  | [], leaves, s, h, _, _ => ⟨s, rfl, by simpa using h⟩
  | (leaf1, leaf2) :: pairs, leaves, s, h, hlt, hfit => by
    have hfit' : leaves.length + 2 + 2 * pairs.length ≤ 2 ^ L := by
      simpa [Nat.mul_add, Nat.add_assoc, Nat.add_comm 2] using hfit
    obtain ⟨s1, hs1, h1⟩ := h.insertTwoLeaves (hlt leaf1 (by simp)) (hlt leaf2 (by simp))
      (by omega)
    obtain ⟨s2, hs2, h2⟩ := Holds.insertPairs pairs h1
      (fun x hx => hlt x (by simp [hx])) (by simpa using hfit')
    refine ⟨s2, ?_, by simpa using h2⟩
    rw [MerkleTreeWithHistory.insertPairs, hs1, ok_bind]
    simp only [hs2, ok_bind, List.length_cons, List.range_succ_eq_map, List.map_cons, List.map_map,
      List.length_append, List.length_nil]
    congr 3
    refine List.map_congr_left fun i _ => ?_
    simp only [Function.comp_apply, Nat.succ_eq_add_one, Prod.mk.injEq]
    omega

/-- Each insertion of a run succeeded. -/
theorem insertPairs_cons {leaf1 leaf2 : Nat} {pairs idxs : List (Nat × Nat)} {s s' : MerkleStorage}
    (h : insertPairs ((leaf1, leaf2) :: pairs) s = .ok (idxs, s')) :
    ∃ idx rest s1, insertTwoLeaves leaf1 leaf2 s = .ok (idx, s1) ∧
      insertPairs pairs s1 = .ok (rest, s') := by
  obtain ⟨⟨idx, s1⟩, h1, h⟩ := bind_eq_ok.mp h
  obtain ⟨⟨rest, s2⟩, h2, h⟩ := bind_eq_ok.mp h
  obtain ⟨-, rfl⟩ := Prod.mk.inj (Except.ok.inj h)
  exact ⟨idx, rest, s1, h1, h2⟩

/-- The first `j` insertions of a run. -/
theorem insertPairs_take : ∀ {pairs idxs : List (Nat × Nat)} {s s' : MerkleStorage} (j : Nat),
    insertPairs pairs s = .ok (idxs, s') →
    ∃ idxs' sj, insertPairs (pairs.take j) s = .ok (idxs', sj)
  | _, _, s, _, 0, _ => ⟨[], s, by rw [List.take_zero]; rfl⟩
  | [], _, s, _, j + 1, _ => ⟨[], s, rfl⟩
  | (leaf1, leaf2) :: pairs, _, s, _, j + 1, h => by
    obtain ⟨idx, rest, s1, h1, h2⟩ := insertPairs_cons h
    obtain ⟨idxs', sj, hj⟩ := insertPairs_take j h2
    exact ⟨idx :: idxs', sj, bind_eq_ok.mpr ⟨_, h1, bind_eq_ok.mpr ⟨_, hj, rfl⟩⟩⟩

/-- The root after the first `j` insertions; the empty root for `j = 0`. -/
def rootAfter (L : Nat) (pairs : List (Nat × Nat)) (j : Nat) : Nat :=
  treeRoot L (flatPairs (pairs.take j))

/-- All roots so far, oldest first. -/
def rootsOf (L : Nat) (pairs : List (Nat × Nat)) : List Nat :=
  (List.range (pairs.length + 1)).map (rootAfter L pairs)

theorem rootsOf_length (L : Nat) (pairs : List (Nat × Nat)) :
    (rootsOf L pairs).length = pairs.length + 1 := by
  rw [rootsOf, List.length_map, List.length_range]

theorem rootsOf_getElem? {L j x : Nat} {pairs : List (Nat × Nat)} :
    (rootsOf L pairs)[j]? = some x ↔ j ≤ pairs.length ∧ x = rootAfter L pairs j := by
  rw [rootsOf, List.getElem?_map, Option.map_eq_some_iff]
  constructor
  · rintro ⟨i, hi, rfl⟩
    obtain ⟨hlt, rfl⟩ := List.getElem?_eq_some_iff.mp hi
    rw [List.length_range] at hlt
    rw [List.getElem_range]
    exact ⟨by omega, rfl⟩
  · rintro ⟨hj, rfl⟩
    exact ⟨j, List.getElem?_range (by omega), rfl⟩

theorem rootsOf_concat (L : Nat) (pairs : List (Nat × Nat)) (p : Nat × Nat) :
    rootsOf L (pairs ++ [p]) = rootsOf L pairs ++ [treeRoot L (flatPairs pairs ++ [p.1, p.2])] := by
  have hlen : (pairs ++ [p]).length + 1 = (pairs.length + 1) + 1 := by simp
  rw [rootsOf, hlen, List.range_succ, List.map_append, List.map_singleton]
  congr 1
  · refine List.map_congr_left fun j hj => ?_
    have := List.mem_range.mp hj
    rw [rootAfter, rootAfter, List.take_append_of_le_length (by omega)]
  · rw [rootAfter, List.take_of_length_le (by simp), flatPairs, List.flatMap_append]
    rfl

/-! ## 2. The ring -/

/-- **The storage after `pairs`**: the tree over their leaves, and the ring of all roots so far. -/
structure Ringed (L : Nat) (pairs : List (Nat × Nat)) (s : MerkleStorage) : Prop where
  tree : Holds L (flatPairs pairs) s
  current : s.currentRootIndex = some (pairs.length % rootHistorySize)
  ring : Ring.Holds rootHistorySize (rootsOf L pairs) s.root

variable {L : Nat} {pairs : List (Nat × Nat)} {s s' : MerkleStorage}

theorem ringed_init (h1 : 1 ≤ L) (h2 : L ≤ 32) (hinit : init L .empty = .ok s) : Ringed L [] s := by
  obtain ⟨s1, hs1, hholds⟩ := holds_init h1 h2
  obtain rfl : s1 = s := Except.ok.inj (hs1.symm.trans hinit)
  obtain ⟨_, -, hinit⟩ := bind_eq_ok.mp hinit
  obtain ⟨_, -, hinit⟩ := bind_eq_ok.mp hinit
  obtain ⟨⟨_, _⟩, -, hinit⟩ := bind_eq_ok.mp hinit
  obtain ⟨root0, -, hinit⟩ := bind_eq_ok.mp hinit
  obtain rfl := Except.ok.inj hinit
  obtain ⟨r, -, hcur, hroot⟩ := hholds.current
  obtain rfl : 0 = r := Option.some.inj hcur
  obtain rfl : root0 = treeRoot L [] := by
    simp only [Function.update_self] at hroot
    exact Option.some.inj hroot
  exact ⟨hholds, rfl, Ring.holds_nil.push (treeRoot L [])⟩

theorem Ringed.insert {idx : Nat × Nat} {p : Nat × Nat} (h : Ringed L pairs s)
    (hok : insertTwoLeaves p.1 p.2 s = .ok (idx, s')) : Ringed L (pairs ++ [p]) s' := by
  obtain ⟨-, htree⟩ := h.tree.of_insertTwoLeaves hok
  obtain ⟨cur, hash, hcur, hcur', hroot⟩ := (insertTwoLeaves_frame hok).ring
  obtain rfl : pairs.length % rootHistorySize = cur := Option.some.inj (h.current.symm.trans hcur)
  have hslot : (pairs.length % rootHistorySize + 1) % rootHistorySize =
      (pairs.length + 1) % rootHistorySize := by
    rw [Nat.mod_add_mod]
  rw [hslot] at hcur' hroot
  -- the slot just written is the current one, which holds the root of the new tree
  obtain ⟨r, -, hr, hlast⟩ := htree.current
  obtain rfl : (pairs.length + 1) % rootHistorySize = r := Option.some.inj (hcur'.symm.trans hr)
  rw [hroot, Function.update_self] at hlast
  have hleaves : flatPairs (pairs ++ [p]) = flatPairs pairs ++ [p.1, p.2] := by
    rw [flatPairs, List.flatMap_append]
    rfl
  refine ⟨by rw [hleaves]; exact htree, by rw [hcur', List.length_append, List.length_singleton],
    ?_⟩
  rw [rootsOf_concat, hroot, Option.some.inj hlast]
  have hpush := h.ring.push (treeRoot L (flatPairs pairs ++ [p.1, p.2]))
  rwa [rootsOf_length] at hpush

/-- **Every sequence of insertions keeps the ring.** -/
theorem Ringed.run : ∀ {ps pairs : List (Nat × Nat)} {s : MerkleStorage}, Ringed L pairs s →
    ∀ {idxs : List (Nat × Nat)}, insertPairs ps s = .ok (idxs, s') → Ringed L (pairs ++ ps) s'
  | [], pairs, s, h, _, hrun => by
    obtain ⟨-, rfl⟩ := Prod.mk.inj (Except.ok.inj hrun)
    rwa [List.append_nil]
  | p :: ps, pairs, s, h, _, hrun => by
    obtain ⟨idx, rest, s1, hp, hrun⟩ := insertPairs_cons hrun
    have := (h.insert hp).run hrun
    rwa [List.append_assoc] at this

/-! ## 3. The search -/

/-- **From any slot the search goes round once**: started `d` slots after the current one with as
much fuel as slots are left, it ends, and it finds what is in one of these slots. -/
theorem searchRoots_round {root cur : Nat} (hcur : cur < rootHistorySize) : ∀ {fuel d : Nat},
    d < rootHistorySize → rootHistorySize ≤ d + fuel →
    ∃ b, searchRoots s root cur fuel ((cur + d) % rootHistorySize) = .ok b ∧
      (b = true ↔ ∃ t < rootHistorySize, d ≤ t ∧ s.root ((cur + t) % rootHistorySize) = some root)
  | 0, d, hd, hfuel => by omega
  | fuel + 1, d, hd, hfuel => by
    rw [searchRoots]
    by_cases hfound : s.root ((cur + d) % rootHistorySize) = some root
    · rw [if_pos hfound]
      exact ⟨true, rfl, by simpa using ⟨d, hd, le_rfl, hfound⟩⟩
    rw [if_neg hfound]
    have hslot : (cur + d) % rootHistorySize < rootHistorySize := Nat.mod_lt _ (by decide)
    have hadd : checkedAdd 32 ((cur + d) % rootHistorySize) 1 =
        some ((cur + d) % rootHistorySize + 1) := by
      rw [checkedAdd_eq_some]
      unfold rootHistorySize at hslot ⊢
      omega
    rw [hadd, okOr_some, ok_bind, Nat.mod_add_mod]
    have hrest : ∀ t, s.root ((cur + t) % rootHistorySize) = some root → t ≠ d := by
      rintro t ht rfl
      exact hfound ht
    by_cases hback : (cur + d + 1) % rootHistorySize = cur
    · -- back at the start: no slot is left
      rw [if_pos hback]
      refine ⟨false, rfl, by simp, ?_⟩
      rintro ⟨t, ht, hdt, hroot⟩
      have := hrest t hroot
      unfold rootHistorySize at *
      omega
    · rw [if_neg hback]
      have hd' : d + 1 < rootHistorySize := by
        unfold rootHistorySize at *
        omega
      have hfuel' : rootHistorySize ≤ d + 1 + fuel := by omega
      obtain ⟨b, hb, hiff⟩ := searchRoots_round hcur hd' hfuel'
      refine ⟨b, hb, hiff.trans ⟨?_, ?_⟩⟩
      · rintro ⟨t, ht, hdt, hroot⟩
        exact ⟨t, ht, by omega, hroot⟩
      · rintro ⟨t, ht, hdt, hroot⟩
        have := hrest t hroot
        exact ⟨t, ht, by omega, hroot⟩

/-- **The search finds the last `ROOT_HISTORY_SIZE` roots.** -/
theorem Ringed.search (h : Ringed L pairs s) {fuel : Nat} (hfuel : rootHistorySize ≤ fuel)
    (root : Nat) :
    ∃ found, searchRoots s root (pairs.length % rootHistorySize) fuel
        (pairs.length % rootHistorySize) = .ok found ∧
      (found = true ↔ ∃ j, pairs.length - 89 ≤ j ∧ j ≤ pairs.length ∧
        root = rootAfter L pairs j) := by
  have hcur : pairs.length % rootHistorySize < rootHistorySize := Nat.mod_lt _ (by decide)
  have hfuel' : rootHistorySize ≤ 0 + fuel := by omega
  obtain ⟨found, hfound, hiff⟩ := searchRoots_round hcur (by decide) hfuel'
  rw [Nat.add_zero, Nat.mod_mod] at hfound
  refine ⟨found, hfound, ?_⟩
  calc found = true
      ↔ ∃ t < rootHistorySize,
          s.root ((pairs.length % rootHistorySize + t) % rootHistorySize) = some root := by
        simpa using hiff
    _ ↔ ∃ i < rootHistorySize, s.root i = some root := 
        Ring.exists_round (P := fun i => s.root i = some root) hcur
    _ ↔ ∃ j, (rootsOf L pairs)[j]? = some root ∧
          (rootsOf L pairs).length ≤ j + rootHistorySize := h.ring.exists_iff (by decide) root
    _ ↔ ∃ j, pairs.length - 89 ≤ j ∧ j ≤ pairs.length ∧ root = rootAfter L pairs j := by
        refine exists_congr fun j => ?_
        rw [rootsOf_getElem?, rootsOf_length, rootHistorySize]
        constructor
        · rintro ⟨⟨hj, hroot⟩, hlen⟩
          exact ⟨by omega, hj, hroot⟩
        · rintro ⟨hlow, hj, hroot⟩
          exact ⟨⟨hj, hroot⟩, by omega⟩

theorem Ringed.getLastRoot (h : Ringed L pairs s) :
    getLastRoot s = .ok (rootAfter L pairs pairs.length) := by
  rw [rootAfter, List.take_length]
  exact h.tree.getLastRoot

/-- **The root history window.**  After `init` at any depth and any `k` successful insertions, with
`R j` the root after the `j`-th of them and `R 0` the empty root:

* `is_known_root` answers for every value, and says yes exactly to the roots `R j` with
  `k - 89 ≤ j ≤ k` that are not 0;
* its loop ends within `ROOT_HISTORY_SIZE` slots;
* `get_last_root` is `R k`, and was `R j` after the `j`-th insertion. -/
theorem root_history_window (h1 : 1 ≤ L) (h2 : L ≤ 32) {s0 : MerkleStorage}
    (hinit : init L .empty = .ok s0) {idxs : List (Nat × Nat)}
    (hrun : insertPairs pairs s0 = .ok (idxs, s)) :
    (∀ root < 2 ^ 256, ∃ known, isKnownRoot s root = .ok known ∧
      (known = true ↔ root ≠ 0 ∧ ∃ j, pairs.length - 89 ≤ j ∧ j ≤ pairs.length ∧
        root = rootAfter L pairs j)) ∧
    (∀ root < 2 ^ 256, ∃ current found, s.currentRootIndex = some current ∧
      searchRoots s root current 90 current = .ok found) ∧
    getLastRoot s = .ok (rootAfter L pairs pairs.length) ∧
    ∀ j ≤ pairs.length, ∃ idxsj sj, insertPairs (pairs.take j) s0 = .ok (idxsj, sj) ∧
      getLastRoot sj = .ok (rootAfter L pairs j) := by
  have h0 : Ringed L [] s0 := ringed_init h1 h2 hinit
  have h : Ringed L pairs s := h0.run hrun
  refine ⟨fun root _ => ?_, fun root _ => ?_, h.getLastRoot, fun j hj => ?_⟩
  · unfold isKnownRoot
    by_cases hzero : root = 0
    · rw [if_pos hzero]
      exact ⟨false, rfl, by simp [hzero]⟩
    · obtain ⟨found, hfound, hiff⟩ := h.search (Nat.le_succ rootHistorySize) root
      rw [if_neg hzero, h.current, okOr_some, ok_bind]
      exact ⟨found, hfound, hiff.trans ⟨fun hj => ⟨hzero, hj⟩, And.right⟩⟩
  · obtain ⟨found, hfound, -⟩ := h.search (le_refl rootHistorySize) root
    exact ⟨_, found, h.current, hfound⟩
  · obtain ⟨idxsj, sj, hsj⟩ := insertPairs_take j hrun
    refine ⟨idxsj, sj, hsj, ?_⟩
    have hlast := (h0.run hsj).getLastRoot
    rw [List.nil_append, List.length_take, Nat.min_eq_left hj] at hlast
    rw [hlast, rootAfter, rootAfter, List.take_take, Nat.min_self]

/-- Two insertions into a tree of depth 2: the empty root is still known. -/
theorem root_history_window_depth_two : ∃ s0 idxs s, init 2 .empty = .ok s0 ∧
    insertPairs [(1, 2), (3, 4)] s0 = .ok (idxs, s) ∧
    ∃ known, isKnownRoot s (rootAfter 2 [(1, 2), (3, 4)] 0) = .ok known ∧ known = true := by
  obtain ⟨s0, hinit, h0⟩ := holds_init (L := 2) (by decide) (by decide)
  obtain ⟨s, hrun, -⟩ := h0.insertPairs [(1, 2), (3, 4)] (by decide) (by decide)
  have hempty : rootAfter 2 [(1, 2), (3, 4)] 0 = getZeroes.getD 2 0 :=
    (treeRoot_nil 2).trans (getZeroes_eq_zeroAt_nat (by decide)).symm
  obtain ⟨known, hknown, hiff⟩ := (root_history_window (by decide) (by decide) hinit hrun).1
    (rootAfter 2 [(1, 2), (3, 4)] 0) (by rw [hempty]; decide)
  exact ⟨s0, _, s, hinit, hrun, known, hknown,
    hiff.mpr ⟨by rw [hempty]; decide, 0, by decide, by decide, rfl⟩⟩

end MerkleTreeWithHistory

end Veil
