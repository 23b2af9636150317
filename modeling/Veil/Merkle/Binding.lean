/-
# The root binds the leaves

No hash into a finite set is injective, so "the root determines the leaves" can only be said of
a set of pairs on which the hash happens to have no collision.  `NoCollision node S` says that,
`treePairs` and `pathPairs` name the pairs a tree and a path hash, and the results are the two
halves of binding:

* `nodeAt_inj`: two trees with the same root, filled to the same size, have the same leaves;
* `foldPath_binding`: a path that leads to a node of a tree starts at the leaf the tree holds
  there, whatever siblings it was given.

In both the argument goes from the root down: equal hashes of two pairs in the set have equal
components, which are the hashes one level lower.
-/
import Veil.Merkle.Tree

namespace Merkle

variable {H : Type*}

/-! ## 1. Collisions, and the pairs a tree hashes -/

/-- The hash has no collision among the pairs of `S`. -/
def NoCollision (node : H → H → H) (S : Set (H × H)) : Prop :=
  ∀ p ∈ S, ∀ q ∈ S, node p.1 p.2 = node q.1 q.2 → p = q

theorem NoCollision.mono {node : H → H → H} {S T : Set (H × H)} (h : NoCollision node T)
    (hST : S ⊆ T) : NoCollision node S :=
  fun p hp q hq => h p (hST hp) q (hST hq)

/-- The pairs hashed to compute the root of a tree of depth `L` over the leaves `f`, leaving out
the nodes above none of the first `n` leaves.  With `n = 2 ^ L` these are all the pairs of the
complete tree. -/
def treePairs (node : H → H → H) (f : Nat → H) (L n : Nat) : Set (H × H) :=
  {p | ∃ d i, d < L ∧ i < 2 ^ (L - (d + 1)) ∧ i * 2 ^ (d + 1) < n ∧
    p = (nodeAt node f d (2 * i), nodeAt node f d (2 * i + 1))}

theorem mem_treePairs {node : H → H → H} {f : Nat → H} {L n d i : Nat} (hd : d < L)
    (hi : i < 2 ^ (L - (d + 1))) (hn : i * 2 ^ (d + 1) < n) :
    (nodeAt node f d (2 * i), nodeAt node f d (2 * i + 1)) ∈ treePairs node f L n :=
  ⟨d, i, hd, hi, hn, rfl⟩

/-- The same pairs, listed. -/
def pairList (node : H → H → H) (f : Nat → H) (L n : Nat) : List (H × H) :=
  (List.range L).flatMap fun d =>
    ((List.range (2 ^ (L - (d + 1)))).filter fun i => i * 2 ^ (d + 1) < n).map fun i =>
      (nodeAt node f d (2 * i), nodeAt node f d (2 * i + 1))

theorem mem_pairList {node : H → H → H} {f : Nat → H} {L n : Nat} {p : H × H} :
    p ∈ pairList node f L n ↔ p ∈ treePairs node f L n := by
  simp only [pairList, treePairs, List.mem_flatMap, List.mem_map, List.mem_filter, List.mem_range,
    decide_eq_true_eq, Set.mem_ofPred_eq]
  constructor
  · rintro ⟨d, hd, i, ⟨hi, hn⟩, rfl⟩
    exact ⟨d, i, hd, hi, hn, rfl⟩
  · rintro ⟨d, i, hd, hi, hn, rfl⟩
    exact ⟨d, hd, i, ⟨hi, hn⟩, rfl⟩

/-- Two trees that hash the same pairs, to distinct values, have no collision. -/
theorem noCollision_of_pairList {node : H → H → H} {f g : Nat → H} {L n : Nat}
    (hsame : pairList node f L n = pairList node g L n)
    (hdistinct : ((pairList node g L n).map fun p => node p.1 p.2).Nodup) :
    NoCollision node (treePairs node f L n ∪ treePairs node g L n) := by
  have hlisted : ∀ p ∈ treePairs node f L n ∪ treePairs node g L n, p ∈ pairList node g L n := by
    rintro p (hp | hp)
    · exact hsame ▸ mem_pairList.mpr hp
    · exact mem_pairList.mpr hp
  intro p hp q hq heq
  exact List.inj_on_of_nodup_map hdistinct (hlisted p hp) (hlisted q hq) heq

theorem two_pow_sub_succ {L d : Nat} (hd : d < L) : 2 ^ (L - d) = 2 * 2 ^ (L - (d + 1)) := by
  rw [← pow_succ']
  congr 1
  omega

/-- **Equal roots, equal leaves.**  Stated for every node, which is what the induction on the
level needs. -/
theorem nodeAt_inj {node : H → H → H} {S : Set (H × H)} (hS : NoCollision node S)
    {f g : Nat → H} {L n : Nat} (hf : treePairs node f L n ⊆ S) (hg : treePairs node g L n ⊆ S) :
    ∀ (d i : Nat), d ≤ L → i < 2 ^ (L - d) → i * 2 ^ d < n →
      nodeAt node f d i = nodeAt node g d i →
      ∀ j, i * 2 ^ d ≤ j → j < (i + 1) * 2 ^ d → j < n → f j = g j
  | 0, i, _, _, _, h, j, h1, h2, _ => by
    have hj : j = i := by simp at h1 h2; omega
    subst hj
    exact h
  | d + 1, i, hd, hi, hn, h, j, h1, h2, hjn => by
    have hpf := hf (mem_treePairs hd hi hn)
    have hpg := hg (mem_treePairs hd hi hn)
    have hpair := hS _ hpf _ hpg h
    have hl : nodeAt node f d (2 * i) = nodeAt node g d (2 * i) := congrArg Prod.fst hpair
    have hr : nodeAt node f d (2 * i + 1) = nodeAt node g d (2 * i + 1) := congrArg Prod.snd hpair
    have hsz := two_pow_sub_succ (L := L) (d := d) hd
    have e1 : i * 2 ^ (d + 1) = 2 * i * 2 ^ d := by rw [pow_succ]; ring
    have e2 : (i + 1) * 2 ^ (d + 1) = (2 * i + 1 + 1) * 2 ^ d := by rw [pow_succ]; ring
    rw [e1] at hn h1
    rw [e2] at h2
    rcases Nat.lt_or_ge j ((2 * i + 1) * 2 ^ d) with hj | hj
    · exact nodeAt_inj hS hf hg d (2 * i) (by omega) (by omega) hn hl j h1 hj hjn
    · exact nodeAt_inj hS hf hg d (2 * i + 1) (by omega) (by omega) (by omega) hr j hj h2 hjn

/-- Two trees filled from the left to the same size, with the same root, hold the same
leaves. -/
theorem fullRoot_inj {node : H → H → H} {S : Set (H × H)} (hS : NoCollision node S) {e : H}
    {L : Nat} {ls ms : List H} (hlen : ls.length = ms.length) (hcap : ls.length ≤ 2 ^ L)
    (hl : treePairs node (padded e ls) L ls.length ⊆ S)
    (hm : treePairs node (padded e ms) L ms.length ⊆ S)
    (h : fullRoot node e L ls = fullRoot node e L ms) : ls = ms := by
  refine List.ext_getElem hlen fun j h1 h2 => ?_
  have hj := nodeAt_inj hS hl (hlen ▸ hm) L 0 le_rfl (by simp) (by omega) h j (by simp)
    (by omega) h1
  rwa [padded_of_lt h1, padded_of_lt h2] at hj

/-- The pairs that the trees of the first leaves hash, for every number of them. -/
def growthPairs (node : H → H → H) (e : H) (L : Nat) (ls : List H) : Set (H × H) :=
  ⋃ k, treePairs node (padded e (ls.take k)) L ls.length

theorem treePairs_subset_growthPairs (node : H → H → H) (e : H) (L : Nat) (ls : List H) (k : Nat) :
    treePairs node (padded e (ls.take k)) L ls.length ⊆ growthPairs node e L ls :=
  Set.subset_iUnion (fun k => treePairs node (padded e (ls.take k)) L ls.length) k

/-- **A tree that grows has a new root each time**, if no leaf is the empty one. -/
theorem fullRoot_take_inj {node : H → H → H} {e : H} {L : Nat} {ls : List H}
    (hS : NoCollision node (growthPairs node e L ls)) (hnew : e ∉ ls) {a b : Nat}
    (ha : a ≤ ls.length) (hb : b ≤ ls.length) (hcap : ls.length ≤ 2 ^ L)
    (h : fullRoot node e L (ls.take a) = fullRoot node e L (ls.take b)) : a = b := by
  -- where one is filled and the other is not, the leaf would be the empty one
  have hlt : ∀ {a b : Nat}, b ≤ ls.length →
      (∀ j < ls.length, padded e (ls.take a) j = padded e (ls.take b) j) → ¬a < b := by
    intro a b hb hall hab
    have hj := hall a (by omega)
    have hlen : a < (ls.take b).length := by
      rw [List.length_take]
      omega
    rw [padded_of_le (by simp), padded_of_lt hlen] at hj
    exact hnew (hj ▸ List.mem_of_mem_take (List.getElem_mem hlen))
  rcases Nat.eq_zero_or_pos ls.length with h0 | hpos
  · omega
  have hall : ∀ j < ls.length, padded e (ls.take a) j = padded e (ls.take b) j := fun j hj =>
    nodeAt_inj hS (treePairs_subset_growthPairs node e L ls a)
      (treePairs_subset_growthPairs node e L ls b) L 0 le_rfl (by simp) (by simpa using hpos) h j
      (by simp) (by omega) hj
  have h1 := hlt hb hall
  have h2 := hlt ha fun j hj => (hall j hj).symm
  omega

/-! ## 2. Paths -/

/-- The node reached from `cur` at position `idx` by hashing with the siblings, lowest first. -/
def foldPath (node : H → H → H) : List H → Nat → H → H
  | [], _, cur => cur
  | s :: sibs, idx, cur =>
    foldPath node sibs (idx / 2) (if idx % 2 = 1 then node s cur else node cur s)

/-- The pairs a path hashes. -/
def pathPairs (node : H → H → H) : List H → Nat → H → List (H × H)
  | [], _, _ => []
  | s :: sibs, idx, cur =>
    (if idx % 2 = 1 then (s, cur) else (cur, s)) ::
      pathPairs node sibs (idx / 2) (if idx % 2 = 1 then node s cur else node cur s)

/-- **A path binds its leaf.**  A path from position `idx` of level `d` that reaches the tree's
node above it starts at the tree's own node: nothing is assumed of the siblings. -/
theorem foldPath_binding {node : H → H → H} {S : Set (H × H)} (hS : NoCollision node S)
    {f : Nat → H} {L : Nat} (hf : treePairs node f L (2 ^ L) ⊆ S) :
    ∀ (sibs : List H) (d idx : Nat) (cur : H), d + sibs.length ≤ L → idx < 2 ^ (L - d) →
      (∀ p ∈ pathPairs node sibs idx cur, p ∈ S) →
      foldPath node sibs idx cur = nodeAt node f (d + sibs.length) (idx / 2 ^ sibs.length) →
      cur = nodeAt node f d idx
  | [], d, idx, cur, _, _, _, h => by simpa [foldPath] using h
  | s :: sibs, d, idx, cur, hd, hidx, hp, h => by
    simp only [List.length_cons] at hd h
    have hsz := two_pow_sub_succ (L := L) (d := d) (by omega)
    simp only [foldPath] at h
    simp only [pathPairs, List.mem_cons, forall_eq_or_imp] at hp
    rw [show d + (sibs.length + 1) = d + 1 + sibs.length by omega,
      show idx / 2 ^ (sibs.length + 1) = idx / 2 / 2 ^ sibs.length by
        rw [Nat.div_div_eq_div_mul, pow_succ']] at h
    have hpar := foldPath_binding hS hf sibs (d + 1) (idx / 2) _ (by omega) (by omega) hp.2 h
    have hin : (nodeAt node f d (2 * (idx / 2)), nodeAt node f d (2 * (idx / 2) + 1)) ∈ S := by
      refine hf (mem_treePairs (by omega) (by omega) ?_)
      calc idx / 2 * 2 ^ (d + 1) < 2 ^ (L - (d + 1)) * 2 ^ (d + 1) :=
            Nat.mul_lt_mul_of_pos_right (by omega) (Nat.two_pow_pos _)
        _ = 2 ^ L := by rw [← pow_add]; congr 1; omega
    rw [nodeAt_succ] at hpar
    by_cases hb : idx % 2 = 1
    · simp only [hb, if_true] at hp hpar
      have hpair := hS _ hp.1 _ hin hpar
      have hc : cur = nodeAt node f d (2 * (idx / 2) + 1) := congrArg Prod.snd hpair
      rw [hc]
      congr 1
      omega
    · simp only [hb, if_false] at hp hpar
      have hpair := hS _ hp.1 _ hin hpar
      have hc : cur = nodeAt node f d (2 * (idx / 2)) := congrArg Prod.fst hpair
      rw [hc]
      congr 1
      omega

/-- A path to the root of a tree filled from the left, from anything but the empty leaf, starts
at the leaf stored there. -/
theorem getElem?_of_foldPath {node : H → H → H} {S : Set (H × H)} (hS : NoCollision node S)
    {e : H} {L : Nat} {ls : List H} (htree : treePairs node (padded e ls) L (2 ^ L) ⊆ S)
    {sibs : List H} {idx : Nat} {cur : H} (hlen : sibs.length = L) (hidx : idx < 2 ^ L)
    (hp : ∀ p ∈ pathPairs node sibs idx cur, p ∈ S)
    (h : foldPath node sibs idx cur = fullRoot node e L ls) (hne : cur ≠ e) :
    ls[idx]? = some cur := by
  have hcur : cur = padded e ls idx := by
    refine foldPath_binding hS htree sibs 0 idx cur (by omega) hidx hp ?_
    rw [h, hlen, Nat.zero_add, Nat.div_eq_of_lt hidx]
    rfl
  rcases Nat.lt_or_ge idx ls.length with hlt | hge
  · rw [List.getElem?_eq_getElem hlt, hcur, padded_of_lt hlt]
  · rw [padded_of_le hge] at hcur
    exact absurd hcur hne

end Merkle
