/-
# The append-only tree: one stored subtree per level

An append-only tree need not keep its nodes.  It keeps one value for each level, `filled`, and
recomputes the path from the new leaf to the root: on a right turn (the node is a right child)
the stored value is its left sibling, on a left turn the node itself is stored and its right
sibling is still empty.  `climb` is that loop, started at any level `lo`, so that it also covers
a tree whose leaves arrive in complete blocks of `2 ^ lo`.

The stored value of a level is often stale.  What is true, and enough, is `Frontier`: with `m`
blocks in the tree, the value stored at level `lo + j` is the left sibling of the next node of
that level WHENEVER that next node is a right child, which is when bit `j` of `m` is set.

* `climb_spec` says what the loop computes: every node of the new path, hence the new root;
* `Frontier.append` says that the loop keeps the invariant and returns the root of the tree
  with the new block, which is the step every run of insertions repeats.
-/
import Veil.Merkle.Tree

namespace Merkle

variable {H : Type*}

/-! ## 1. The loop -/

/-- `k` levels of the path from node `idx` of level `lvl`, whose value is `cur`.  Returns the
node reached and the stored values after the walk. -/
def climb (node : H → H → H) (zero : Nat → H) :
    (k lvl idx : Nat) → H → (Nat → H) → H × (Nat → H)
  | 0, _, _, cur, filled => (cur, filled)
  | k + 1, lvl, idx, cur, filled =>
    if idx % 2 = 1 then
      climb node zero k (lvl + 1) (idx / 2) (node (filled lvl) cur) filled
    else
      climb node zero k (lvl + 1) (idx / 2) (node cur (zero lvl))
        (Function.update filled lvl cur)

/-- The walk leaves the levels below its start alone. -/
theorem climb_snd_of_lt (node : H → H → H) (zero : Nat → H) : ∀ (k lvl idx : Nat) (cur : H)
    (filled : Nat → H) {l : Nat}, l < lvl → (climb node zero k lvl idx cur filled).2 l = filled l
  | 0, _, _, _, _, _, _ => rfl
  | k + 1, lvl, idx, cur, filled, l, h => by
    rw [climb]
    split
    · exact climb_snd_of_lt node zero k (lvl + 1) _ _ _ (by omega)
    · rw [climb_snd_of_lt node zero k (lvl + 1) _ _ _ (by omega),
        Function.update_of_ne (by omega)]

/-- **The invariant.**  With `m` complete blocks of `2 ^ lo` leaves in the tree, the value
stored at a level is the left sibling of the level's next node if that node is a right child. -/
def Frontier (node : H → H → H) (L lo m : Nat) (f : Nat → H) (filled : Nat → H) : Prop :=
  ∀ j, lo + j < L → m / 2 ^ j % 2 = 1 → filled (lo + j) = nodeAt node f (lo + j) (m / 2 ^ j - 1)

/-- An empty tree asks nothing of what is stored. -/
theorem frontier_zero (node : H → H → H) (L lo : Nat) (f filled : Nat → H) :
    Frontier node L lo 0 f filled := by
  intro j _ h
  simp at h

theorem div_two_pow_succ (m j : Nat) : m / 2 ^ j / 2 = m / 2 ^ (j + 1) := by
  rw [Nat.div_div_eq_div_mul, pow_succ]

/-- The node to the right of the path holds no leaf yet, so it is the empty hash. -/
theorem right_sibling_empty {node : H → H → H} {f : Nat → H} {e : H} {lo m : Nat}
    (hf : ∀ i, (m + 1) * 2 ^ lo ≤ i → f i = e) (j : Nat) :
    nodeAt node f (lo + j) (m / 2 ^ j + 1) = zeroAt node e (lo + j) := by
  refine nodeAt_empty _ _ fun i hi _ => hf i (le_trans ?_ hi)
  have hm : m + 1 ≤ (m / 2 ^ j + 1) * 2 ^ j := by
    have := Nat.lt_div_mul_add (a := m) (Nat.two_pow_pos j)
    rw [Nat.add_mul]
    omega
  calc (m + 1) * 2 ^ lo ≤ (m / 2 ^ j + 1) * 2 ^ j * 2 ^ lo := Nat.mul_le_mul_right _ hm
    _ = (m / 2 ^ j + 1) * 2 ^ (lo + j) := by rw [pow_add]; ring

/-- **What the loop computes.**  Started at the node of block `m` over leaves that are empty
after that block, it reaches the node `k` levels higher, and it stores exactly the nodes of the
path that are left children. -/
theorem climb_spec {node : H → H → H} {f : Nat → H} {e : H} {lo m : Nat} {zero : Nat → H}
    (hf : ∀ i, (m + 1) * 2 ^ lo ≤ i → f i = e) : ∀ (k j : Nat) (filled : Nat → H),
    (∀ l, lo + j ≤ l → l < lo + j + k → zero l = zeroAt node e l) →
    (∀ i, j ≤ i → i < j + k → m / 2 ^ i % 2 = 1 →
      filled (lo + i) = nodeAt node f (lo + i) (m / 2 ^ i - 1)) →
    (climb node zero k (lo + j) (m / 2 ^ j) (nodeAt node f (lo + j) (m / 2 ^ j)) filled).1
        = nodeAt node f (lo + j + k) (m / 2 ^ (j + k)) ∧
      ∀ l, (climb node zero k (lo + j) (m / 2 ^ j)
          (nodeAt node f (lo + j) (m / 2 ^ j)) filled).2 l
        = if lo + j ≤ l ∧ l < lo + j + k ∧ m / 2 ^ (l - lo) % 2 = 0
          then nodeAt node f l (m / 2 ^ (l - lo)) else filled l
  | 0, j, filled, _, _ => by
    refine ⟨rfl, fun l => ?_⟩
    rw [if_neg (by omega)]
    rfl
  | k + 1, j, filled, hz, hfr => by
    by_cases hb : m / 2 ^ j % 2 = 1
    · -- a right child: the stored value is the left sibling, and nothing is written
      have hleft := hfr j le_rfl (by omega) hb
      have hpar : node (filled (lo + j)) (nodeAt node f (lo + j) (m / 2 ^ j))
          = nodeAt node f (lo + (j + 1)) (m / 2 ^ (j + 1)) := by
        rw [hleft, ← div_two_pow_succ, ← Nat.add_assoc, nodeAt_succ]
        congr 2 <;> omega
      have ih := climb_spec hf k (j + 1) filled (fun l h1 h2 => hz l (by omega) (by omega))
        (fun i h1 h2 => hfr i (by omega) (by omega))
      simp only [climb, hb, if_true]
      rw [hpar, div_two_pow_succ, Nat.add_assoc lo j 1]
      refine ⟨by rw [ih.1]; congr 1 <;> ring_nf, fun l => ?_⟩
      rw [ih.2 l]
      rcases Nat.lt_trichotomy l (lo + j) with h | h | h
      · rw [if_neg (by omega), if_neg (by omega)]
      · subst h
        rw [if_neg (by omega), if_neg (by rw [Nat.add_sub_cancel_left]; omega)]
      · by_cases hc : lo + (j + 1) ≤ l ∧ l < lo + (j + 1) + k ∧ m / 2 ^ (l - lo) % 2 = 0
        · rw [if_pos hc, if_pos ⟨by omega, by omega, hc.2.2⟩]
        · rw [if_neg hc, if_neg (fun hc' => hc ⟨by omega, by omega, hc'.2.2⟩)]
    · -- a left child: it is stored, and its right sibling is still empty
      have hpar : node (nodeAt node f (lo + j) (m / 2 ^ j)) (zero (lo + j))
          = nodeAt node f (lo + (j + 1)) (m / 2 ^ (j + 1)) := by
        rw [hz _ le_rfl (by omega), ← right_sibling_empty hf j, ← div_two_pow_succ,
          ← Nat.add_assoc, nodeAt_succ]
        congr 2 <;> omega
      have hupd : ∀ l, l ≠ lo + j →
          Function.update filled (lo + j) (nodeAt node f (lo + j) (m / 2 ^ j)) l = filled l :=
        fun l hl => Function.update_of_ne hl _ _
      have ih := climb_spec hf k (j + 1)
        (Function.update filled (lo + j) (nodeAt node f (lo + j) (m / 2 ^ j)))
        (fun l h1 h2 => hz l (by omega) (by omega))
        (fun i h1 h2 h3 => by rw [hupd _ (by omega)]; exact hfr i (by omega) (by omega) h3)
      simp only [climb, hb, if_false]
      rw [hpar, div_two_pow_succ, Nat.add_assoc lo j 1]
      refine ⟨by rw [ih.1]; congr 1 <;> ring_nf, fun l => ?_⟩
      rw [ih.2 l]
      rcases Nat.lt_trichotomy l (lo + j) with h | h | h
      · rw [if_neg (by omega), if_neg (by omega), hupd _ (by omega)]
      · subst h
        rw [if_neg (by omega), if_pos, Function.update_self, Nat.add_sub_cancel_left]
        refine ⟨le_rfl, by omega, ?_⟩
        rw [Nat.add_sub_cancel_left]
        omega
      · by_cases hc : lo + (j + 1) ≤ l ∧ l < lo + (j + 1) + k ∧ m / 2 ^ (l - lo) % 2 = 0
        · rw [if_pos hc, if_pos ⟨by omega, by omega, hc.2.2⟩]
        · rw [if_neg hc, if_neg (fun hc' => hc ⟨by omega, by omega, hc'.2.2⟩), hupd _ (by omega)]

/-! ## 2. One block -/

/-- The next block number, one level at a time: it is the old one, or the old one plus one when
the old one was a left child that has just been completed. -/
theorem succ_div_two_pow (m j : Nat) (h : (m + 1) / 2 ^ j % 2 = 1) :
    (m / 2 ^ j % 2 = 1 ∧ (m + 1) / 2 ^ j = m / 2 ^ j) ∨
      (m / 2 ^ j % 2 = 0 ∧ (m + 1) / 2 ^ j - 1 = m / 2 ^ j) := by
  rw [Nat.succ_div] at h ⊢
  generalize m / 2 ^ j = q at h ⊢
  split_ifs at h ⊢ <;> omega

variable {node : H → H → H} {L lo m : Nat} {f g filled zero : Nat → H} {e : H}

/-- The left siblings the invariant speaks of hold only leaves of earlier blocks, so it does
not see what is put into block `m`. -/
theorem Frontier.congr (h : Frontier node L lo m f filled)
    (hfg : ∀ i, i < m * 2 ^ lo → f i = g i) : Frontier node L lo m g filled := by
  intro j hj hb
  rw [h j hj hb]
  refine nodeAt_congr _ _ fun i _ hi => hfg i (lt_of_lt_of_le hi ?_)
  have hpos : 1 ≤ m / 2 ^ j := Nat.one_le_iff_ne_zero.mpr fun h0 => by simp [h0] at hb
  rw [Nat.sub_add_cancel hpos, pow_add]
  calc m / 2 ^ j * (2 ^ lo * 2 ^ j) = m / 2 ^ j * 2 ^ j * 2 ^ lo := by ring
    _ ≤ m * 2 ^ lo := Nat.mul_le_mul_right _ (Nat.div_mul_le_self _ _)

/-- **One block.**  The loop returns the root of the tree with the new block, and the stored
values are a frontier of that tree. -/
theorem Frontier.append (h : Frontier node L lo m f filled)
    (hfg : ∀ i, i < m * 2 ^ lo → f i = g i) (hg : ∀ i, (m + 1) * 2 ^ lo ≤ i → g i = e)
    (hz : ∀ l, lo ≤ l → l < L → zero l = zeroAt node e l) (hlo : lo ≤ L)
    (hm : m < 2 ^ (L - lo)) :
    (climb node zero (L - lo) lo m (nodeAt node g lo m) filled).1 = nodeAt node g L 0 ∧
      Frontier node L lo (m + 1) g
        (climb node zero (L - lo) lo m (nodeAt node g lo m) filled).2 := by
  have hfr := h.congr hfg
  have hs := climb_spec hg (L - lo) 0 filled (fun l h1 h2 => hz l (by omega) (by omega))
    (fun i _ h2 => hfr i (by omega))
  simp only [pow_zero, Nat.div_one, Nat.add_zero, Nat.zero_add] at hs
  refine ⟨?_, ?_⟩
  · rw [hs.1, Nat.add_sub_cancel' hlo, Nat.div_eq_of_lt hm]
  · intro j hj hb
    rw [hs.2 (lo + j), Nat.add_sub_cancel_left]
    rcases succ_div_two_pow m j hb with ⟨h1, h2⟩ | ⟨h1, h2⟩
    · rw [if_neg (by omega), h2]
      exact hfr j hj h1
    · rw [if_pos ⟨by omega, by omega, h1⟩, h2]

end Merkle
