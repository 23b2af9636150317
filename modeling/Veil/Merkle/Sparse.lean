/-
# Sparse trees: hashing only the populated paths

A tree with few leaves is computed level by level from a map of its populated nodes: every
position not in the map is empty.  `levelUp` is one level of that, `Sparse` relates a map to the
complete tree it stands for, and `Sparse.levelUp` is the step: the parents of the populated
nodes are the populated nodes of the next level, because a node with no populated child is the
hash of two empty ones.

A map from positions to values is an association list here.  It is only ever looked up, so the
order of its entries does not matter.
-/
import Veil.Core.Assoc
import Veil.Merkle.Tree

namespace Merkle

variable {H : Type*}

/-! ## 1. One level -/

/-- Add the parent of position `index` to `parents`, unless it is there already. -/
def addParent (node : H → H → H) (zero : H) (nodes : List (Nat × H)) (parents : List (Nat × H))
    (index : Nat) : List (Nat × H) :=
  if (parents.lookup (index / 2)).isSome then parents
  else (index / 2, node ((nodes.lookup (2 * (index / 2))).getD zero)
      ((nodes.lookup (2 * (index / 2) + 1)).getD zero)) :: parents

/-- The populated nodes of the next level. -/
def levelUp (node : H → H → H) (zero : H) (nodes : List (Nat × H)) : List (Nat × H) :=
  (nodes.map Prod.fst).foldl (addParent node zero nodes) []

/-- `nodes` holds the populated nodes of level `d` of the tree over `f`. -/
def Sparse (node : H → H → H) (e : H) (f : Nat → H) (d : Nat) (nodes : List (Nat × H)) : Prop :=
  ∀ i, (nodes.lookup i).getD (zeroAt node e d) = nodeAt node f d i

variable {node : H → H → H} {nodes : List (Nat × H)}

/-- Every entry of `parents` is the hash of its two children. -/
theorem foldl_addParent_lookup (node : H → H → H) (zero : H) (nodes : List (Nat × H)) :
    ∀ (keys : List Nat) (parents : List (Nat × H)),
    (∀ i v, parents.lookup i = some v →
      v = node ((nodes.lookup (2 * i)).getD zero) ((nodes.lookup (2 * i + 1)).getD zero)) →
    (∀ i v, (keys.foldl (addParent node zero nodes) parents).lookup i = some v →
      v = node ((nodes.lookup (2 * i)).getD zero) ((nodes.lookup (2 * i + 1)).getD zero)) ∧
    ∀ i, ((keys.foldl (addParent node zero nodes) parents).lookup i).isSome =
      ((parents.lookup i).isSome || decide (∃ k ∈ keys, k / 2 = i))
  | [], parents, h => ⟨h, fun i => by simp⟩
  | k :: keys, parents, h => by
    have hstep : ∀ i v, (addParent node zero nodes parents k).lookup i = some v →
        v = node ((nodes.lookup (2 * i)).getD zero) ((nodes.lookup (2 * i + 1)).getD zero) := by
      intro i v hv
      unfold addParent at hv
      split at hv
      · exact h i v hv
      · by_cases hi : i = k / 2
        · subst hi
          simpa [List.lookup_cons] using hv.symm
        · rw [List.lookup_cons, beq_false_of_ne hi] at hv
          exact h i v hv
    have hsome : ∀ i, ((addParent node zero nodes parents k).lookup i).isSome =
        ((parents.lookup i).isSome || decide (k / 2 = i)) := by
      intro i
      unfold addParent
      by_cases hi : k / 2 = i
      · subst hi
        split <;> rename_i hp <;> simp [hp]
      · have hi' : ¬ i = k / 2 := fun h => hi h.symm
        split
        · simp [hi]
        · rw [List.lookup_cons, beq_false_of_ne hi']
          simp [hi]
    have ih :=
      foldl_addParent_lookup node zero nodes keys (addParent node zero nodes parents k) hstep
    refine ⟨ih.1, fun i => ?_⟩
    rw [List.foldl_cons, ih.2 i, hsome i]
    simp [Bool.or_assoc]

/-- **One level up.**  The parents of the populated nodes stand for the next level. -/
theorem Sparse.levelUp {e : H} {f : Nat → H} {d : Nat} (h : Sparse node e f d nodes) :
    Sparse node e f (d + 1) (levelUp node (zeroAt node e d) nodes) := by
  intro i
  have hl := foldl_addParent_lookup node (zeroAt node e d) nodes (nodes.map Prod.fst) [] (by simp)
  have hchild : ∀ j, j / 2 = i →
      ((Merkle.levelUp node (zeroAt node e d) nodes).lookup i).isSome = false →
      nodeAt node f d j = zeroAt node e d := by
    intro j hj hn
    have hnone : nodes.lookup j = none := by
      rw [← Option.not_isSome_iff_eq_none, Assoc.isSome_lookup_iff]
      intro hmem
      rw [Merkle.levelUp, hl.2 i] at hn
      simp only [List.lookup_nil, Option.isSome_none, Bool.false_or, decide_eq_false_iff_not] at hn
      exact hn ⟨j, hmem, hj⟩
    rw [← h j, hnone]
    rfl
  cases hc : (Merkle.levelUp node (zeroAt node e d) nodes).lookup i with
  | some v =>
    rw [Option.getD_some, hl.1 i v hc, nodeAt_succ, h, h]
  | none =>
    have hn : ((Merkle.levelUp node (zeroAt node e d) nodes).lookup i).isSome = false := by
      rw [hc]; rfl
    rw [Option.getD_none, nodeAt_succ, hchild (2 * i) (by omega) hn,
      hchild (2 * i + 1) (by omega) hn, zeroAt_succ]

/-! ## 2. All levels -/

/-- `d` levels, from the leaves up, with the empty hash of each level. -/
def levelsUp (node : H → H → H) : List H → List (Nat × H) → List (Nat × H)
  | [], nodes => nodes
  | zero :: zeros, nodes => levelsUp node zeros (levelUp node zero nodes)

/-- The loop over the levels keeps `Sparse`, so its last map holds the root. -/
theorem Sparse.levelsUp {e : H} {f : Nat → H} : ∀ (zeros : List H) (d : Nat)
    (nodes : List (Nat × H)), Sparse node e f d nodes →
    (∀ i (h : i < zeros.length), zeros[i] = zeroAt node e (d + i)) →
    Sparse node e f (d + zeros.length) (levelsUp node zeros nodes)
  | [], _, _, h, _ => h
  | z :: zeros, d, nodes, h, hz => by
    have h0 : z = zeroAt node e d := hz 0 (by simp)
    have ih := Sparse.levelsUp zeros (d + 1) (Merkle.levelUp node z nodes) (h0 ▸ h.levelUp)
      (fun i hi => by
        have := hz (i + 1) (by simpa using hi)
        rwa [List.getElem_cons_succ, show d + (i + 1) = d + 1 + i by omega] at this)
    rw [List.length_cons, show d + (zeros.length + 1) = d + 1 + zeros.length by omega]
    exact ih

end Merkle
