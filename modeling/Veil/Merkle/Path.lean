/-
# Merkle proofs of a complete tree

The proof of a leaf is the list of the siblings met on the way up.  `siblings` reads them off the
complete tree, so that an algorithm that finds them in any other way is compared with it once, and
`foldPath_siblings` is what a proof is for: hashing upwards from a node with its siblings gives
the node above it.

The other half is the dense tree, a list of all the nodes of a level: `pairUp` hashes neighbours,
and the nodes of one level become those of the next (`pairUp_level`).
-/
import Veil.Merkle.Binding

namespace Merkle

variable {H : Type*}

/-! ## 1. Siblings -/

/-- The siblings met on `n` levels, from node `i` of level `d` upwards. -/
def siblings (node : H → H → H) (f : Nat → H) : (n d i : Nat) → List H
  | 0, _, _ => []
  | n + 1, d, i => nodeAt node f d (i ^^^ 1) :: siblings node f n (d + 1) (i / 2)

variable {node : H → H → H} {f : Nat → H}

@[simp] theorem length_siblings : ∀ n d i, (siblings node f n d i).length = n
  | 0, _, _ => rfl
  | n + 1, d, i => by rw [siblings, List.length_cons, length_siblings n]

/-- A node and its sibling, in the order of their positions, are hashed to their parent. -/
theorem node_sibling (d i : Nat) :
    (if i % 2 = 1 then node (nodeAt node f d (i ^^^ 1)) (nodeAt node f d i)
      else node (nodeAt node f d i) (nodeAt node f d (i ^^^ 1))) =
        nodeAt node f (d + 1) (i / 2) := by
  rw [nodeAt_succ]
  by_cases h : i % 2 = 1
  · have hl : i ^^^ 1 = 2 * (i / 2) := by
      rw [Nat.xor_one_of_odd (Nat.odd_iff.mpr h)]
      omega
    have hr : i = 2 * (i / 2) + 1 := by omega
    rw [if_pos h, hl, ← hr]
  · have hl : i = 2 * (i / 2) := by omega
    have hr : i ^^^ 1 = 2 * (i / 2) + 1 := by
      rw [Nat.xor_one_of_even (Nat.even_iff.mpr (by omega))]
      omega
    rw [if_neg h, hr, ← hl]

/-- **A proof leads to the node it proves.** -/
theorem foldPath_siblings : ∀ n d i,
    foldPath node (siblings node f n d i) i (nodeAt node f d i) = nodeAt node f (d + n) (i / 2 ^ n)
  | 0, d, i => by rw [siblings, foldPath, pow_zero, Nat.div_one, Nat.add_zero]
  | n + 1, d, i => by
    rw [siblings, foldPath, node_sibling, foldPath_siblings n (d + 1) (i / 2),
      Nat.div_div_eq_div_mul, ← pow_succ', Nat.add_right_comm, Nat.add_assoc]

/-! ## 2. Dense trees -/

/-- Hash neighbours; a last node without one is left out. -/
def pairUp (node : H → H → H) : List H → List H
  | a :: b :: rest => node a b :: pairUp node rest
  | _ => []

theorem length_pairUp (node : H → H → H) : ∀ l : List H, (pairUp node l).length = l.length / 2
  | [] => by simp [pairUp]
  | [_] => by simp [pairUp]
  | a :: b :: rest => by
    rw [pairUp, List.length_cons, length_pairUp node rest, List.length_cons, List.length_cons]
    omega

/-- The first `n` nodes of level `d`. -/
def level (node : H → H → H) (f : Nat → H) (d n : Nat) : List H :=
  (List.range n).map (nodeAt node f d)

@[simp] theorem length_level (d n : Nat) : (level node f d n).length = n := by
  rw [level, List.length_map, List.length_range]

theorem getElem?_level {d n i : Nat} (h : i < n) :
    (level node f d n)[i]? = some (nodeAt node f d i) := by
  rw [level, List.getElem?_map, List.getElem?_range h]
  rfl

theorem pairUp_range' (d : Nat) : ∀ n s,
    pairUp node ((List.range' (2 * s) (2 * n)).map (nodeAt node f d)) =
      (List.range' s n).map (nodeAt node f (d + 1))
  | 0, _ => by simp [pairUp]
  | n + 1, s => by
    have ih := pairUp_range' d n (s + 1)
    rw [show 2 * (n + 1) = 2 * n + 1 + 1 by omega, List.range'_succ, List.range'_succ,
      List.range'_succ, List.map_cons, List.map_cons, List.map_cons, pairUp, nodeAt_succ, ← ih]
    rfl

/-- **One level up**, over all the nodes. -/
theorem pairUp_level (d n : Nat) :
    pairUp node (level node f d (2 * n)) = level node f (d + 1) n := by
  have h : pairUp node ((List.range' (2 * 0) (2 * n)).map (nodeAt node f d)) = _ :=
    pairUp_range' d n 0
  rwa [Nat.mul_zero, ← List.range_eq_range', ← List.range_eq_range'] at h

end Merkle
