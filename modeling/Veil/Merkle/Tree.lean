/-
# Complete binary hash trees

A tree of depth `L` has `2 ^ L` leaves, given here as a function `f : Nat → H`, and every
inner node is `node left right`.  `nodeAt node f d i` is the value of the `i`-th node of level
`d`, counted from the left; the leaves are level 0 and the root of a tree of depth `L` is
`nodeAt node f L 0`.

Levels are numbered from the leaves up because every algorithm that maintains such a tree
walks it that way: the parent of node `i` is node `i / 2` one level higher.  The two facts the
other modules live on are

* `nodeAt_congr`: a node depends only on the leaves below it;
* `nodeAt_empty`: over empty leaves it is the precomputed hash `zeroAt` of its level.

Nothing here assumes anything of `node`.
-/
import Mathlib

namespace Merkle

variable {H : Type*} (node : H → H → H)

/-! ## 1. Nodes -/

/-- The value of node `i` of level `d` over the leaves `f`. -/
def nodeAt (f : Nat → H) : Nat → Nat → H
  | 0, i => f i
  | d + 1, i => node (nodeAt f d (2 * i)) (nodeAt f d (2 * i + 1))

/-- The value of a node of level `d` with no leaf below it, over the empty leaf `e`. -/
def zeroAt (e : H) : Nat → H
  | 0 => e
  | d + 1 => node (zeroAt e d) (zeroAt e d)

@[simp] theorem nodeAt_zero (f : Nat → H) (i : Nat) : nodeAt node f 0 i = f i := rfl

theorem nodeAt_succ (f : Nat → H) (d i : Nat) :
    nodeAt node f (d + 1) i = node (nodeAt node f d (2 * i)) (nodeAt node f d (2 * i + 1)) := rfl

theorem zeroAt_succ (e : H) (d : Nat) :
    zeroAt node e (d + 1) = node (zeroAt node e d) (zeroAt node e d) := rfl

variable {node}

/-- **A node depends only on the leaves below it.**  Those of node `i` of level `d` are the
positions from `i * 2 ^ d` up to, and not including, `(i + 1) * 2 ^ d`. -/
theorem nodeAt_congr {f g : Nat → H} : ∀ (d i : Nat),
    (∀ j, i * 2 ^ d ≤ j → j < (i + 1) * 2 ^ d → f j = g j) → nodeAt node f d i = nodeAt node g d i
  | 0, i, h => h i (by simp) (by simp)
  | d + 1, i, h => by
    have hl : nodeAt node f d (2 * i) = nodeAt node g d (2 * i) := by
      refine nodeAt_congr d (2 * i) fun j h1 h2 => h j ?_ ?_
      · rw [pow_succ]; linarith
      · rw [pow_succ]; nlinarith [Nat.two_pow_pos d]
    have hr : nodeAt node f d (2 * i + 1) = nodeAt node g d (2 * i + 1) := by
      refine nodeAt_congr d (2 * i + 1) fun j h1 h2 => h j ?_ ?_
      · rw [pow_succ]; nlinarith [Nat.two_pow_pos d]
      · rw [pow_succ]; linarith
    rw [nodeAt_succ, nodeAt_succ, hl, hr]

/-- Over empty leaves a node is the empty hash of its level. -/
theorem nodeAt_empty {f : Nat → H} {e : H} : ∀ (d i : Nat),
    (∀ j, i * 2 ^ d ≤ j → j < (i + 1) * 2 ^ d → f j = e) → nodeAt node f d i = zeroAt node e d := by
  intro d i h
  have hc : nodeAt node f d i = nodeAt node (fun _ => e) d i := nodeAt_congr d i h
  rw [hc]
  clear hc h
  induction d generalizing i with
  | zero => rfl
  | succ d ih => rw [nodeAt_succ, ih, ih, zeroAt_succ]

/-- A map that commutes with the hash carries the nodes of one tree to those of another. -/
theorem map_nodeAt {K : Type*} {node' : K → K → K} {φ : H → K}
    (hφ : ∀ a b, φ (node a b) = node' (φ a) (φ b)) (f : Nat → H) : ∀ (d i : Nat),
    φ (nodeAt node f d i) = nodeAt node' (fun j => φ (f j)) d i
  | 0, _ => rfl
  | d + 1, i => by
    rw [nodeAt_succ, hφ, map_nodeAt hφ f d, map_nodeAt hφ f d]
    rfl

theorem map_zeroAt {K : Type*} {node' : K → K → K} {φ : H → K}
    (hφ : ∀ a b, φ (node a b) = node' (φ a) (φ b)) (e : H) : ∀ d : Nat,
    φ (zeroAt node e d) = zeroAt node' (φ e) d
  | 0 => rfl
  | d + 1 => by rw [zeroAt_succ, hφ, map_zeroAt hφ e d, zeroAt_succ]

/-! ## 2. Trees filled from the left -/

/-- The leaves of a tree holding `ls` from position 0 on and the empty leaf after them. -/
def padded (e : H) (ls : List H) (i : Nat) : H := ls.getD i e

variable (node) in
/-- The root of the complete tree of depth `L` whose first leaves are `ls` and whose other
leaves are the empty leaf. -/
def fullRoot (e : H) (L : Nat) (ls : List H) : H := nodeAt node (padded e ls) L 0

theorem padded_of_lt {e : H} {ls : List H} {i : Nat} (h : i < ls.length) :
    padded e ls i = ls[i] :=
  List.getD_eq_getElem _ _ h

theorem padded_of_le {e : H} {ls : List H} {i : Nat} (h : ls.length ≤ i) :
    padded e ls i = e :=
  List.getD_eq_default _ _ h

theorem padded_append_of_lt {e : H} {ls ms : List H} {i : Nat} (h : i < ls.length) :
    padded e (ls ++ ms) i = padded e ls i :=
  List.getD_append _ _ _ _ h

theorem padded_map {K : Type*} (φ : H → K) (e : H) (ls : List H) :
    (fun i => φ (padded e ls i)) = padded (φ e) (ls.map φ) := by
  funext i
  simp [padded]

/-- The empty tree has the empty hash of its depth as root. -/
@[simp] theorem fullRoot_nil (e : H) (L : Nat) : fullRoot node e L [] = zeroAt node e L :=
  nodeAt_empty L 0 fun _ _ _ => rfl

theorem map_fullRoot {K : Type*} {node' : K → K → K} {φ : H → K}
    (hφ : ∀ a b, φ (node a b) = node' (φ a) (φ b)) (e : H) (L : Nat) (ls : List H) :
    φ (fullRoot node e L ls) = fullRoot node' (φ e) L (ls.map φ) := by
  unfold fullRoot
  rw [map_nodeAt hφ, padded_map]

end Merkle
