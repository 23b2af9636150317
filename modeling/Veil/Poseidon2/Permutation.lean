/-
# The Poseidon2 permutation

`zkhash`'s `Poseidon2::permutation` (`poseidon2/src/poseidon2/poseidon2.rs`), the function that
the indexer, the client tools and, through the host, both contracts hash with.  The circuits
unfold the same rounds into constraints.

The state is a list of field elements.  One linear layer is followed by `roundsFDiv2` full
rounds, `roundsP` partial rounds and `roundsFDiv2` full rounds again.  A full round adds a row of
constants, raises every element to the fifth power and applies the external matrix.  A partial
round does the first two only to the first element and applies the internal matrix.

The source also has widths 8 to 24 and exponents 3 and 7, for other fields.  Nothing here hashes
with them, so the model refuses them (`none`) together with what the source panics on.
-/
import Mathlib

namespace Veil

/-- `Poseidon2Params`, without the dense matrices that the permutation never reads. -/
structure Poseidon2Params (R : Type*) where
  t : Nat
  d : Nat
  roundsFDiv2 : Nat
  roundsP : Nat
  matInternalDiagM1 : List R
  roundConstants : List (List R)

namespace Poseidon2

variable {R : Type*} [Add R] [Mul R]

/-- The S-box at `d = 5`: two squarings and a product. -/
def sboxP (input : R) : R :=
  let input2 := input * input
  input2 * input2 * input

def sbox (input : List R) : List R := input.map sboxP

/-- The cheap matrix of width 4, as the source adds it up. -/
def matmulM4 (x0 x1 x2 x3 : R) : List R :=
  let t0 := x0 + x1
  let t1 := x2 + x3
  let t2 := x1 + x1 + t1
  let t3 := x3 + x3 + t0
  let t4 := (t1 + t1) + (t1 + t1) + t3
  let t5 := (t0 + t0) + (t0 + t0) + t2
  let t6 := t3 + t5
  let t7 := t2 + t4
  [t6, t5, t7, t4]

def matmulExternal : List R → List R
  | [x0, x1] =>
    let sum := x0 + x1
    [x0 + sum, x1 + sum]
  | [x0, x1, x2] =>
    let sum := x0 + x1 + x2
    [x0 + sum, x1 + sum, x2 + sum]
  | [x0, x1, x2, x3] => matmulM4 x0 x1 x2 x3
  | input => input

/-- Widths 2 and 3 have their diagonal built in; width 4 reads it from the parameters. -/
def matmulInternal (matInternalDiagM1 : List R) : List R → List R
  | [x0, x1] =>
    let sum := x0 + x1
    [x0 + sum, x1 + x1 + sum]
  | [x0, x1, x2] =>
    let sum := x0 + x1 + x2
    [x0 + sum, x1 + sum, x2 + x2 + sum]
  | [x0, x1, x2, x3] =>
    let sum := x0 + x1 + x2 + x3
    List.zipWith (fun x m => x * m + sum) [x0, x1, x2, x3] matInternalDiagM1
  | input => input

def addRc (input rc : List R) : List R := List.zipWith (· + ·) input rc

def fullRound (state rc : List R) : List R := matmulExternal (sbox (addRc state rc))

def partialRound (matInternalDiagM1 : List R) (state rc : List R) : List R :=
  match state, rc with
  | x :: xs, c :: _ => matmulInternal matInternalDiagM1 (sboxP (x + c) :: xs)
  | state, _ => state

/-- `Poseidon2::permutation`.  Round `r` reads row `r` of the constants, so the three loops walk
three consecutive blocks of rows. -/
def permutation (params : Poseidon2Params R) (input : List R) : Option (List R) :=
  if input.length ≠ params.t ∨ params.d ≠ 5 ∨ params.t ∉ [2, 3, 4] then none
  else
    let rows := params.roundConstants
    let state := (rows.take params.roundsFDiv2).foldl fullRound (matmulExternal input)
    let state := ((rows.drop params.roundsFDiv2).take params.roundsP).foldl
      (partialRound params.matInternalDiagM1) state
    some ((rows.drop (params.roundsFDiv2 + params.roundsP)).foldl fullRound state)

/-! ## The three blocks of rounds -/

/-- The rounds, with the constants of each block on their own. -/
def rounds (matInternalDiagM1 : List R) (begins : List (List R)) (partials : List R)
    (ends : List (List R)) (input : List R) : List R :=
  ends.foldl fullRound (partials.foldl (fun state c => partialRound matInternalDiagM1 state [c])
    (begins.foldl fullRound (matmulExternal input)))

/-- A partial round reads the first constant of its row only. -/
theorem partialRound_cons (diag state : List R) (c : R) (rc : List R) :
    partialRound diag state (c :: rc) = partialRound diag state [c] := by
  cases state <;> rfl

theorem foldl_partialRound (diag : List R) : ∀ {rows : List (List R)} {partials : List R}
    (state : List R), rows.map List.head? = partials.map some →
    rows.foldl (partialRound diag) state =
      partials.foldl (fun state c => partialRound diag state [c]) state
  | [], [], _, _ => rfl
  | row :: rows, c :: partials, state, h => by
    obtain ⟨hc, htail⟩ := List.cons.inj h
    obtain ⟨rc, rfl⟩ := List.head?_eq_some_iff.mp hc
    rw [List.foldl_cons, List.foldl_cons, partialRound_cons]
    exact foldl_partialRound diag _ htail

/-- **The permutation reads its table in three blocks**, and of the rows in the middle their heads
only. -/
theorem permutation_eq_rounds {params : Poseidon2Params R} {input : List R}
    {begins middle ends : List (List R)} {partials : List R}
    (hrows : params.roundConstants = begins ++ middle ++ ends)
    (hbegins : begins.length = params.roundsFDiv2) (hmiddle : middle.length = params.roundsP)
    (hheads : middle.map List.head? = partials.map some) (hlen : input.length = params.t)
    (hd : params.d = 5) (ht : params.t ∈ [2, 3, 4]) :
    permutation params input =
      some (rounds params.matInternalDiagM1 begins partials ends input) := by
  have hpre : ¬(input.length ≠ params.t ∨ params.d ≠ 5 ∨ params.t ∉ [2, 3, 4]) := by
    simp [hlen, hd, ht]
  have hboth : (begins ++ middle).length = params.roundsFDiv2 + params.roundsP := by
    rw [List.length_append, hbegins, hmiddle]
  rw [permutation, if_neg hpre, rounds, ← foldl_partialRound _ _ hheads]
  dsimp only
  rw [hrows, ← hboth, List.drop_left, List.append_assoc, ← hbegins, List.take_left,
    List.drop_left, ← hmiddle, List.take_left]

end Poseidon2

end Veil
