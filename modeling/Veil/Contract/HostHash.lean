/-
# The contracts' hashes and the host

`soroban-utils/src/poseidon2.rs`.  The contracts do not run the permutation themselves: they hand
its parameters to the host.  Of the host this is known (`Host`): a call that is well shaped, with
`t` inputs, `t` diagonal entries and one row of `t` constants for each round, is answered with the
Poseidon2 permutation of those parameters.  Nothing is known of its answer to any other call.

* `poseidon2_hash2` calls it with the table of width 3, which is well shaped and is the circuit's
  (`cast_roundConstantsT3`);
* `poseidon2_compress` calls it with the table of width 2, of which row 29 lacks its second entry.
  The call is never well shaped, and a host that insists on the shape traps (`strictHost`).

The missing entry is one that no partial round uses.  A host that does not look at the shape
computes the circuit's hash all the same (`poseidon2Compress_lenientHost`): this is the function
`Veil.poseidon2Compress` by which both contracts are modelled.
-/
import Veil.Circuit.Poseidon2
import Veil.Poseidon2.SorobanConstants

namespace Veil

/-! ## 1. The host -/

namespace Poseidon2

/-- The internal matrix of a diagonal: the sum of the state is added to each scaled element. -/
def internalMatrix (matInternalDiagM1 state : List F) : List F :=
  List.zipWith (fun x m => x * m + state.sum) state matInternalDiagM1

def internalRound (matInternalDiagM1 state rc : List F) : List F :=
  match state, rc with
  | x :: xs, c :: _ => internalMatrix matInternalDiagM1 (sboxP (x + c) :: xs)
  | state, _ => state

/-- **The Poseidon2 permutation of any parameters.** -/
def general (roundsF roundsP : Nat) (matInternalDiagM1 : List F) (rows : List (List F))
    (input : List F) : List F :=
  let state := (rows.take (roundsF / 2)).foldl fullRound (matmulExternal input)
  let state := ((rows.drop (roundsF / 2)).take roundsP).foldl (internalRound matInternalDiagM1)
    state
  (rows.drop (roundsF / 2 + roundsP)).foldl fullRound state

end Poseidon2

namespace SorobanUtils

/-- The fields the host knows. -/
inductive FieldSymbol where
  | bls12381
  | bn254
  deriving DecidableEq, Repr

/-- The arguments of `poseidon2_permutation`. -/
structure PermutationCall where
  input : List Nat
  field : FieldSymbol
  t : Nat
  d : Nat
  roundsF : Nat
  roundsP : Nat
  matInternalDiagM1 : List Nat
  roundConstants : List (List Nat)

/-- **A well shaped call.** -/
structure PermutationCall.Shaped (c : PermutationCall) : Prop where
  input : c.input.length = c.t
  diagonal : c.matInternalDiagM1.length = c.t
  rows : c.roundConstants.length = c.roundsF + c.roundsP
  row : ∀ r ∈ c.roundConstants, r.length = c.t

instance (c : PermutationCall) : Decidable c.Shaped :=
  decidable_of_iff (c.input.length = c.t ∧ c.matInternalDiagM1.length = c.t ∧
    c.roundConstants.length = c.roundsF + c.roundsP ∧ ∀ r ∈ c.roundConstants, r.length = c.t)
    ⟨fun ⟨h1, h2, h3, h4⟩ => ⟨h1, h2, h3, h4⟩, fun h => ⟨h.1, h.2, h.3, h.4⟩⟩

/-- The permutation a call asks for. -/
@[irreducible] def PermutationCall.answer (c : PermutationCall) : List Nat :=
  (Poseidon2.general c.roundsF c.roundsP (c.matInternalDiagM1.map (Nat.cast : Nat → F))
    (c.roundConstants.map fun row => row.map (Nat.cast : Nat → F))
    (c.input.map (Nat.cast : Nat → F))).map ZMod.val

/-- A host; `none` is a trap.  The widths and the exponent are those in use. -/
structure Host where
  poseidon2Permutation : PermutationCall → Option (List Nat)
  computes : ∀ c : PermutationCall, c.Shaped → c.field = .bn254 → c.t ∈ [2, 3, 4] → c.d = 5 →
    poseidon2Permutation c = some c.answer

/-! ## 2. The contracts' functions -/

def compressCall (left right : Nat) : PermutationCall where
  input := [left, right]
  field := .bn254
  t := 2
  d := 5
  roundsF := 8
  roundsP := 56
  matInternalDiagM1 := [1, 2]
  roundConstants := getRoundConstantsT2

/-- `U256::add` traps beyond 256 bits. -/
def u256Add (a b : Nat) : Option Nat := if a + b < 2 ^ 256 then some (a + b) else none

def poseidon2Compress (host : Host) (left right : Nat) : Option Nat :=
  if left ≥ bn256Modulus ∨ right ≥ bn256Modulus then none
  else do
    let out ← host.poseidon2Permutation (compressCall left right)
    let out0 ← out[0]?
    let compressed0 ← u256Add out0 left
    some (if compressed0 ≥ bn256Modulus then compressed0 % bn256Modulus else compressed0)

def hash2Call (a b sep : Nat) : PermutationCall where
  input := [a, b, sep]
  field := .bn254
  t := 3
  d := 5
  roundsF := 8
  roundsP := 56
  matInternalDiagM1 := [1, 1, 2]
  roundConstants := getRoundConstantsT3

def poseidon2Hash2 (host : Host) (a b : Nat) (sep : Option Nat) : Option Nat :=
  let sep := sep.getD 0
  if a ≥ bn256Modulus ∨ b ≥ bn256Modulus ∨ sep ≥ bn256Modulus then none
  else do
    let out ← host.poseidon2Permutation (hash2Call a b sep)
    out[0]?

/-! ## 3. The tables -/

/-- The contracts' table of width 3 is the circuit's. -/
theorem cast_roundConstantsT3 :
    getRoundConstantsT3.map (fun row => row.map (Nat.cast : Nat → F)) =
      Poseidon2.rc3Begin ++ Poseidon2.rc3Partial.map (fun c => [c, 0, 0]) ++ Poseidon2.rc3End := by
  decide +kernel

/-- Their table of width 2 is the circuit's at both ends, and in the first entries between. -/
theorem cast_roundConstantsT2 : ∃ middle : List (List F),
    getRoundConstantsT2.map (fun row => row.map (Nat.cast : Nat → F)) =
      Poseidon2.rc2Begin ++ middle ++ Poseidon2.rc2End ∧
    middle.length = 56 ∧ middle.map List.head? = Poseidon2.rc2Partial.map some := by
  refine ⟨((getRoundConstantsT2.map fun row => row.map (Nat.cast : Nat → F)).drop 4).take 56,
    ?_, ?_, ?_⟩ <;> decide +kernel

theorem hash2Call_shaped (a b sep : Nat) : (hash2Call a b sep).Shaped :=
  ⟨rfl, rfl, length_roundConstantsT3.1, length_roundConstantsT3.2⟩

/-- **No call of `poseidon2_compress` is well shaped.** -/
theorem compressCall_not_shaped (left right : Nat) : ¬(compressCall left right).Shaped := by
  intro h
  have hrow : (getRoundConstantsT2.getD 29 []).length = 1 :=
    length_roundConstantsT2.2 29 (by decide)
  have hmem : getRoundConstantsT2.getD 29 [] ∈ getRoundConstantsT2 := by decide +kernel
  have htwo : (getRoundConstantsT2.getD 29 []).length = 2 := h.row _ hmem
  omega

/-! ## 4. The permutation the tables ask for -/

section Permutation

open Circuit

/-- With the circuit's diagonal the general internal round is the circuit's. -/
theorem internalRound_cons {diag : List F} {t : Nat} (h : bn254.Shaped diag t) {state : List F}
    (hlen : state.length = t) (c : F) (rc : List F) :
    Poseidon2.internalRound (bn254.internalMatDiag t) state (c :: rc) =
      Poseidon2.partialRound diag state [c] := by
  cases state with
  | nil => rfl
  | cons x xs =>
    have hmatrix := matmulInternal_eq h.diagonal
      (show (Poseidon2.sboxP (x + c) :: xs).length = t from hlen)
    rw [Poseidon2.partialRound, hmatrix, Poseidon2.internalRound, Poseidon2.internalMatrix]
    simp only [add_comm]

theorem foldl_internalRound {diag : List F} {t : Nat} (h : bn254.Shaped diag t) :
    ∀ {rows : List (List F)} {partials state : List F}, state.length = t →
    rows.map List.head? = partials.map some →
    rows.foldl (Poseidon2.internalRound (bn254.internalMatDiag t)) state =
      partials.foldl (fun state c => Poseidon2.partialRound diag state [c]) state
  | [], [], _, _, _ => rfl
  | row :: rows, c :: partials, state, hs, hheads => by
    obtain ⟨hc, htail⟩ := List.cons.inj hheads
    obtain ⟨rc, rfl⟩ := List.head?_eq_some_iff.mp hc
    rw [List.foldl_cons, List.foldl_cons, internalRound_cons h hs]
    exact foldl_internalRound h (length_partialRound h.diagonal hs c) htail

theorem length_foldl_fullRound {t : Nat} (ht : IsWidth t) : ∀ {rows : List (List F)}
    {state : List F}, state.length = t → (∀ r ∈ rows, r.length = t) →
    (rows.foldl Poseidon2.fullRound state).length = t
  | [], _, hs, _ => hs
  | row :: rows, state, hs, h => by
    rw [List.foldl_cons]
    exact length_foldl_fullRound ht (length_fullRound ht hs (h row List.mem_cons_self))
      fun r hr => h r (List.mem_cons_of_mem _ hr)

/-- **A table with the circuit's full rows at its ends, and rows that start with the circuit's
constants between them, asks for the circuit's permutation.** -/
theorem general_eq_permutation {params : Poseidon2Params F} (h : SameTables bn254 params)
    {begins middle ends : List (List F)} (hfull : bn254.fullRounds params.t = begins ++ ends)
    (hbegins : begins.length = 4) (hends : ends.length = 4) (hmiddle : middle.length = 56)
    (hheads : middle.map List.head? = (bn254.partialRounds params.t).map some) {input : List F}
    (hlen : input.length = params.t) :
    Poseidon2.permutation params input = some (Poseidon2.general 8 56
      (bn254.internalMatDiag params.t) (begins ++ middle ++ ends) input) := by
  have hrow : ∀ r ∈ begins, r.length = params.t := fun r hr =>
    h.row r (hfull ▸ List.mem_append_left ends hr)
  have hstart := length_foldl_fullRound h.shaped.width
    (length_matmulExternal h.shaped.width hlen) hrow
  have htake : (begins ++ middle ++ ends).take 4 = begins := by
    rw [List.append_assoc, ← hbegins, List.take_left]
  have hdrop : ((begins ++ middle ++ ends).drop 4).take 56 = middle := by
    rw [List.append_assoc, ← hbegins, List.drop_left, ← hmiddle, List.take_left]
  have hlast : (begins ++ middle ++ ends).drop 60 = ends := by
    have hboth : (begins ++ middle).length = 60 := by rw [List.length_append, hbegins, hmiddle]
    rw [← hboth, List.drop_left]
  rw [h.permutation_eq_forcedState hlen,
    forcedState_eq_rounds hfull hbegins hends h.partialRounds, Poseidon2.rounds,
    ← foldl_internalRound h.shaped hstart hheads]
  simp only [Poseidon2.general, Nat.reduceDiv, Nat.reduceAdd, htake, hdrop, hlast]

end Permutation

theorem permutation_hash2Call (a b sep : Nat) :
    ∃ out, Poseidon2.permutation Poseidon2.bn256Params3 [(a : F), (b : F), (sep : F)] = some out ∧
      out.length = 3 ∧ (hash2Call a b sep).answer = out.map ZMod.val := by
  have hinput : [(a : F), (b : F), (sep : F)].length = 3 := rfl
  have hdiag : [1, 1, 2].map (Nat.cast : Nat → F) = Circuit.bn254.internalMatDiag 3 := rfl
  obtain ⟨out, hout, hlen⟩ := Circuit.sameTables_three.exists_permutation hinput
  refine ⟨out, hout, hlen, ?_⟩
  unfold PermutationCall.answer
  rw [show (hash2Call a b sep).roundConstants = getRoundConstantsT3 from rfl,
    cast_roundConstantsT3, show (hash2Call a b sep).matInternalDiagM1 = [1, 1, 2] from rfl, hdiag]
  have hfull : Circuit.bn254.fullRounds 3 = Poseidon2.rc3Begin ++ Poseidon2.rc3End := rfl
  have hrounds : Circuit.bn254.partialRounds 3 = Poseidon2.rc3Partial := rfl
  have hheads : (Poseidon2.rc3Partial.map fun c => [c, 0, 0]).map List.head? =
      (Circuit.bn254.partialRounds 3).map some := by
    rw [hrounds, List.map_map]
    rfl
  rw [general_eq_permutation Circuit.sameTables_three hfull rfl rfl rfl hheads hinput,
    Option.some.injEq] at hout
  exact congrArg (List.map ZMod.val) hout

theorem permutation_compressCall (left right : Nat) :
    ∃ out, Poseidon2.permutation Poseidon2.bn256Params2 [(left : F), (right : F)] = some out ∧
      out.length = 2 ∧ (compressCall left right).answer = out.map ZMod.val := by
  have hinput : [(left : F), (right : F)].length = 2 := rfl
  have hdiag : [1, 2].map (Nat.cast : Nat → F) = Circuit.bn254.internalMatDiag 2 := rfl
  obtain ⟨middle, hrows, hmiddle, hheads⟩ := cast_roundConstantsT2
  obtain ⟨out, hout, hlen⟩ := Circuit.sameTables_two.exists_permutation hinput
  refine ⟨out, hout, hlen, ?_⟩
  unfold PermutationCall.answer
  rw [show (compressCall left right).roundConstants = getRoundConstantsT2 from rfl, hrows,
    show (compressCall left right).matInternalDiagM1 = [1, 2] from rfl, hdiag]
  have hfull : Circuit.bn254.fullRounds 2 = Poseidon2.rc2Begin ++ Poseidon2.rc2End := rfl
  have hrounds : Circuit.bn254.partialRounds 2 = Poseidon2.rc2Partial := rfl
  rw [← hrounds] at hheads
  rw [general_eq_permutation Circuit.sameTables_two hfull rfl rfl hmiddle hheads hinput,
    Option.some.injEq] at hout
  exact congrArg (List.map ZMod.val) hout

/-! ## 5. Hashing as the circuit does -/

/-- A call of one of the two hashes. -/
inductive HashCall where
  | compress (left right : Nat)
  | hash2 (a b sep : Nat)

namespace HashCall

/-- The arguments are field elements. -/
def InField : HashCall → Prop
  | .compress left right => left < bn256Modulus ∧ right < bn256Modulus
  | .hash2 a b sep => a < bn256Modulus ∧ b < bn256Modulus ∧ sep < bn256Modulus

/-- What the contract asks of the host. -/
def hostCall : HashCall → PermutationCall
  | .compress left right => compressCall left right
  | .hash2 a b sep => hash2Call a b sep

def run (host : Host) : HashCall → Option Nat
  | .compress left right => poseidon2Compress host left right
  | .hash2 a b sep => poseidon2Hash2 host a b (some sep)

/-- The circuit's constraint between the same inputs and an output. -/
def circuit : HashCall → F → Prop
  | .compress left right => Circuit.poseidonCompress [(left : F), (right : F)]
  | .hash2 a b sep => Circuit.poseidon2 2 [(a : F), (b : F)] sep

def IsHash2 : HashCall → Prop
  | .compress _ _ => False
  | .hash2 _ _ _ => True

end HashCall

/-- **The contract hashes as the circuit does**: its call of the host is well shaped, and it
returns the one field element the circuit's constraints allow. -/
structure HashesAsCircuit (host : Host) (c : HashCall) : Prop where
  shaped : c.hostCall.Shaped
  agrees : ∃ h, c.run host = some h ∧ h < bn256Modulus ∧ ∀ out, c.circuit out ↔ out = (h : F)

/-- The first output of a state of known length. -/
theorem map_val_getElem?_zero {state : List F} (h : state ≠ []) :
    (state.map ZMod.val)[0]? = some (state.headD 0).val := by
  obtain ⟨x, xs, rfl⟩ := List.exists_cons_of_ne_nil h
  rfl

theorem poseidon2Hash2_eq (host : Host) {a b sep : Nat} (ha : a < bn256Modulus)
    (hb : b < bn256Modulus) (hs : sep < bn256Modulus) :
    poseidon2Hash2 host a b (some sep) = some (poseidon2Two a b sep).val := by
  obtain ⟨out, hout, hlen, hanswer⟩ := permutation_hash2Call a b sep
  have hne : out ≠ [] := by
    rintro rfl
    cases hlen
  have hhost := host.computes (hash2Call a b sep) (hash2Call_shaped a b sep) rfl
    (by decide : 3 ∈ [2, 3, 4]) rfl
  rw [hanswer] at hhost
  unfold poseidon2Two
  rw [poseidon2Hash2, Option.getD_some, if_neg (by omega), hhost, Option.bind_eq_bind,
    Option.bind_some, map_val_getElem?_zero hne, hout, Option.getD_some]

/-- **The contracts hash as the circuit does in `poseidon2_hash2`, and only there.**  For every
host and every call on field elements. -/
theorem contracts_hash_as_the_circuit_iff (host : Host) (c : HashCall) (hc : c.InField) :
    HashesAsCircuit host c ↔ c.IsHash2 := by
  cases c with
  | compress left right =>
    exact iff_of_false (fun h => compressCall_not_shaped left right h.shaped) id
  | hash2 a b sep =>
    obtain ⟨ha, hb, hs⟩ := hc
    refine iff_of_true ⟨hash2Call_shaped a b sep, ?_⟩ trivial
    refine ⟨_, poseidon2Hash2_eq host ha hb hs, ZMod.val_lt _, fun out => ?_⟩
    rw [ZMod.natCast_zmod_val]
    exact Circuit.poseidon2_two_iff

/-- A host that traps on a call that is not well shaped. -/
def strictHost : Host where
  poseidon2Permutation c :=
    if c.Shaped ∧ c.field = .bn254 ∧ c.t ∈ [2, 3, 4] ∧ c.d = 5 then some c.answer else none
  computes _ h1 h2 h3 h4 := if_pos ⟨h1, h2, h3, h4⟩

theorem strictHost_traps {c : PermutationCall} (h : ¬c.Shaped) :
    strictHost.poseidon2Permutation c = none := by
  simp [strictHost, h]

theorem contracts_hash_as_the_circuit_hash2 : HashesAsCircuit strictHost (.hash2 1 2 3) :=
  (contracts_hash_as_the_circuit_iff strictHost (.hash2 1 2 3) ⟨by decide, by decide,
    by decide⟩).mpr trivial

/-- On the pair (1, 2) the call is not well shaped, and such a host traps. -/
theorem compress_of_one_and_two_traps : ¬HashesAsCircuit strictHost (.compress 1 2) ∧
    poseidon2Compress strictHost 1 2 = none := by
  refine ⟨fun h => compressCall_not_shaped 1 2 h.shaped, ?_⟩
  rw [poseidon2Compress, if_neg (by decide), strictHost_traps (compressCall_not_shaped 1 2)]
  rfl

/-! ## 6. Hosts that do not look -/

/-- A host that computes with whatever rows it is given. -/
def lenientHost : Host where
  poseidon2Permutation c := some c.answer
  computes _ _ _ _ _ := rfl

/-- **There the missing entry does not matter**: the contracts' hash is the one they are modelled
with. -/
theorem poseidon2Compress_lenientHost (left right : Nat) :
    poseidon2Compress lenientHost left right = Veil.poseidon2Compress left right := by
  by_cases hlt : left ≥ bn256Modulus ∨ right ≥ bn256Modulus
  · rw [poseidon2Compress, if_pos hlt, Veil.poseidon2Compress, if_pos hlt]
  obtain ⟨out, hperm, hlen, hcall⟩ := permutation_compressCall left right
  obtain ⟨p0, p1, rfl⟩ := List.length_eq_two.mp hlen
  have hanswer : lenientHost.poseidon2Permutation (compressCall left right) =
      some [p0.val, p1.val] := congrArg some hcall
  -- the sum of two field elements has at most 255 bits
  have hsum : p0.val + left < 2 ^ 256 := by
    have hp0 := ZMod.val_lt p0
    have hmod := bn256Modulus_lt
    have hpow : (2 : Nat) ^ 256 = 4 * 2 ^ 254 := by norm_num
    omega
  have hadd : u256Add p0.val left = some (p0.val + left) := if_pos hsum
  rw [poseidon2Compress, if_neg hlt, hanswer]
  unfold Veil.poseidon2Compress
  rw [if_neg hlt, hperm]
  change (u256Add p0.val left).bind _ = _
  rw [hadd]
  rfl

end SorobanUtils

end Veil
