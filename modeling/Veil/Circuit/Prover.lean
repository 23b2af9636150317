/-
# The client that builds a proof

`tools/policy-fixture/src/lib.rs`: from a `Transaction` of plain numbers `transaction_inputs`
computes the values of the circuit's input signals, or refuses.  `tools/demo/src/flows.rs` reads
the arguments of `transact` off the public signals.

Three programs have to agree here.  The client balances 128-bit integers, the circuit balances
field elements and checks ranges, and the pool encodes a signed 256-bit amount.  Each has an order
of its own for the public values.

* `transactionInputs` is the client as written; its result is a list of named values;
* `CircuitInputs.ofRecords` is what the witness generator makes of such a list: every signal gets
  the values pushed under its name, arrays in row-major order;
* `inputChecked` and `outputChecked` are the circuit's constraints on one note.
-/
import Veil.Contract.TokenBalance

namespace Veil

open Tx Unsigned

namespace PolicyFixture

/-! ## 1. Hashes -/

/-- Depth of the trees the circuit was compiled for. -/
def levels : Nat := 16

def poseidon2Hash2 (a b : F) (domainSeparator : Option F) : F :=
  poseidon2Two a b (domainSeparator.getD 0)

def poseidon2Hash3 (a b c : F) (domainSeparator : Option F) : F :=
  poseidon2Three a b c (domainSeparator.getD 0)

def derivePublicKey (privateKey : F) : F := poseidon2Hash2 privateKey 0 (some (3 : Nat))

def sign (privateKey commitment merklePath : F) : F :=
  poseidon2Hash3 privateKey commitment merklePath (some (4 : Nat))

def commitment (amount publicKey blinding : F) : F :=
  poseidon2Hash3 amount publicKey blinding (some (1 : Nat))

def nullifier (commitment pathIndices signature : F) : F :=
  poseidon2Hash3 commitment pathIndices signature (some (2 : Nat))

def noteNullifier (privateKey commitment : F) (pathIndices : Nat) : F :=
  nullifier commitment pathIndices (sign privateKey commitment pathIndices)

/-- The allowlist leaf enrolling a note public key (membership blinding 0). -/
def membershipLeaf (publicKey : F) : F := poseidon2Hash2 publicKey 0 (some (1 : Nat))

/-! ## 2. Transactions -/

/-- A note being spent. -/
structure SpentNote where
  privateKey : F
  blinding : F
  amount : Nat
  leafIndex : Nat
  pathElements : List F

/-- A note being created. -/
structure CreatedNote where
  publicKey : F
  blinding : F
  amount : Nat

/-- The allowlist path of a spender's membership leaf. -/
structure Membership where
  pathElements : List F
  pathIndices : Nat
  root : F

/-- Everything a `policy_tx_2_2` proof binds; the arrays of two are pairs. -/
structure Transaction where
  root : F
  extAmount : Int
  extDataHash : Nat
  inputs : SpentNote × SpentNote
  memberships : Membership × Membership
  outputs : CreatedNote × CreatedNote

/-- Why a transaction is refused. -/
inductive TransactionError where
  | inputAmountsOverflow
  | outputAmountsOverflow
  | unbalanced (sumIn : Nat) (extAmount : Int) (sumOut : Nat)
  | inputPath
  | sameNullifier
  | membershipPath
  deriving DecidableEq, Repr

def TransactionError.message : TransactionError → String
  | .inputAmountsOverflow => "input amounts overflow"
  | .outputAmountsOverflow => "output amounts overflow"
  | .unbalanced sumIn extAmount sumOut =>
    s!"inputs ({sumIn}) plus the external amount ({extAmount}) must equal the outputs ({sumOut})"
  | .inputPath => s!"an input path needs {levels} elements"
  | .sameNullifier =>
    "the two inputs have the same nullifier; give dummy inputs a fresh blinding"
  | .membershipPath => s!"a membership path needs {levels} elements"

/-! ## 3. Signals -/

/-- The fields of the bus `MembershipProof`. -/
inductive MembershipField where
  | leaf
  | blinding
  | pathIndices
  | pathElements
  deriving DecidableEq, Repr

/-- The input signals of the circuit. -/
inductive Signal where
  | root
  | publicAmount
  | extDataHash
  | inputNullifier
  | outputCommitment
  | membershipRoots
  | membershipProofs (index : Nat) (field : MembershipField)
  | inAmount
  | inPrivateKey
  | inBlinding
  | inPathIndices
  | inPathElements
  | outAmount
  | outPubkey
  | outBlinding
  deriving DecidableEq, Repr

/-- The values pushed, under the signals' names. -/
abbrev Records := List (Signal × List Nat)

/-- `push_scalars`. -/
def scalars (signal : Signal) (values : List F) : Signal × List Nat :=
  (signal, values.map ZMod.val)

structure PolicyInputs where
  values : Records
  inputCommitments : List Nat
  membershipLeaves : List Nat

/-! ## 4. `transaction_inputs` -/

def sumAmounts (amounts : List Nat) : Option Nat := amounts.foldlM (checkedAdd 128) 0

def checkedSub (a b : Nat) : Option Nat := if b ≤ a then some (a - b) else none

def balanced (extAmount : Int) (sumIn sumOut : Nat) : Bool :=
  if extAmount ≥ 0 then checkedAdd 128 sumIn extAmount.natAbs == some sumOut
  else checkedSub sumIn extAmount.natAbs == some sumOut

def publicAmount (extAmount : Int) : F :=
  if extAmount ≥ 0 then (extAmount.natAbs : F) else 0 - (extAmount.natAbs : F)

namespace SpentNote

def publicKey (note : SpentNote) : F := derivePublicKey note.privateKey

def commitment (note : SpentNote) : F :=
  PolicyFixture.commitment note.amount note.publicKey note.blinding

def nullifier (note : SpentNote) : F :=
  noteNullifier note.privateKey note.commitment note.leafIndex

end SpentNote

def CreatedNote.commitment (note : CreatedNote) : F :=
  PolicyFixture.commitment note.amount note.publicKey note.blinding

/-- The records of one membership proof. -/
def membershipRecords (index : Nat) (note : SpentNote) (membership : Membership) : Records :=
  [scalars (.membershipProofs index .leaf) [membershipLeaf note.publicKey],
   scalars (.membershipProofs index .blinding) [0],
   scalars (.membershipProofs index .pathIndices) [(membership.pathIndices : F)],
   scalars (.membershipProofs index .pathElements) membership.pathElements]

def records (tx : Transaction) : Records :=
  let ins := [tx.inputs.1, tx.inputs.2]
  let outs := [tx.outputs.1, tx.outputs.2]
  [scalars .root [tx.root],
   scalars .publicAmount [publicAmount tx.extAmount],
   scalars .extDataHash [(tx.extDataHash : F)],
   scalars .inputNullifier (ins.map (·.nullifier)),
   scalars .outputCommitment (outs.map (·.commitment)),
   scalars .membershipRoots [tx.memberships.1.root, tx.memberships.2.root]] ++
  membershipRecords 0 tx.inputs.1 tx.memberships.1 ++
  membershipRecords 1 tx.inputs.2 tx.memberships.2 ++
  [scalars .inAmount (ins.map fun note => (note.amount : F)),
   scalars .inPrivateKey (ins.map (·.privateKey)),
   scalars .inBlinding (ins.map (·.blinding)),
   scalars .inPathIndices (ins.map fun note => (note.leafIndex : F)),
   scalars .inPathElements (ins.flatMap (·.pathElements)),
   scalars .outAmount (outs.map fun note => (note.amount : F)),
   scalars .outPubkey (outs.map (·.publicKey)),
   scalars .outBlinding (outs.map (·.blinding))]

def transactionInputs (tx : Transaction) : Except TransactionError PolicyInputs := do
  let sumIn ← okOr (sumAmounts [tx.inputs.1.amount, tx.inputs.2.amount]) .inputAmountsOverflow
  let sumOut ← okOr (sumAmounts [tx.outputs.1.amount, tx.outputs.2.amount]) .outputAmountsOverflow
  ensure (balanced tx.extAmount sumIn sumOut = true) (.unbalanced sumIn tx.extAmount sumOut)
  ensure (tx.inputs.1.pathElements.length = levels) .inputPath
  ensure (tx.inputs.2.pathElements.length = levels) .inputPath
  ensure (tx.inputs.1.nullifier ≠ tx.inputs.2.nullifier) .sameNullifier
  ensure (tx.memberships.1.pathElements.length = levels) .membershipPath
  ensure (tx.memberships.2.pathElements.length = levels) .membershipPath
  .ok { values := records tx
        inputCommitments := [tx.inputs.1.commitment.val, tx.inputs.2.commitment.val]
        membershipLeaves := [(membershipLeaf tx.inputs.1.publicKey).val,
          (membershipLeaf tx.inputs.2.publicKey).val] }

/-! ## 5. The witness generator -/

/-- The values pushed under a signal's name. -/
def Records.read (rs : Records) (signal : Signal) : List F :=
  (rs.filter (·.1 = signal)).flatMap fun r => r.2.map (Nat.cast : Nat → F)

/-- How many values the circuit declares for a signal. -/
def Signal.size : Signal → Nat
  | .root | .publicAmount | .extDataHash => 1
  | .membershipProofs index field =>
    if index < 2 then
      match field with
      | .pathElements => levels
      | _ => 1
    else 0
  | .inPathElements => 2 * levels
  | _ => 2

/-- The circuit's input signals. -/
structure CircuitInputs where
  pub : Circuit.PublicSignals
  witness : Circuit.Witness

def membershipProof (rs : Records) (index : Nat) : Circuit.MembershipProof where
  leaf := (rs.read (.membershipProofs index .leaf)).headD 0
  blinding := (rs.read (.membershipProofs index .blinding)).headD 0
  pathElements := rs.read (.membershipProofs index .pathElements)
  pathIndices := (rs.read (.membershipProofs index .pathIndices)).headD 0

def inputSignals (rs : Records) (index : Nat) : Circuit.InputSignals where
  inAmount := (rs.read .inAmount).getD index 0
  inPrivateKey := (rs.read .inPrivateKey).getD index 0
  inBlinding := (rs.read .inBlinding).getD index 0
  inPathIndices := (rs.read .inPathIndices).getD index 0
  inPathElements := ((rs.read .inPathElements).drop (levels * index)).take levels
  membershipProofs := [membershipProof rs index]

def outputSignals (rs : Records) (index : Nat) : Circuit.OutputSignals where
  outAmount := (rs.read .outAmount).getD index 0
  outPubkey := (rs.read .outPubkey).getD index 0
  outBlinding := (rs.read .outBlinding).getD index 0

/-- The assignment of `PolicyTransaction(2, 2, 1, 16)`. -/
def CircuitInputs.ofRecords (rs : Records) : CircuitInputs where
  pub := {
    root := (rs.read .root).headD 0
    publicAmount := (rs.read .publicAmount).headD 0
    extDataHash := (rs.read .extDataHash).headD 0
    inputNullifier := rs.read .inputNullifier
    outputCommitment := rs.read .outputCommitment
    membershipRoots := (rs.read .membershipRoots).map fun root => [root] }
  witness := {
    ins := [inputSignals rs 0, inputSignals rs 1]
    outs := [outputSignals rs 0, outputSignals rs 1] }

/-- The arguments of `transact`, off the public signals (`proof_json` of the client). -/
def proofJson (proof : Groth16Proof) (publicInputs : List F) : Proof where
  proof := proof
  root := (publicInputs.getD 0 0).val
  publicAmount := (publicInputs.getD 1 0).val
  extDataHash := (publicInputs.getD 2 0).val
  inputNullifiers := [(publicInputs.getD 3 0).val, (publicInputs.getD 4 0).val]
  outputCommitment0 := (publicInputs.getD 5 0).val
  outputCommitment1 := (publicInputs.getD 6 0).val
  aspMembershipRoot := (publicInputs.getD 7 0).val

/-! ## 6. The assignment, signal by signal -/

@[simp] theorem read_nil (signal : Signal) : Records.read [] signal = [] := rfl

theorem read_scalars_cons (signal s : Signal) (values : List F) (rs : Records) :
    Records.read (scalars s values :: rs) signal =
      (if s = signal then values else []) ++ Records.read rs signal := by
  by_cases h : s = signal
  · simp [Records.read, scalars, h]
  · simp [Records.read, scalars, h]

/-- The signals of an input note, as the client means them. -/
def spentSignals (note : SpentNote) (membership : Membership) : Circuit.InputSignals where
  inAmount := note.amount
  inPrivateKey := note.privateKey
  inBlinding := note.blinding
  inPathIndices := note.leafIndex
  inPathElements := note.pathElements
  membershipProofs := [{
    leaf := membershipLeaf note.publicKey
    blinding := 0
    pathElements := membership.pathElements
    pathIndices := membership.pathIndices }]

def createdSignals (note : CreatedNote) : Circuit.OutputSignals where
  outAmount := note.amount
  outPubkey := note.publicKey
  outBlinding := note.blinding

/-- The assignment a transaction means. -/
def meant (tx : Transaction) : CircuitInputs where
  pub := {
    root := tx.root
    publicAmount := publicAmount tx.extAmount
    extDataHash := tx.extDataHash
    inputNullifier := [tx.inputs.1.nullifier, tx.inputs.2.nullifier]
    outputCommitment := [tx.outputs.1.commitment, tx.outputs.2.commitment]
    membershipRoots := [[tx.memberships.1.root], [tx.memberships.2.root]] }
  witness := {
    ins := [spentSignals tx.inputs.1 tx.memberships.1, spentSignals tx.inputs.2 tx.memberships.2]
    outs := [createdSignals tx.outputs.1, createdSignals tx.outputs.2] }

/-- **The witness generator reads what the client means.** -/
theorem ofRecords_records {tx : Transaction} (h1 : tx.inputs.1.pathElements.length = levels)
    (h2 : tx.inputs.2.pathElements.length = levels) :
    CircuitInputs.ofRecords (records tx) = meant tx := by
  have hfirst : (tx.inputs.1.pathElements ++ tx.inputs.2.pathElements).take levels =
      tx.inputs.1.pathElements := by rw [← h1, List.take_left]
  have hsecond : (tx.inputs.2.pathElements).take levels = tx.inputs.2.pathElements := by
    rw [← h2, List.take_length]
  have hdrop : (tx.inputs.1.pathElements ++ tx.inputs.2.pathElements).drop levels =
      tx.inputs.2.pathElements := by rw [← h1, List.drop_left]
  simp [CircuitInputs.ofRecords, inputSignals, outputSignals, membershipProof, records,
    membershipRecords, read_scalars_cons, meant, spentSignals, createdSignals, hfirst, hsecond,
    hdrop]

/-- Every signal gets as many values as the circuit declares. -/
theorem length_read_records {tx : Transaction} (h1 : tx.inputs.1.pathElements.length = levels)
    (h2 : tx.inputs.2.pathElements.length = levels)
    (h3 : tx.memberships.1.pathElements.length = levels)
    (h4 : tx.memberships.2.pathElements.length = levels) (signal : Signal) :
    (Records.read (records tx) signal).length = signal.size := by
  rcases signal with _ | _ | _ | _ | _ | _ | ⟨index, field⟩ | _ | _ | _ | _ | _ | _ | _ | _
  case membershipProofs =>
    rcases index with _ | _ | index <;> cases field <;>
      simp [records, membershipRecords, read_scalars_cons, Signal.size, h3, h4]
  all_goals
    simp [records, membershipRecords, read_scalars_cons, Signal.size, h1, h2, two_mul]

/-! ## 7. What the client refuses -/

theorem sumAmounts_pair {a b sum : Nat} :
    sumAmounts [a, b] = some sum ↔ a + b < 2 ^ 128 ∧ sum = a + b := by
  simp only [sumAmounts, List.foldlM_cons, List.foldlM_nil, Option.bind_eq_bind,
    Option.bind_eq_some_iff, checkedAdd_eq_some, Option.pure_def, Option.some.injEq]
  constructor
  · rintro ⟨_, ⟨_, rfl⟩, _, ⟨hb, rfl⟩, rfl⟩
    exact ⟨by omega, by omega⟩
  · rintro ⟨h, rfl⟩
    exact ⟨a, ⟨by omega, by omega⟩, a + b, ⟨by omega, rfl⟩, rfl⟩

/-- Amounts that fit together are added up. -/
theorem sumAmounts_of_lt {amounts : List Nat} (h : amounts.sum < 2 ^ 128) :
    sumAmounts amounts = some amounts.sum := by
  have hfold : ∀ (l : List Nat) (acc : Nat), acc + l.sum < 2 ^ 128 →
      l.foldlM (checkedAdd 128) acc = some (acc + l.sum) := by
    intro l
    induction l with
    | nil => exact fun acc _ => rfl
    | cons a l ih =>
      intro acc hlt
      rw [List.sum_cons] at hlt ⊢
      have hadd : checkedAdd 128 acc a = some (acc + a) :=
        checkedAdd_eq_some.mpr ⟨by omega, rfl⟩
      rw [List.foldlM_cons, hadd, Option.bind_eq_bind, Option.bind_some, ih _ (by omega),
        Nat.add_assoc]
  rw [sumAmounts, hfold amounts 0 (by omega), Nat.zero_add]

/-- On sums that fit, the check of the balance is the balance of the integers. -/
theorem balanced_iff {extAmount : Int} {sumIn sumOut : Nat} (h : sumOut < 2 ^ 128) :
    balanced extAmount sumIn sumOut = true ↔ (sumIn : Int) + extAmount = sumOut := by
  unfold balanced
  split
  · rw [beq_iff_eq, checkedAdd_eq_some]
    omega
  · simp only [checkedSub, beq_iff_eq, Option.ite_none_right_eq_some, Option.some.injEq]
    omega

/-- What a transaction satisfies when the client accepts it. -/
structure Accepted (tx : Transaction) : Prop where
  sumIn : tx.inputs.1.amount + tx.inputs.2.amount < 2 ^ 128
  sumOut : tx.outputs.1.amount + tx.outputs.2.amount < 2 ^ 128
  balance : (tx.inputs.1.amount : Int) + tx.inputs.2.amount + tx.extAmount =
    tx.outputs.1.amount + tx.outputs.2.amount
  path1 : tx.inputs.1.pathElements.length = levels
  path2 : tx.inputs.2.pathElements.length = levels
  nullifiers : tx.inputs.1.nullifier ≠ tx.inputs.2.nullifier
  member1 : tx.memberships.1.pathElements.length = levels
  member2 : tx.memberships.2.pathElements.length = levels

theorem transactionInputs_ok {tx : Transaction} {inputs : PolicyInputs}
    (h : transactionInputs tx = .ok inputs) : Accepted tx ∧ inputs.values = records tx := by
  simp only [transactionInputs, bind_eq_ok, okOr_eq_ok, ensure_eq_ok, sumAmounts_pair,
    Except.ok.injEq] at h
  obtain ⟨_, ⟨hin, rfl⟩, _, ⟨hout, rfl⟩, _, hbalance, _, h1, _, h2, _, hne, _, h3, _, h4, rfl⟩ := h
  have hint := (balanced_iff hout).mp hbalance
  exact ⟨⟨hin, hout, by push_cast at hint; exact hint, h1, h2, hne, h3, h4⟩, rfl⟩

/-- **And the client accepts every such transaction.** -/
theorem Accepted.transactionInputs {tx : Transaction} (h : Accepted tx) :
    ∃ inputs, PolicyFixture.transactionInputs tx = .ok inputs := by
  have hbalance : balanced tx.extAmount (tx.inputs.1.amount + tx.inputs.2.amount)
      (tx.outputs.1.amount + tx.outputs.2.amount) = true := by
    have := h.balance
    rw [balanced_iff h.sumOut]
    push_cast
    exact this
  rw [PolicyFixture.transactionInputs, sumAmounts_pair.mpr ⟨h.sumIn, rfl⟩, okOr_some, ok_bind,
    sumAmounts_pair.mpr ⟨h.sumOut, rfl⟩, okOr_some, ok_bind, ensure_pos hbalance, ok_bind,
    ensure_pos h.path1, ok_bind, ensure_pos h.path2, ok_bind, ensure_pos h.nullifiers, ok_bind,
    ensure_pos h.member1, ok_bind, ensure_pos h.member2, ok_bind]
  exact ⟨_, rfl⟩

/-! ## 8. An honest transaction -/

/-- The paths of an input lead where the circuit checks that they do.  A dummy's path is free. -/
structure Spendable (root : F) (note : SpentNote) (membership : Membership) : Prop where
  leafIndex : note.leafIndex < 2 ^ levels
  leads : note.amount ≠ 0 →
    Merkle.foldPath compress note.pathElements note.leafIndex note.commitment = root
  pathIndices : membership.pathIndices < 2 ^ levels
  enrolled : Merkle.foldPath compress membership.pathElements membership.pathIndices
    (membershipLeaf note.publicKey) = membership.root

structure Honest (tx : Transaction) : Prop where
  extDataHash : tx.extDataHash < bn256Modulus
  sharedRoot : tx.memberships.1.root = tx.memberships.2.root
  first : Spendable tx.root tx.inputs.1 tx.memberships.1
  second : Spendable tx.root tx.inputs.2 tx.memberships.2

section Constraints

variable {lib : Circuit.Circomlib}

/-- **One input.** -/
theorem inputChecked {root : F} {note : SpentNote} {membership : Membership}
    (h : Spendable root note membership) (hpath : note.pathElements.length = levels)
    (hmember : membership.pathElements.length = levels) :
    Circuit.InputChecked lib levels root (note.nullifier, [membership.root])
      (spentSignals note membership) where
  nullifier := rfl
  tree := by
    refine ⟨_, Circuit.merkleProof_of_lt (by decide) hpath h.leafIndex,
      (lib.forceEqualIfEnabled_iff _ _ _).mpr ?_⟩
    intro hne
    -- what is not zero in the field is not zero
    have hne' : note.amount ≠ 0 := fun h0 => hne (by simp [spentSignals, h0])
    exact (h.leads hne').symm
  membership := by
    refine .cons ⟨rfl, ?_⟩ .nil
    rw [← h.enrolled]
    exact Circuit.merkleProof_of_lt (by decide) hmember h.pathIndices

/-- **One output.** -/
theorem outputChecked {note : CreatedNote} (hamount : note.amount < 2 ^ 128) :
    Circuit.OutputChecked lib note.commitment (createdSignals note) where
  commitment := rfl
  amountCheck := by
    have hval : (note.amount : F).val = note.amount :=
      Circuit.val_cast_of_lt (by decide) hamount
    refine ⟨_, Circuit.num2Bits_complete (n := 248) ?_⟩
    show (note.amount : F).val < 2 ^ 248
    rw [hval]
    exact lt_trans hamount (by norm_num)

end Constraints

/-- The public amount is the external amount, in the field. -/
theorem publicAmount_eq (extAmount : Int) : publicAmount extAmount = (extAmount : F) := by
  unfold publicAmount
  split
  case isTrue h => rw [← Int.cast_natCast, Int.natAbs_of_nonneg h]
  case isFalse h =>
    rw [zero_sub, ← Int.cast_natCast, Int.ofNat_natAbs_of_nonpos (by omega), Int.cast_neg, neg_neg]

/-- **The assignment satisfies the circuit.** -/
theorem policyTransaction_meant {lib : Circuit.Circomlib} {tx : Transaction} (h : Accepted tx)
    (honest : Honest tx) :
    Circuit.PolicyTransaction lib 2 2 1 levels (meant tx).pub (meant tx).witness where
  inputNullifier_length := rfl
  outputCommitment_length := rfl
  membershipRoots_length := rfl
  membershipRoots_row := by simp [meant]
  inputs := by
    exact .cons (inputChecked honest.first h.path1 h.member1)
      (.cons (inputChecked honest.second h.path2 h.member2) .nil)
  outputs := by
    have hout := h.sumOut
    exact .cons (outputChecked (by omega)) (.cons (outputChecked (by omega)) .nil)
  sameNullifiers := by simpa [meant, lib.isEqual_iff] using h.nullifiers
  balance := by
    have hfield := congrArg (Int.cast : Int → F) h.balance
    push_cast at hfield
    simpa [meant, spentSignals, createdSignals, publicAmount_eq] using hfield

/-- The external amount is far below the pool's bound. -/
theorem Accepted.calculatePublicAmount {tx : Transaction} (h : Accepted tx) :
    Pool.calculatePublicAmount tx.extAmount = .ok (publicAmount tx.extAmount).val := by
  have hin := h.sumIn
  have hout := h.sumOut
  have hbalance := h.balance
  have habs : |tx.extAmount| < 2 ^ 248 := by
    have hpow : (2 : Int) ^ 128 < 2 ^ 248 := by norm_num
    have hin' : (tx.inputs.1.amount : Int) + tx.inputs.2.amount < 2 ^ 128 := by exact_mod_cast hin
    have hout' : (tx.outputs.1.amount : Int) + tx.outputs.2.amount < 2 ^ 128 := by
      exact_mod_cast hout
    rw [abs_lt]
    constructor <;> omega
  obtain ⟨n, hlt, hok⟩ := Pool.calculatePublicAmount_of_lt habs
  have hcast := (Pool.calculatePublicAmount_ok hok).2
  rw [hok, publicAmount_eq, ← hcast, ZMod.val_natCast_of_lt hlt]

/-- **The client's order of the public values is the pool's.** -/
theorem verifierPublicInputs_proofJson {tx : Transaction} (honest : Honest tx)
    (proof : Groth16Proof) :
    Pool.verifierPublicInputs (proofJson proof (meant tx).pub.toVector) =
      (meant tx).pub.toVector := by
  simp [Pool.verifierPublicInputs, proofJson, Circuit.PublicSignals.toVector, meant,
    honest.sharedRoot]

/-! ## 9. The client and the pool -/

/-- **The proof a client builds is the proof the pool checks.**  For every honest transaction the
client accepts, each signal gets the number of values declared, the assignment satisfies the
circuit, the public amount and the hash are those the pool computes and compares with, and the
vector the pool hands to the verifier is the vector of public signals.  What does not balance over
the integers, or spends one nullifier twice, is refused. -/
theorem client_proof_is_the_proof_checked (lib : Circuit.Circomlib) (tx : Transaction) :
    (∀ inputs, transactionInputs tx = .ok inputs → Honest tx → ∀ proof : Groth16Proof,
      let circuit := CircuitInputs.ofRecords inputs.values
      let args := proofJson proof circuit.pub.toVector
      (∀ signal, (inputs.values.read signal).length = signal.size) ∧
        Circuit.PolicyTransaction lib 2 2 1 levels circuit.pub circuit.witness ∧
        Pool.calculatePublicAmount tx.extAmount = .ok args.publicAmount ∧
        args.extDataHash = tx.extDataHash ∧
        Pool.verifierPublicInputs args = circuit.pub.toVector) ∧
    ((tx.inputs.1.amount : Int) + tx.inputs.2.amount + tx.extAmount ≠
          tx.outputs.1.amount + tx.outputs.2.amount ∨
        tx.inputs.1.nullifier = tx.inputs.2.nullifier →
      ∃ e, transactionInputs tx = .error e) := by
  constructor
  · intro inputs hok honest proof
    obtain ⟨h, hvalues⟩ := transactionInputs_ok hok
    rw [hvalues, ofRecords_records h.path1 h.path2]
    refine ⟨length_read_records h.path1 h.path2 h.member1 h.member2,
      policyTransaction_meant h honest, h.calculatePublicAmount, ?_,
      verifierPublicInputs_proofJson honest proof⟩
    exact ZMod.val_natCast_of_lt honest.extDataHash
  · intro hbad
    cases hres : transactionInputs tx with
    | error e => exact ⟨e, rfl⟩
    | ok inputs =>
      obtain ⟨h, _⟩ := transactionInputs_ok hres
      rcases hbad with hbad | hbad
      · exact absurd h.balance hbad
      · exact absurd hbad h.nullifiers

def spendingNote : SpentNote := ⟨1, (5 : Nat), 3, 1, List.replicate levels 0⟩

def dummyNote : SpentNote := ⟨1, 0, 0, 0, List.replicate levels 0⟩

def enrolment : Membership where
  pathElements := List.replicate levels 0
  pathIndices := 0
  root := Merkle.foldPath compress (List.replicate levels 0) 0 (membershipLeaf (derivePublicKey 1))

/-- A withdrawal of 2 from a note of 3, with a dummy beside it. -/
def withdrawalTransaction : Transaction where
  root := Merkle.foldPath compress spendingNote.pathElements 1 spendingNote.commitment
  extAmount := -2
  extDataHash := 7
  inputs := (spendingNote, dummyNote)
  memberships := (enrolment, enrolment)
  outputs := (⟨derivePublicKey 1, 1, 1⟩, ⟨derivePublicKey 1, 0, 0⟩)

theorem honest_withdrawalTransaction : Honest withdrawalTransaction where
  extDataHash := by decide
  sharedRoot := rfl
  first := ⟨by decide, fun _ => rfl, by decide, rfl⟩
  second := ⟨by decide, fun h => absurd rfl h, by decide, rfl⟩

theorem client_proof_of_withdrawal :
    ∃ inputs, transactionInputs withdrawalTransaction = .ok inputs ∧
      Honest withdrawalTransaction ∧
      Circuit.PolicyTransaction Circuit.Circomlib.standard 2 2 1 levels
        (CircuitInputs.ofRecords inputs.values).pub
        (CircuitInputs.ofRecords inputs.values).witness := by
  have hrun : okAnd (transactionInputs withdrawalTransaction) (fun _ => true) = true := by
    decide +kernel
  obtain ⟨inputs, hok, _⟩ := okAnd_eq_true.mp hrun
  have h := (client_proof_is_the_proof_checked Circuit.Circomlib.standard
    withdrawalTransaction).1 inputs hok honest_withdrawalTransaction ⟨0, 0, 0⟩
  exact ⟨inputs, hok, honest_withdrawalTransaction, h.2.1⟩

end PolicyFixture

end Veil
