/-
# The pool contract

`contracts/pool/src/contract.rs`.  A shielded transaction goes through `settle`, which checks the
proof and its public inputs, marks the nullifiers spent, inserts the two output commitments and
pays out.  `transact` takes the deposit first; `exit` is `settle` without the insertion, open only
once the tree is full.

Four kinds of call leave the contract on the way: the deposit, the allowlist's `get_root`, the
verifier, and the two transfers of a payout.  What they do is not this contract's code, so each
is a parameter (`Externals`): any function of the whole environment that may change it, the
pool's own storage included, or fail.  A failing callee traps the caller.

* `Env` is what a call runs on: the pool's storage, its events so far, and everything else.
* A call returns the new environment or a `Fault`; nothing of a failed call survives.
-/
import Veil.Contract.AspMembership
import Veil.Contract.MerkleWithHistory

namespace Veil

open Tx

/-! ## 1. Data -/

/-- The contract's `ContractError`. -/
inductive ContractError where
  | notAuthorized
  | merkleTreeFull
  | alreadyInitialized
  | wrongLevels
  | nextIndexNotEven
  | wrongExtAmount
  | invalidProof
  | unknownRoot
  | alreadySpentNullifier
  | wrongExtHash
  | notInitialized
  | overflow
  | invalidFee
  | alreadyInsertedCommitment
  | invalidFieldElement
  | treeNotFull
  | depositClosed
  deriving DecidableEq, Repr

/-- `impl From<MerkleError> for ContractError`. -/
def ContractError.ofMerkle : MerkleError → ContractError
  | .alreadyInitialized => .alreadyInitialized
  | .merkleTreeFull => .merkleTreeFull
  | .wrongLevels => .wrongLevels
  | .nextIndexNotEven => .nextIndexNotEven
  | .notInitialized => .notInitialized
  | .overflow => .overflow

/-- The `?` on a result of the tree module. -/
def liftMerkle {α : Type} : Except (Fault MerkleError) α → Except (Fault ContractError) α
  | .ok a => .ok a
  | .error (.contract e) => .error (.contract (.ofMerkle e))
  | .error .notAuthorized => .error .notAuthorized
  | .error .trapped => .error .trapped

@[simp] theorem liftMerkle_eq_ok {α : Type} {x : Except (Fault MerkleError) α} {a : α} :
    liftMerkle x = .ok a ↔ x = .ok a := by
  cases x with
  | ok b => simp [liftMerkle]
  | error e => cases e <;> simp [liftMerkle]

/-- Three curve points in fixed-size byte strings. -/
structure Groth16Proof where
  a : Vector UInt8 64
  b : Vector UInt8 128
  c : Vector UInt8 64
  deriving DecidableEq

/-- True if any of the embedded points is empty. -/
def Groth16Proof.isEmpty (p : Groth16Proof) : Bool :=
  p.a.toList.isEmpty || p.b.toList.isEmpty || p.c.toList.isEmpty

/-- A 256-bit value is its number, a 32-byte hash the number it spells. -/
structure Proof where
  proof : Groth16Proof
  root : Nat
  inputNullifiers : List Nat
  outputCommitment0 : Nat
  outputCommitment1 : Nat
  publicAmount : Nat
  extDataHash : Nat
  aspMembershipRoot : Nat
  deriving DecidableEq

structure ExtData where
  recipient : Address
  extAmount : Int
  encryptedOutput0 : List UInt8
  encryptedOutput1 : List UInt8
  deriving DecidableEq

structure Account where
  owner : Address
  encryptionKey : List UInt8
  noteKey : List UInt8
  deriving DecidableEq

inductive PoolEvent where
  | newCommitment (commitment index : Nat) (encryptedOutput : List UInt8)
  | newNullifier (nullifier : Nat)
  | settlement (nullifier : Nat) (pool : Address) (outputCommitment0 outputCommitment1 : Nat)
      (outputIndex0 outputIndex1 : Nat) (amountBucket : Int) (publicAmount : Nat)
      (recipient : Option Address) (asset : Address)
  | exit (nullifier : Nat) (pool : Address) (amountBucket : Int) (publicAmount : Nat)
      (recipient asset : Address)
  | publicKey (owner : Address) (encryptionKey noteKey : List UInt8)
  deriving DecidableEq, Repr

/-- Maximum protocol fee in basis points. -/
def maxFeeBps : Nat := 10000

/-- The persistent entries under `DataKey` and `MerkleDataKey`.  A `Map<U256, bool>` is the
function of its lookups. -/
structure PoolStorage where
  admin : Option Address
  token : Option Address
  verifier : Option Address
  maximumDepositAmount : Option Nat
  nullifiers : Option (Nat → Option Bool)
  commitments : Option (Nat → Option Bool)
  aspMembership : Option Address
  feeRecipient : Option Address
  feeBps : Option Nat
  tree : MerkleStorage

/-- What a call runs on. -/
structure Env (ρ : Type) where
  pool : PoolStorage
  events : List PoolEvent
  rest : ρ

/-- The host and the other contracts, at each place `transact` and `exit` call them.
`keccak256Xdr` is the digest of the XDR form of the external data, as a number. -/
structure Externals (ρ : Type) where
  currentContractAddress : Address
  keccak256Xdr : ExtData → Nat
  /-- `token.transfer(sender, this, amount)` of a deposit. -/
  transferIn : (token sender this : Address) → (amount : Int) → Env ρ → Option (Env ρ)
  /-- `asp_membership.get_root()`. -/
  getRoot : (aspMembership : Address) → Env ρ → Option (Nat × Env ρ)
  /-- `verifier.verify(proof, public_inputs)`. -/
  verify : (verifier : Address) → Groth16Proof → List F → Env ρ → Option (Bool × Env ρ)
  /-- `token.transfer(this, recipient, amount)` of a payout. -/
  transferOut : (token this recipient : Address) → (amount : Int) → Env ρ → Option (Env ρ)
  /-- `token.transfer(this, fee_recipient, fee)` of a payout. -/
  transferFee : (token this feeRecipient : Address) → (fee : Int) → Env ρ → Option (Env ρ)

namespace Pool

/-- Calls of this contract fail with its own errors. -/
abbrev Result (α : Type) := Except (Fault ContractError) α

/-- The value of a persistent entry, or `NotInitialized`. -/
def read {α : Type} (entry : Option α) : Result α := okOr entry (.contract .notInitialized)

/-! ## 2. Checks and amounts -/

def ensureFieldElement (value : Nat) : Result Unit :=
  ensure (¬value ≥ bn256Modulus) (.contract .invalidFieldElement)

def ensureFieldElements : List Nat → Result Unit
  | [] => .ok ()
  | value :: values => do
    ensureFieldElement value
    ensureFieldElements values

def ensureProofFieldElements (proof : Proof) : Result Unit := do
  ensureFieldElement proof.root
  ensureFieldElement proof.publicAmount
  ensureFieldElements proof.inputNullifiers
  ensureFieldElement proof.outputCommitment0
  ensureFieldElement proof.outputCommitment1
  ensureFieldElement proof.aspMembershipRoot

/-- The loop of `ensure_nullifiers_unspent`, with the local map of the ones already seen. -/
def checkNullifiers (stored : Nat → Option Bool) : (seen : Nat → Option Bool) → List Nat →
    Result Unit
  | _, [] => .ok ()
  | seen, nullifier :: nullifiers => do
    ensure (¬((stored nullifier).getD false = true ∨ (seen nullifier).getD false = true))
      (.contract .alreadySpentNullifier)
    checkNullifiers stored (Function.update seen nullifier (some true)) nullifiers

def ensureNullifiersUnspent (s : PoolStorage) (nullifiers : List Nat) : Result Unit := do
  let stored ← read s.nullifiers
  checkNullifiers stored (fun _ => none) nullifiers

def spendNullifiersOnce (s : PoolStorage) (nullifiers : List Nat) : Result PoolStorage := do
  ensureNullifiersUnspent s nullifiers
  let stored ← read s.nullifiers
  let stored := nullifiers.foldl (fun m n => Function.update m n (some true)) stored
  .ok { s with nullifiers := some stored }

def isSpent (s : PoolStorage) (n : Nat) : Result Bool := do
  let nulls ← read s.nullifiers
  .ok ((nulls n).getD false)

def isCommitmentInserted (s : PoolStorage) (commitment : Nat) : Result Bool := do
  let commitments ← read s.commitments
  .ok ((commitments commitment).getD false)

def ensureCommitmentUnused (s : PoolStorage) (commitment : Nat) : Result Unit := do
  let inserted ← isCommitmentInserted s commitment
  ensure (inserted = false) (.contract .alreadyInsertedCommitment)

def markCommitmentInserted (s : PoolStorage) (commitment : Nat) : Result PoolStorage := do
  let commitments ← read s.commitments
  .ok { s with commitments := some (Function.update commitments commitment (some true)) }

/-- The bounds of the signed types, and the trap of `I256::sub` outside them. -/
def i256Neg (v : Int) : Result Int :=
  ensure (-(2 ^ 255) ≤ -v ∧ -v < 2 ^ 255) .trapped >>= fun _ => .ok (-v)

/-- `I256::to_i128`. -/
def toI128 (v : Int) : Option Int := if -(2 ^ 127) ≤ v ∧ v < 2 ^ 127 then some v else none

def i256ToI128Nonneg (v : Int) : Result Int := do
  ensure (¬v < 0) (.contract .wrongExtAmount)
  okOr (toI128 v) (.contract .wrongExtAmount)

/-- `zero.sub(v)` is evaluated for a negative `v` only. -/
def i256AbsToU256 (v : Int) : Result Nat :=
  if v ≥ 0 then .ok v.toNat
  else do
    let abs ← i256Neg v
    .ok abs.toNat

/-- Maximum absolute external amount allowed. -/
def maxExtAmount : Nat := 2 ^ 248

def calculatePublicAmount (extAmount : Int) : Result Nat := do
  let absExt ← i256AbsToU256 extAmount
  ensure (¬absExt ≥ maxExtAmount) (.contract .wrongExtAmount)
  if extAmount ≥ 0 then .ok extAmount.toNat
  else do
    let neg ← i256Neg extAmount
    .ok (bn256Modulus - neg.toNat)

/-- `checked_mul`, then `checked_div` by the nonzero `MAX_FEE_BPS`. -/
def calculateFeeAmount (amount : Int) (feeBps : Nat) : Result Int := do
  let v ← okOr (toI128 (amount * feeBps)) (.contract .overflow)
  .ok (v.tdiv maxFeeBps)

def hashExtData {ρ : Type} (ext : Externals ρ) (data : ExtData) : Nat :=
  ext.keccak256Xdr data % bn256Modulus

/-- `VerifierPublicInputs::from_proof`: a 32-byte string enters the field by reduction. -/
def verifierPublicInputs (proof : Proof) : List F :=
  [(proof.root : F), (proof.publicAmount : F), (proof.extDataHash : F)] ++
    proof.inputNullifiers.map (Nat.cast : Nat → F) ++
    [(proof.outputCommitment0 : F), (proof.outputCommitment1 : F)] ++
    proof.inputNullifiers.map (fun _ => (proof.aspMembershipRoot : F))

/-! ## 3. The pipeline -/

section Pipeline

variable {ρ : Type}

def getAspMembershipRoot (ext : Externals ρ) (env : Env ρ) : Result (Nat × Env ρ) := do
  let aspAddress ← read env.pool.aspMembership
  okOr (ext.getRoot aspAddress env) .trapped

def verifyProof (ext : Externals ρ) (proof : Proof) (env : Env ρ) : Result (Bool × Env ρ) := do
  ensure (proof.proof.isEmpty = false) (.contract .invalidProof)
  let verifier ← read env.pool.verifier
  okOr (ext.verify verifier proof.proof (verifierPublicInputs proof) env) .trapped

/-- The duplicate guard, skipped on the exit path. -/
def ensureOutputsUnused (insertOutputs : Bool) (proof : Proof) (s : PoolStorage) : Result Unit :=
  if insertOutputs then do
    ensureCommitmentUnused s proof.outputCommitment0
    ensureCommitmentUnused s proof.outputCommitment1
    ensure (proof.outputCommitment0 ≠ proof.outputCommitment1)
      (.contract .alreadyInsertedCommitment)
  else .ok ()

/-- Step 8: the recipient's share and the fee of a withdrawal. -/
def calculatePayout (extData : ExtData) (s : PoolStorage) : Result (Option (Int × Int)) :=
  if extData.extAmount < 0 then do
    let abs ← i256Neg extData.extAmount
    let amount ← i256ToI128Nonneg abs
    let feeBps ← read s.feeBps
    let fee ← calculateFeeAmount amount feeBps
    let recipientAmount ← okOr (toI128 (amount - fee)) (.contract .overflow)
    .ok (some (recipientAmount, fee))
  else .ok none

/-- Step 9: insert the outputs, or forfeit them. -/
def insertOutputNotes (insertOutputs : Bool) (proof : Proof) (s : PoolStorage) :
    Result (Option (Nat × Nat) × PoolStorage) :=
  if insertOutputs then do
    let (idx, tree) ← liftMerkle (MerkleTreeWithHistory.insertTwoLeaves proof.outputCommitment0
      proof.outputCommitment1 s.tree)
    let s ← markCommitmentInserted { s with tree := tree } proof.outputCommitment0
    let s ← markCommitmentInserted s proof.outputCommitment1
    .ok (some idx, s)
  else .ok (none, s)

def payRecipient (ext : Externals ρ) (token recipient : Address) (amount : Int) (env : Env ρ) :
    Result (Env ρ) :=
  if amount > 0 then
    okOr (ext.transferOut token ext.currentContractAddress recipient amount env) .trapped
  else .ok env

def payFee (ext : Externals ρ) (token : Address) (fee : Int) (env : Env ρ) : Result (Env ρ) :=
  if fee > 0 then do
    let feeRecipient ← read env.pool.feeRecipient
    okOr (ext.transferFee token ext.currentContractAddress feeRecipient fee env) .trapped
  else .ok env

def payOut (ext : Externals ρ) (token recipient : Address) (payout : Option (Int × Int))
    (env : Env ρ) : Result (Env ρ) :=
  match payout with
  | none => .ok env
  | some (recipientAmount, fee) => do
    let env ← payRecipient ext token recipient recipientAmount env
    payFee ext token fee env

/-- Steps 10 and 11: the commitment events and one settlement event for each nullifier, or the
exit events. -/
def settlementEvents (this token : Address) (proof : Proof) (extData : ExtData)
    (amountBucket : Int) (withdrawalRecipient : Option Address) :
    (inserted : Option (Nat × Nat)) → List PoolEvent
  | none => proof.inputNullifiers.map fun nullifier =>
      .exit nullifier this amountBucket proof.publicAmount extData.recipient token
  | some (idx0, idx1) =>
      [.newCommitment proof.outputCommitment0 idx0 extData.encryptedOutput0,
       .newCommitment proof.outputCommitment1 idx1 extData.encryptedOutput1] ++
      proof.inputNullifiers.map fun nullifier =>
        .settlement nullifier this proof.outputCommitment0 proof.outputCommitment1 idx0 idx1
          amountBucket proof.publicAmount withdrawalRecipient token

/-- Process a private transaction. -/
def settle (ext : Externals ρ) (proof : Proof) (extData : ExtData) (insertOutputs : Bool)
    (env : Env ρ) : Result (Env ρ) := do
  ensureProofFieldElements proof
  let known ← liftMerkle (MerkleTreeWithHistory.isKnownRoot env.pool.tree proof.root)
  ensure (known = true) (.contract .unknownRoot)
  ensureNullifiersUnspent env.pool proof.inputNullifiers
  ensure (hashExtData ext extData = proof.extDataHash) (.contract .wrongExtHash)
  let expectedPublicAmount ← calculatePublicAmount extData.extAmount
  ensure (proof.publicAmount = expectedPublicAmount) (.contract .wrongExtAmount)
  let (memberRoot, env) ← getAspMembershipRoot ext env
  ensure (memberRoot = proof.aspMembershipRoot) (.contract .invalidProof)
  let (verified, env) ← verifyProof ext proof env
  ensure (verified = true) (.contract .invalidProof)
  ensureOutputsUnused insertOutputs proof env.pool
  let pool ← spendNullifiersOnce env.pool proof.inputNullifiers
  let events := env.events ++ proof.inputNullifiers.map .newNullifier
  let token ← read pool.token
  let payout ← calculatePayout extData pool
  let (inserted, pool) ← insertOutputNotes insertOutputs proof pool
  let env ← payOut ext token extData.recipient payout
    { env with pool := pool, events := events }
  let amountBucket ← okOr (toI128 extData.extAmount) (.contract .wrongExtAmount)
  .ok { env with
        events := env.events ++ settlementEvents ext.currentContractAddress token proof extData
          amountBucket (payout.map fun _ => extData.recipient) inserted }

/-- The deposit a positive external amount asks of the sender. -/
def takeDeposit (ext : Externals ρ) (token : Address) (extData : ExtData) (sender : Address)
    (env : Env ρ) : Result (Env ρ) :=
  if extData.extAmount > 0 then do
    let max ← read env.pool.maximumDepositAmount
    ensure (¬extData.extAmount.toNat > max) (.contract .wrongExtAmount)
    let amount ← i256ToI128Nonneg extData.extAmount
    okOr (ext.transferIn token sender ext.currentContractAddress amount env) .trapped
  else .ok env

/-! ## 4. Entry points -/

def transact (ext : Externals ρ) (auth : Address → Bool) (proof : Proof) (extData : ExtData)
    (sender : Address) (env : Env ρ) : Result (Env ρ) := do
  requireAuth auth sender
  let token ← read env.pool.token
  let env ← takeDeposit ext token extData sender env
  settle ext proof extData true env

def exit (ext : Externals ρ) (auth : Address → Bool) (proof : Proof) (extData : ExtData)
    (sender : Address) (env : Env ρ) : Result (Env ρ) := do
  requireAuth auth sender
  let full ← liftMerkle (MerkleTreeWithHistory.isFull env.pool.tree)
  ensure (full = true) (.contract .treeNotFull)
  ensure (¬extData.extAmount ≥ 0) (.contract .wrongExtAmount)
  settle ext proof extData false env

def register (auth : Address → Bool) (account : Account) (env : Env ρ) : Result (Env ρ) := do
  requireAuth auth account.owner
  .ok { env with
        events := env.events ++ [.publicKey account.owner account.encryptionKey account.noteKey] }

/-- Closed. -/
def deposit (_from : Address) (_amount : Int) (_commitment : Nat) (_env : Env ρ) :
    Result (Env ρ) :=
  .error (.contract .depositClosed)

def updateAdmin (auth : Address → Bool) (newAdmin : Address) (env : Env ρ) : Result (Env ρ) := do
  ensure (env.pool.admin.isSome = true) (.contract .notInitialized)
  let admin ← okOr env.pool.admin .trapped
  requireAuth auth admin
  .ok { env with pool := { env.pool with admin := some newAdmin } }

def updateVerifier (auth : Address → Bool) (newVerifier : Address) (env : Env ρ) :
    Result (Env ρ) := do
  let admin ← read env.pool.admin
  requireAuth auth admin
  .ok { env with pool := { env.pool with verifier := some newVerifier } }

def updateAspMembership (auth : Address → Bool) (newAspMembership : Address) (env : Env ρ) :
    Result (Env ρ) := do
  let admin ← read env.pool.admin
  requireAuth auth admin
  .ok { env with pool := { env.pool with aspMembership := some newAspMembership } }

end Pipeline

def constructor (admin token verifier aspMembership : Address) (maximumDepositAmount : Nat)
    (feeRecipient : Address) (feeBps levels : Nat) : Result PoolStorage := do
  ensure (¬feeBps > maxFeeBps) (.contract .invalidFee)
  let tree ← liftMerkle (MerkleTreeWithHistory.init levels .empty)
  .ok { admin := some admin
        token := some token
        verifier := some verifier
        maximumDepositAmount := some maximumDepositAmount
        nullifiers := some fun _ => none
        commitments := some fun _ => none
        aspMembership := some aspMembership
        feeRecipient := some feeRecipient
        feeBps := some feeBps
        tree := tree }

/-! ### Views -/

def isTreeFull (s : PoolStorage) : Result Bool := liftMerkle (MerkleTreeWithHistory.isFull s.tree)

def remainingLeaves (s : PoolStorage) : Result Nat :=
  liftMerkle (MerkleTreeWithHistory.remainingLeaves s.tree)

def getRoot (s : PoolStorage) : Result Nat := liftMerkle (MerkleTreeWithHistory.getLastRoot s.tree)

def hasNullifier (s : PoolStorage) (nullifier : Nat) : Result Bool := isSpent s nullifier

def hasCommitment (s : PoolStorage) (commitment : Nat) : Result Bool :=
  isCommitmentInserted s commitment

end Pool

end Veil
