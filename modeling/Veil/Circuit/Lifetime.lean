/-
# How long a client's transaction stays valid

A client reads the pool's root, builds a proof against it and submits it.  Meanwhile others
transact.  The pool remembers 90 roots, so the proof is still good if at most 89 transactions were
accepted in between, and it is stale after that.

`Submits` is what the client has done and what the contracts around the pool answer: the client's
own checks passed, the paths lead to the root, the verifier accepts what the circuit accepts.  The
rest of the premises are about the pool alone: the inputs unspent, the outputs new, and room for
them.  `NoteLedger.Accepts` is then met condition by condition.

The 91st root only pushes the first one out if no later tree has the same root.  That is the
collision-freeness of the hash on the pairs of the trees in question.
-/
import Veil.Circuit.Prover
import Veil.Contract.NoteLedger
import Veil.Merkle.Binding

namespace Veil

open Tx MerkleTreeWithHistory

/-! ## 1. The ledger's roots along a history -/

namespace NoteLedger

variable {terms : Terms} {digest : ExtData → Nat} {l : NoteLedger}

/-- The transactions among some calls, by their outputs. -/
def transactions (calls : List Pool.PoolCall) : List (Nat × Nat) :=
  (calls.filter fun c => !c.request.isExit).map fun c =>
    (c.request.proof.outputCommitment0, c.request.proof.outputCommitment1)

theorem transactions_append (calls more : List Pool.PoolCall) :
    transactions (calls ++ more) = transactions calls ++ transactions more := by
  rw [transactions, List.filter_append, List.map_append]
  rfl

/-- **The notes are those of the accepted transactions.** -/
theorem notes_run (calls : List Pool.PoolCall) (l : NoteLedger) :
    (run (exec terms digest) calls l).notes =
      l.notes ++ transactions (accepted (exec terms digest) calls l) := by
  refine @accepted_induction _ _ _ (exec terms digest)
    (fun log l' => l'.notes = l.notes ++ transactions log) (fun log l1 c l2 hP hok => ?_)
    calls [] l (by simp [transactions])
  obtain ⟨-, rfl⟩ := exec_eq_ok.mp hok
  cases hexit : c.request.isExit <;> simp [after, transactions, hexit, hP]

/-- A root of the past is one of the roots of now. -/
theorem rootAfter_append (L : Nat) (pairs more : List (Nat × Nat)) :
    rootAfter L (pairs ++ more) pairs.length = rootAfter L pairs pairs.length := by
  rw [rootAfter, rootAfter, List.take_left, List.take_length]

theorem flatPairs_take {α : Type} : ∀ (pairs : List (α × α)) (j : Nat),
    flatPairs (pairs.take j) = (flatPairs pairs).take (2 * j)
  | [], j => by simp
  | p :: pairs, 0 => by simp
  | p :: pairs, j + 1 => by
    rw [List.take_succ_cons, flatPairs_cons, flatPairs_cons, flatPairs_take pairs j,
      show 2 * (j + 1) = 2 * j + 1 + 1 by omega, List.take_succ_cons, List.take_succ_cons]

/-- The pairs hashed in the trees of a history do not collide, and no leaf is the empty one. -/
structure Grown (L : Nat) (pairs : List (Nat × Nat)) : Prop where
  noCollision : Merkle.NoCollision compress
    (Merkle.growthPairs compress emptyLeaf L ((flatPairs pairs).map Nat.cast))
  nonempty : emptyLeafNat ∉ flatPairs pairs

/-- **Then each tree has a root of its own.** -/
theorem Grown.rootAfter_inj {L : Nat} {pairs : List (Nat × Nat)} (h : Grown L pairs)
    (hfield : ∀ x ∈ flatPairs pairs, x < bn256Modulus) (hfits : 2 * pairs.length ≤ 2 ^ L)
    {i j : Nat} (hi : i ≤ pairs.length) (hj : j ≤ pairs.length)
    (heq : rootAfter L pairs i = rootAfter L pairs j) : i = j := by
  have hpart : ∀ k, ∀ x ∈ (flatPairs pairs).take k, x < bn256Modulus := fun k x hx =>
    hfield x (List.mem_of_mem_take hx)
  rw [rootAfter, rootAfter, flatPairs_take, flatPairs_take, treeRoot_eq_val (hpart _),
    treeRoot_eq_val (hpart _), List.map_take, List.map_take] at heq
  have hnew : emptyLeaf ∉ (flatPairs pairs).map (Nat.cast : Nat → F) := by
    intro hmem
    obtain ⟨x, hx, hxe⟩ := List.mem_map.mp hmem
    refine h.nonempty ?_
    rwa [emptyLeafNat, ← hxe, ZMod.val_natCast_of_lt (hfield x hx)]
  have hlen : ((flatPairs pairs).map (Nat.cast : Nat → F)).length = 2 * pairs.length := by simp
  have := Merkle.fullRoot_take_inj h.noCollision hnew (by omega) (by omega) (hlen ▸ hfits)
    (ZMod.val_injective _ heq)
  omega

end NoteLedger

/-! ## 2. What the client submits -/

namespace PolicyFixture

variable (terms : Terms) (digest : ExtData → Nat) (lib : Circuit.Circomlib)

/-- **The client's side of a `transact`**, and what the contracts around the pool answer. -/
structure Submits (tx : Transaction) (c : Pool.PoolCall) : Prop where
  honest : Honest tx
  isTransact : c.request.isExit = false
  /-- The client's checks passed, and the arguments are read off the public signals. -/
  built : ∃ inputs proof, transactionInputs tx = .ok inputs ∧
    c.request.proof = proofJson proof (CircuitInputs.ofRecords inputs.values).pub.toVector
  authorised : c.request.auth c.request.sender = true
  amount : c.request.extData.extAmount = tx.extAmount
  amount_lt : |tx.extAmount| < 2 ^ 127
  bound : digest c.request.extData % bn256Modulus = tx.extDataHash
  allowlist : c.answers.getRoot = some tx.memberships.1.root.val
  /-- The verifier accepts what the circuit accepts. -/
  complete : (∃ w, Circuit.Satisfies lib levels (Pool.verifierPublicInputs c.request.proof) w) →
    c.answers.verify = some true
  deposit : 0 < tx.extAmount → tx.extAmount ≤ terms.maximumDeposit ∧ c.answers.transferIn = true
  payable : tx.extAmount < 0 → NoteLedger.Payable terms c

variable {terms} {digest} {lib} {tx : Transaction} {c : Pool.PoolCall}

/-- The arguments, value by value. -/
theorem Submits.arguments (h : Submits terms digest lib tx c) :
    Accepted tx ∧ ∃ proof, c.request.proof = proofJson proof (meant tx).pub.toVector := by
  obtain ⟨inputs, proof, hok, hproof⟩ := h.built
  obtain ⟨haccepted, hvalues⟩ := transactionInputs_ok hok
  refine ⟨haccepted, proof, ?_⟩
  rw [hproof, hvalues, ofRecords_records haccepted.path1 haccepted.path2]

theorem Submits.root (h : Submits terms digest lib tx c) : c.request.proof.root = tx.root.val := by
  obtain ⟨-, proof, hproof⟩ := h.arguments
  rw [hproof]
  rfl

/-- **The verifier accepts**: the client's assignment satisfies the circuit. -/
theorem Submits.verified (h : Submits terms digest lib tx c) : c.answers.verify = some true := by
  obtain ⟨haccepted, proof, hproof⟩ := h.arguments
  refine h.complete ⟨(meant tx).witness, (meant tx).pub, ?_,
    policyTransaction_meant haccepted h.honest⟩
  rw [hproof, verifierPublicInputs_proofJson h.honest]

/-- **What the client sees to, the pool finds.**  All that is left is the pool's own state. -/
theorem Submits.proven (h : Submits terms digest lib tx c) {l : NoteLedger}
    (hroot : l.Knows terms tx.root.val)
    (hunspent : ∀ n ∈ c.request.proof.inputNullifiers, n ∉ l.spent) :
    l.Proven terms digest c := by
  obtain ⟨haccepted, proof, hproof⟩ := h.arguments
  refine ⟨h.authorised, ?_, h.root ▸ hroot, ?_, hunspent, ?_, h.amount ▸ h.amount_lt, ?_, ?_,
    h.verified⟩
  · rw [hproof]
    constructor <;> simp only [proofJson, List.mem_cons, List.not_mem_nil, or_false,
      forall_eq_or_imp, forall_eq, ZMod.val_lt, and_self]
  · rw [hproof]
    simpa [proofJson, meant, Circuit.PublicSignals.toVector, ZMod.val_injective _ |>.eq_iff] using
      haccepted.nullifiers
  · rw [h.bound, hproof]
    exact (ZMod.val_natCast_of_lt h.honest.extDataHash).symm
  · rw [hproof, h.amount]
    show (((publicAmount tx.extAmount).val : Nat) : F) = _
    rw [ZMod.natCast_zmod_val, publicAmount_eq]
  · rw [h.allowlist, hproof]
    rfl

end PolicyFixture

/-! ## 3. The window -/

open PolicyFixture in
/-- **A client's transaction stays valid for the next 89 transactions, and for no more.**  A client
builds a transaction against the root the pool has after `before`, passes its own checks and submits
it after `between` as well, whatever calls those are.  `Submits` has the rest of the world consent:
the sender authorises the call, the external data hash is the bound one, the allowlist still has the
root of the proof, the verifier accepts what the circuit accepts, and the deposit or the payout with
its fee fits and is transferred.

* If at most 89 transactions of `between` were accepted, the inputs are unspent, the outputs new and
  there is room, the pool accepts it.
* If it is accepted, at most 89 were, provided that the trees of the history have no collision. -/
theorem client_transaction_lifetime {terms : Terms} {digest : ExtData → Nat}
    {lib : Circuit.Circomlib} {admin token verifier asp feeRecipient : Address} {s0 : PoolStorage}
    (h0 : Pool.constructor admin token verifier asp terms.maximumDeposit feeRecipient terms.feeBps
      terms.depth = .ok s0) (this : Address) (before between : List Pool.PoolCall)
    {tx : Transaction} {c : Pool.PoolCall} (hc : Submits terms digest lib tx c) :
    let exec := Pool.PoolCall.exec (ρ := Unit) this digest
    let built := run exec before ⟨s0, [], ()⟩
    let now := run exec between built
    let passed := NoteLedger.transactions (accepted exec between built)
    Pool.getRoot built.pool = .ok tx.root.val → tx.root ≠ 0 →
    (passed.length ≤ 89 →
      (∀ n ∈ c.request.proof.inputNullifiers, now.pool.spent n = false) →
      now.pool.inserted c.request.proof.outputCommitment0 = false →
      now.pool.inserted c.request.proof.outputCommitment1 = false →
      c.request.proof.outputCommitment0 ≠ c.request.proof.outputCommitment1 →
      Pool.isTreeFull now.pool = .ok false →
      ∃ env', c.exec this digest now = .ok env') ∧
    (∀ env', c.exec this digest now = .ok env' →
      NoteLedger.Grown terms.depth (NoteLedger.transactions
        (accepted exec (before ++ between) ⟨s0, [], ()⟩)) →
      passed.length ≤ 89) := by
  intro exec built now passed hroot hzero
  have hagree := @Refines.agree Unit terms this digest
  obtain ⟨hbefore, hbuilt⟩ := hagree.accepted_eq before (s := (⟨s0, [], ()⟩ : Env Unit))
    (refines_constructor h0)
  obtain ⟨hbetween, hnow⟩ := hagree.accepted_eq between hbuilt
  set l := run (NoteLedger.exec terms digest) before .empty with hl
  set l' := run (NoteLedger.exec terms digest) between l with hl'
  -- the ledger has the notes of `between` after those of `before`
  have hnotes : l'.notes = l.notes ++ passed := by
    rw [hl', NoteLedger.notes_run, ← hbetween]
  have hall : NoteLedger.transactions (accepted exec (before ++ between) ⟨s0, [], ()⟩) =
      l'.notes := by
    rw [accepted_append, NoteLedger.transactions_append, hbefore, hnotes, hl, NoteLedger.notes_run]
    rfl
  have htx : tx.root.val = rootAfter terms.depth l'.notes l.notes.length := by
    rw [Pool.getRoot, hbuilt.ring.getLastRoot, liftMerkle_eq_ok.mpr rfl] at hroot
    rw [hnotes, NoteLedger.rootAfter_append]
    exact (Except.ok.inj hroot).symm
  have hlength : l'.notes.length = l.notes.length + passed.length := by
    rw [hnotes, List.length_append]
  constructor
  · intro hpassed hunspent hfresh0 hfresh1 hdistinct hroom
    refine hnow.exec_iff.mpr
      ⟨hc.proven ⟨?_, l.notes.length, by omega, by omega, htx⟩ ?_, ?_, ?_, ?_⟩
    · rwa [ne_eq, ZMod.val_eq_zero]
    · intro n hn
      exact (hnow.spent_eq_false n).mp (hunspent n hn)
    · rw [hc.amount]
      exact hc.payable
    · rw [hc.isTransact]
      intro hexit
      cases hexit
    · intro _
      refine ⟨?_, (hnow.inserted_eq_false _).mp hfresh0, (hnow.inserted_eq_false _).mp hfresh1,
        hdistinct, ?_⟩
      · rw [Pool.isTreeFull, liftMerkle_eq_ok] at hroom
        exact hnow.room_of_not_full hroom
      · rw [hc.amount]
        exact hc.deposit
  · intro env' hok hgrown
    obtain ⟨-, j, hlo, hhi, hj⟩ := (hnow.exec_iff.mp ⟨env', hok⟩).proven.root
    rw [hc.root, htx] at hj
    rw [hall] at hgrown
    have := hgrown.rootAfter_inj hnow.holds.tree.field ?_ (by omega) hhi hj
    · omega
    · have := hnow.holds.tree.fits
      rwa [length_flatPairs] at this

/-! ### A deposit -/

namespace PolicyFixture

/-- Those of the smaller pool, but for the depth. -/
def depositTerms : Terms where
  depth := 16
  maximumDeposit := smallTerms.maximumDeposit
  feeBps := smallTerms.feeBps
  depth_pos := by decide
  depth_le := by decide
  fee_le := smallTerms.fee_le

/-- A deposit of 3 into an empty pool: both inputs are dummies. -/
def depositTransaction : Transaction where
  root := ((getZeroes.getD 16 0 : Nat) : F)
  extAmount := 3
  extDataHash := 7
  inputs := (dummyNote, { dummyNote with blinding := 1 })
  memberships := (enrolment, enrolment)
  outputs := (⟨derivePublicKey 1, 1, 3⟩, ⟨derivePublicKey 1, 0, 0⟩)

theorem honest_depositTransaction : Honest depositTransaction where
  extDataHash := by decide
  sharedRoot := rfl
  first := ⟨by decide, fun h => absurd rfl h, by decide, rfl⟩
  second := ⟨by decide, fun h => absurd rfl h, by decide, rfl⟩

def depositCall : Pool.PoolCall where
  request := {
    isExit := false
    auth := fun _ => true
    proof := proofJson ⟨.replicate 64 0, .replicate 128 0, .replicate 64 0⟩
      (meant depositTransaction).pub.toVector
    extData := ⟨.account 7, 3, [], []⟩
    sender := .account 7 }
  answers := ⟨true, some enrolment.root.val, some true, true, true⟩

theorem submits_depositCall :
    Submits depositTerms (fun _ => 7) Circuit.Circomlib.standard depositTransaction
      depositCall where
  honest := honest_depositTransaction
  isTransact := rfl
  built := by
    have hrun : okAnd (transactionInputs depositTransaction) (fun _ => true) = true := by
      decide +kernel
    obtain ⟨inputs, hok, -⟩ := okAnd_eq_true.mp hrun
    obtain ⟨haccepted, hvalues⟩ := transactionInputs_ok hok
    refine ⟨inputs, ⟨.replicate 64 0, .replicate 128 0, .replicate 64 0⟩, hok, ?_⟩
    rw [hvalues, ofRecords_records haccepted.path1 haccepted.path2]
    rfl
  authorised := rfl
  amount := rfl
  amount_lt := by decide
  bound := by decide
  allowlist := rfl
  complete := fun _ => rfl
  deposit := fun _ => ⟨by decide, rfl⟩
  payable := fun h => absurd h (by decide)

end PolicyFixture

open PolicyFixture in
/-- It is accepted at once. -/
theorem client_transaction_lifetime_deposit : ∃ s0,
    Pool.constructor (.account 1) (.contract 2) (.contract 3) (.contract 4)
      depositTerms.maximumDeposit (.account 5) depositTerms.feeBps depositTerms.depth = .ok s0 ∧
    Submits depositTerms (fun _ => 7) Circuit.Circomlib.standard depositTransaction depositCall ∧
    ∃ env', depositCall.exec (.contract 6) (fun _ => 7) (⟨s0, [], ()⟩ : Env Unit) = .ok env' := by
  have hrun : okAnd (Pool.constructor (.account 1) (.contract 2) (.contract 3) (.contract 4)
      depositTerms.maximumDeposit (.account 5) depositTerms.feeBps depositTerms.depth) (fun s0 =>
      Pool.getRoot s0 = .ok depositTransaction.root.val ∧ depositTransaction.root ≠ 0 ∧
      (∀ n ∈ depositCall.request.proof.inputNullifiers, s0.spent n = false) ∧
      s0.inserted depositCall.request.proof.outputCommitment0 = false ∧
      s0.inserted depositCall.request.proof.outputCommitment1 = false ∧
      depositCall.request.proof.outputCommitment0 ≠ depositCall.request.proof.outputCommitment1 ∧
      Pool.isTreeFull s0 = .ok false) = true := by
    decide +kernel
  obtain ⟨s0, h0, hfacts⟩ := okAnd_eq_true.mp hrun
  obtain ⟨hroot, hzero, hunspent, hfresh0, hfresh1, hdistinct, hroom⟩ := of_decide_eq_true hfacts
  exact ⟨s0, h0, submits_depositCall, (client_transaction_lifetime h0 (.contract 6) [] []
    submits_depositCall hroot hzero).1 (Nat.zero_le _) hunspent hfresh0 hfresh1 hdistinct hroom⟩

end Veil
