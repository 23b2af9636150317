/-
# The pool as a ledger of notes

What the pool is for can be said without its storage: it keeps the notes it has taken in, in order,
and the nullifiers it has seen.  `NoteLedger` is that, and `NoteLedger.Accepts` lists, in the terms
of the caller, everything a call must satisfy.

The contract says the same in its own words: a ring of roots searched in a loop, two maps, a
frontier of filled subtrees, amounts in three integer types.  `Refines` relates the two, and the
step lemma goes both ways: the contract accepts a call exactly if the ledger does
(`Refines.exec_iff`), and what it then stores is the ledger's next state (`Refines.exec`).  So over
every history the two accept the same calls.
-/
import Veil.Contract.OneWayOut
import Veil.Contract.RootHistory
import Veil.Contract.TokenBalance

namespace Veil

open Tx MerkleTreeWithHistory

/-! ## 1. The ledger -/

/-- What a pool was set up with. -/
structure Terms where
  depth : Nat
  maximumDeposit : Nat
  feeBps : Nat
  depth_pos : 1 ≤ depth
  depth_le : depth ≤ 32
  fee_le : feeBps ≤ maxFeeBps

/-- The notes of the accepted transactions, two by two, and the nullifiers of all settlements. -/
structure NoteLedger where
  notes : List (Nat × Nat)
  spent : List Nat

namespace NoteLedger

open Pool

def empty : NoteLedger := ⟨[], []⟩

variable (terms : Terms) (digest : ExtData → Nat)

/-- A proof may refer to the root after any of the last 89 transactions, and to the one before
them. -/
def Knows (l : NoteLedger) (root : Nat) : Prop :=
  root ≠ 0 ∧ ∃ j, l.notes.length - 89 ≤ j ∧ j ≤ l.notes.length ∧
    root = rootAfter terms.depth l.notes j

/-- What every settlement needs. -/
structure Proven (l : NoteLedger) (c : PoolCall) : Prop where
  authorised : c.request.auth c.request.sender = true
  fields : FieldElements c.request.proof
  root : l.Knows terms c.request.proof.root
  distinct : c.request.proof.inputNullifiers.Nodup
  unspent : ∀ n ∈ c.request.proof.inputNullifiers, n ∉ l.spent
  bound : digest c.request.extData % bn256Modulus = c.request.proof.extDataHash
  amount : |c.request.extData.extAmount| < 2 ^ 127
  publicAmount : (c.request.proof.publicAmount : F) = (c.request.extData.extAmount : F)
  member : c.answers.getRoot = some c.request.proof.aspMembershipRoot
  verified : c.answers.verify = some true

/-- What a withdrawal needs besides. -/
structure Payable (c : PoolCall) : Prop where
  fits : -c.request.extData.extAmount * terms.feeBps < 2 ^ 127
  recipient : 0 < -c.request.extData.extAmount - feeOn (-c.request.extData.extAmount) terms.feeBps →
    c.answers.transferOut = true
  fee : 0 < feeOn (-c.request.extData.extAmount) terms.feeBps → c.answers.transferFee = true

/-- What a `transact` needs besides. -/
structure Transacts (l : NoteLedger) (c : PoolCall) : Prop where
  room : 2 * l.notes.length < 2 ^ terms.depth
  fresh0 : c.request.proof.outputCommitment0 ∉ flatPairs l.notes
  fresh1 : c.request.proof.outputCommitment1 ∉ flatPairs l.notes
  distinct : c.request.proof.outputCommitment0 ≠ c.request.proof.outputCommitment1
  deposit : 0 < c.request.extData.extAmount →
    c.request.extData.extAmount ≤ terms.maximumDeposit ∧ c.answers.transferIn = true

/-- What an `exit` needs besides. -/
structure Exits (l : NoteLedger) (c : PoolCall) : Prop where
  full : 2 * l.notes.length = 2 ^ terms.depth
  withdraws : c.request.extData.extAmount < 0

/-- **The calls the ledger accepts.** -/
structure Accepts (l : NoteLedger) (c : PoolCall) : Prop where
  proven : l.Proven terms digest c
  payable : c.request.extData.extAmount < 0 → Payable terms c
  exits : c.request.isExit = true → l.Exits terms c
  transacts : c.request.isExit = false → l.Transacts terms c

/-- What an accepted call leaves. -/
def after (l : NoteLedger) (c : PoolCall) : NoteLedger where
  notes := l.notes ++ if c.request.isExit then [] else
    [(c.request.proof.outputCommitment0, c.request.proof.outputCommitment1)]
  spent := l.spent ++ c.request.proof.inputNullifiers

open Classical in
noncomputable def exec (c : PoolCall) (l : NoteLedger) : Except Unit NoteLedger := do
  ensure (l.Accepts terms digest c) ()
  .ok (l.after c)

theorem exec_eq_ok {terms : Terms} {digest : ExtData → Nat} {c : PoolCall} {l l' : NoteLedger} :
    l.exec terms digest c = .ok l' ↔ l.Accepts terms digest c ∧ l' = l.after c := by
  simp only [exec, bind_eq_ok, ensure_eq_ok, Except.ok.injEq, exists_const]
  exact and_congr_right' eq_comm

end NoteLedger

/-! ## 2. Each step succeeds where the ledger says so -/

namespace MerkleTreeWithHistory

/-- **The search, as a yes or no**: a root is known if it is one of the last 90, and not 0. -/
theorem Ringed.isKnownRoot_iff {L : Nat} {pairs : List (Nat × Nat)} {s : MerkleStorage}
    (h : Ringed L pairs s) (root : Nat) :
    isKnownRoot s root = .ok true ↔ root ≠ 0 ∧ ∃ j, pairs.length - 89 ≤ j ∧ j ≤ pairs.length ∧
      root = rootAfter L pairs j := by
  unfold isKnownRoot
  by_cases hzero : root = 0
  · simp [hzero]
  · obtain ⟨found, hfound, hiff⟩ := h.search (Nat.le_succ rootHistorySize) root
    rw [if_neg hzero, h.current, okOr_some, ok_bind, hfound, Except.ok.injEq, hiff]
    exact ⟨fun hj => ⟨hzero, hj⟩, And.right⟩

end MerkleTreeWithHistory

/-- The byte strings have fixed sizes, so none is empty. -/
theorem Groth16Proof.isEmpty_eq_false (p : Groth16Proof) : p.isEmpty = false := by
  simp [Groth16Proof.isEmpty]

namespace Pool

variable {ρ : Type} {ext : Externals ρ} {proof : Proof} {extData : ExtData}
  {insertOutputs : Bool} {env env' : Env ρ} {s : PoolStorage}

theorem FieldElements.ensure (h : FieldElements proof) :
    ensureProofFieldElements proof = .ok () := by
  simp only [ensureProofFieldElements, bind_eq_ok, ensureFieldElement_eq_ok,
    ensureFieldElements_eq_ok]
  exact ⟨(), h.root, (), h.publicAmount, (), h.inputNullifiers, (), h.outputCommitment0, (),
    h.outputCommitment1, h.aspMembershipRoot⟩

/-- **A record of the steps is a run of the pipeline.** -/
theorem Settles.settle_eq {t : SettleTrace ρ}
    (h : Settles ext proof extData insertOutputs env t env') :
    settle ext proof extData insertOutputs env = .ok env' := by
  simp only [settle, h.fieldElements.ensure, ok_bind, liftMerkle_eq_ok.mpr h.known,
    ensure_pos trivial, h.unspent, ensure_pos h.extHash, h.publicAmount, h.memberRoot, h.accepted,
    h.outputsUnused, h.spend, read_eq_ok.mpr h.token, h.payout, h.insert, h.pay,
    okOr_eq_ok.mpr (toI128_eq_some.mpr ⟨h.amount, rfl⟩), h.final]

theorem ensureNullifiersUnspent_eq_ok (hs : s.nullifiers.isSome = true) {ns : List Nat} :
    ensureNullifiersUnspent s ns = .ok () ↔ ns.Nodup ∧ ∀ n ∈ ns, s.spent n = false := by
  obtain ⟨stored, hstored⟩ := Option.isSome_iff_exists.mp hs
  simp only [ensureNullifiersUnspent, hstored, read_eq_ok.mpr rfl, ok_bind, checkNullifiers_eq_ok,
    PoolStorage.spent]
  simp

theorem spendNullifiersOnce_exists (hs : s.nullifiers.isSome = true) {ns : List Nat}
    (h : ensureNullifiersUnspent s ns = .ok ()) : ∃ s', spendNullifiersOnce s ns = .ok s' := by
  obtain ⟨stored, hstored⟩ := Option.isSome_iff_exists.mp hs
  simp only [spendNullifiersOnce, h, ok_bind, hstored, read_eq_ok.mpr rfl]
  exact ⟨_, rfl⟩

theorem spendNullifiersOnce_isSome {s' : PoolStorage} {ns : List Nat}
    (h : spendNullifiersOnce s ns = .ok s') : s'.nullifiers.isSome = true := by
  simp only [spendNullifiersOnce, bind_eq_ok, Except.ok.injEq] at h
  obtain ⟨-, -, -, -, rfl⟩ := h
  rfl

theorem ensureOutputsUnused_eq_ok (hs : s.commitments.isSome = true) :
    ensureOutputsUnused true proof s = .ok () ↔ s.inserted proof.outputCommitment0 = false ∧
      s.inserted proof.outputCommitment1 = false ∧
      proof.outputCommitment0 ≠ proof.outputCommitment1 := by
  obtain ⟨stored, hstored⟩ := Option.isSome_iff_exists.mp hs
  simp [ensureOutputsUnused, ensureCommitmentUnused, isCommitmentInserted, bind_eq_ok, hstored,
    PoolStorage.inserted]

theorem markCommitmentInserted_exists (hs : s.commitments.isSome = true) (c : Nat) :
    ∃ s', markCommitmentInserted s c = .ok s' ∧ s'.commitments.isSome = true ∧
      s' = { s with commitments := s'.commitments } := by
  obtain ⟨stored, hstored⟩ := Option.isSome_iff_exists.mp hs
  exact ⟨_, by rw [markCommitmentInserted, hstored, read_eq_ok.mpr rfl, ok_bind], rfl, rfl⟩

/-- With room in the tree the two outputs are inserted. -/
theorem insertOutputNotes_exists {L : Nat} {leaves : List Nat} (h : Holds L leaves s.tree)
    (hs : s.commitments.isSome = true) (h0 : proof.outputCommitment0 < bn256Modulus)
    (h1 : proof.outputCommitment1 < bn256Modulus) (hroom : leaves.length + 2 ≤ 2 ^ L) :
    ∃ r, insertOutputNotes true proof s = .ok r := by
  obtain ⟨tree, htree, -⟩ := h.insertTwoLeaves h0 h1 hroom
  obtain ⟨s1, hs1, hsome, -⟩ := markCommitmentInserted_exists (s := { s with tree := tree }) hs
    proof.outputCommitment0
  obtain ⟨s2, hs2, -, -⟩ := markCommitmentInserted_exists hsome proof.outputCommitment1
  refine ⟨(some (leaves.length, leaves.length + 1), s2), ?_⟩
  rw [insertOutputNotes, if_pos rfl, liftMerkle_eq_ok.mpr htree, ok_bind]
  simp only [hs1, ok_bind, hs2]

theorem insertOutputNotes_isSome {r : Option (Nat × Nat) × PoolStorage}
    (hs : s.commitments.isSome = true) (h : insertOutputNotes insertOutputs proof s = .ok r) :
    r.2.commitments.isSome = true := by
  cases insertOutputs with
  | false =>
    obtain rfl := Except.ok.inj h
    exact hs
  | true =>
    simp only [insertOutputNotes, if_true, bind_eq_ok, Prod.exists, Except.ok.injEq] at h
    obtain ⟨_, _, _, _, _, _, s2, h2, rfl⟩ := h
    simp only [markCommitmentInserted, bind_eq_ok, Except.ok.injEq] at h2
    obtain ⟨_, _, rfl⟩ := h2
    rfl

/-- A public amount below the modulus is the one computed exactly if it is the external amount in
the field. -/
theorem calculatePublicAmount_eq_ok {extAmount : Int} {publicAmount : Nat}
    (h : |extAmount| < 2 ^ 248) (hlt : publicAmount < bn256Modulus) :
    calculatePublicAmount extAmount = .ok publicAmount ↔
      (publicAmount : F) = (extAmount : F) := by
  refine ⟨fun hok => (calculatePublicAmount_ok hok).2, fun heq => ?_⟩
  obtain ⟨n, hn, hok⟩ := calculatePublicAmount_of_lt h
  have hcast : ((publicAmount : Nat) : F) = (n : F) :=
    heq.trans (calculatePublicAmount_ok hok).2.symm
  have hval := congrArg ZMod.val hcast
  rw [ZMod.val_natCast_of_lt hlt, ZMod.val_natCast_of_lt hn] at hval
  rw [hval, hok]

/-- The two shares of a withdrawal whose fee fits. -/
theorem calculatePayout_of_fits {feeBps : Nat} (hbps : s.feeBps = some feeBps)
    (hmax : feeBps ≤ maxFeeBps) (hneg : extData.extAmount < 0)
    (hamount : -extData.extAmount < 2 ^ 127) (hfits : -extData.extAmount * feeBps < 2 ^ 127) :
    calculatePayout extData s = .ok (some (-extData.extAmount -
      feeOn (-extData.extAmount) feeBps, feeOn (-extData.extAmount) feeBps)) := by
  have hnonneg : 0 ≤ -extData.extAmount * (feeBps : Int) :=
    mul_nonneg (by omega) (Int.natCast_nonneg _)
  obtain ⟨h0, hle⟩ := feeOn_bounds (show 0 ≤ -extData.extAmount by omega) hmax
  have hneg256 : i256Neg extData.extAmount = .ok (-extData.extAmount) :=
    i256Neg_eq_ok.mpr ⟨by omega, rfl⟩
  have hi128 : i256ToI128Nonneg (-extData.extAmount) = .ok (-extData.extAmount) :=
    bind_eq_ok.mpr ⟨(), ensure_eq_ok.mpr (by omega), okOr_eq_ok.mpr
      (toI128_eq_some.mpr ⟨by omega, rfl⟩)⟩
  have hfee : calculateFeeAmount (-extData.extAmount) feeBps =
      .ok (feeOn (-extData.extAmount) feeBps) := by
    refine bind_eq_ok.mpr ⟨_, okOr_eq_ok.mpr (toI128_eq_some.mpr ⟨by omega, rfl⟩), ?_⟩
    rw [Int.tdiv_eq_ediv_of_nonneg hnonneg, feeOn]
  have hshare : toI128 (-extData.extAmount - feeOn (-extData.extAmount) feeBps) =
      some (-extData.extAmount - feeOn (-extData.extAmount) feeBps) :=
    toI128_eq_some.mpr ⟨by omega, rfl⟩
  simp only [calculatePayout, if_pos hneg, hneg256, hi128, hbps, read_eq_ok.mpr rfl, hfee, hshare,
    okOr_some, ok_bind]

end Pool

/-! ## 3. The pool and its ledger -/

/-- **The pool is the ledger**, under these terms. -/
structure Refines (terms : Terms) (s : PoolStorage) (l : NoteLedger) : Prop where
  holds : Pool.PoolHolds terms.depth (flatPairs l.notes) s
  ring : Ringed terms.depth l.notes s.tree
  spent : ∀ n, s.spent n = true ↔ n ∈ l.spent
  nullifiers : s.nullifiers.isSome = true
  commitments : s.commitments.isSome = true
  token : s.token.isSome = true
  verifier : s.verifier.isSome = true
  aspMembership : s.aspMembership.isSome = true
  maximumDeposit : s.maximumDepositAmount = some terms.maximumDeposit
  feeRecipient : s.feeRecipient.isSome = true
  feeBps : s.feeBps = some terms.feeBps

namespace Refines

open Pool

variable {ρ : Type} {terms : Terms} {l : NoteLedger} {this : Address} {digest : ExtData → Nat}
  {env env' : Env ρ} {c : PoolCall}

theorem spent_eq_false {s : PoolStorage} (h : Refines terms s l) (n : Nat) :
    s.spent n = false ↔ n ∉ l.spent := by
  rw [← h.spent n, Bool.not_eq_true]

theorem inserted_eq_false {s : PoolStorage} (h : Refines terms s l) (x : Nat) :
    s.inserted x = false ↔ x ∉ flatPairs l.notes := by
  rw [← h.holds.recorded x, Bool.not_eq_true]

/-- The callees answer and leave the environment as it is. -/
theorem takeDeposit_iff (h : Refines terms env.pool l) {token : Address} :
    takeDeposit (c.externals this digest) token c.request.extData c.request.sender env =
        .ok env' ↔ env' = env ∧ (0 < c.request.extData.extAmount →
      c.request.extData.extAmount ≤ terms.maximumDeposit ∧
        c.request.extData.extAmount < 2 ^ 127 ∧ c.answers.transferIn = true) := by
  unfold takeDeposit
  by_cases hpos : c.request.extData.extAmount > 0
  · simp only [if_pos hpos, h.maximumDeposit, read_eq_ok.mpr rfl, ok_bind, i256ToI128Nonneg,
      bind_eq_ok, ensure_eq_ok, okOr_eq_ok, toI128_eq_some, exists_const, PoolCall.externals,
      Answers.externals, Option.ite_none_right_eq_some, Option.some.injEq, id_eq]
    constructor
    · rintro ⟨hmax, -, ⟨-, ⟨-, hlt⟩, -⟩, hin, rfl⟩
      exact ⟨rfl, fun _ => ⟨by omega, hlt, hin⟩⟩
    · rintro ⟨rfl, hall⟩
      obtain ⟨hmax, hlt, hin⟩ := hall hpos
      exact ⟨by omega, _, ⟨by omega, by omega, rfl⟩, hin, rfl⟩
  · simp only [if_neg hpos, Except.ok.injEq]
    exact ⟨fun heq => ⟨heq.symm, fun h => absurd h hpos⟩, fun h => h.1.symm⟩

/-- A transfer is made for a positive amount only. -/
theorem transfer_iff {amount : Int} {answer : Bool} {e e' : Env ρ} :
    (if amount > 0 then okOr (if answer then some e else none) .trapped else .ok e :
        Result (Env ρ)) = .ok e' ↔ e' = e ∧ (0 < amount → answer = true) := by
  by_cases hpos : amount > 0
  · cases answer with
    | true => simpa [hpos] using eq_comm
    | false => simp [hpos]
  · rw [if_neg hpos, Except.ok.injEq]
    exact ⟨fun heq => ⟨heq.symm, fun h => absurd h hpos⟩, fun h => h.1.symm⟩

/-- A payout succeeds exactly if the transfers it makes do. -/
theorem payOut_iff {token recipient : Address} {share fee : Int}
    (hfee : env.pool.feeRecipient.isSome = true) :
    payOut (c.externals this digest) token recipient (some (share, fee)) env = .ok env' ↔
      env' = env ∧ (0 < share → c.answers.transferOut = true) ∧
        (0 < fee → c.answers.transferFee = true) := by
  obtain ⟨feeRecipient, hsome⟩ := Option.isSome_iff_exists.mp hfee
  have hout : ∀ {e' : Env ρ}, payRecipient (c.externals this digest) token recipient share env =
      .ok e' ↔ e' = env ∧ (0 < share → c.answers.transferOut = true) := transfer_iff
  have hin : payFee (c.externals this digest) token fee env = .ok env' ↔
      env' = env ∧ (0 < fee → c.answers.transferFee = true) := by
    simp only [payFee, hsome, read_eq_ok.mpr rfl, ok_bind]
    exact transfer_iff
  rw [payOut, bind_eq_ok]
  constructor
  · rintro ⟨e, he, hrest⟩
    obtain ⟨rfl, hrecipient⟩ := hout.mp he
    obtain ⟨rfl, hpaid⟩ := hin.mp hrest
    exact ⟨rfl, hrecipient, hpaid⟩
  · rintro ⟨rfl, hrecipient, hpaid⟩
    exact ⟨env', hout.mpr ⟨rfl, hrecipient⟩, hin.mpr ⟨rfl, hpaid⟩⟩

/-- **The ledger accepts what the contract settles.** -/
theorem settled (h : Refines terms env.pool l) {t : SettleTrace ρ}
    (hauth : c.request.auth c.request.sender = true)
    (hs : Settles (c.externals this digest) c.request.proof c.request.extData (!c.request.isExit)
      env t env') :
    l.Proven terms digest c ∧ (c.request.extData.extAmount < 0 → NoteLedger.Payable terms c) := by
  obtain ⟨hpool, -⟩ := hs.quiet c.quiet
  obtain ⟨hdistinct, hunspent⟩ := ensureNullifiersUnspent_ok hs.unspent
  have hspent := (spendNullifiersOnce_ok hs.spend).2.2.1
  have hbps : t.spent.feeBps = some terms.feeBps := by
    rw [hspent, hpool]
    exact h.feeBps
  have hmember := hs.memberRoot
  have hverified := hs.accepted
  simp only [getAspMembershipRoot, verifyProof, PoolCall.externals, Answers.externals, bind_eq_ok,
    okOr_eq_ok, Option.map_eq_some_iff, Prod.mk.injEq] at hmember hverified
  obtain ⟨_, -, root, hroot, rfl, -⟩ := hmember
  obtain ⟨-, -, _, -, verdict, hverdict, rfl, -⟩ := hverified
  have hcases := calculatePayout_ok hbps hs.payout
  have hrange := hs.amount
  refine ⟨⟨hauth, hs.fieldElements, (h.ring.isKnownRoot_iff _).mp hs.known, hdistinct,
    fun n hn => (h.spent_eq_false n).mp (hunspent n hn), hs.extHash, ?_,
    (calculatePublicAmount_ok hs.publicAmount).2, hroot, hverdict⟩, fun hneg => ?_⟩
  · rcases hcases with ⟨hpos, -⟩ | ⟨hneg, hlt, -⟩
    · rw [abs_of_nonneg hpos]
      omega
    · rw [abs_of_neg hneg]
      exact hlt
  · rcases hcases with ⟨hpos, -⟩ | ⟨-, -, hfits, hpayout⟩
    · omega
    · have hpay := hs.pay
      rw [hpayout] at hpay
      have hfee : t.stored.feeRecipient.isSome = true := by
        rw [hs.stored_eq, hpool]
        exact h.feeRecipient
      obtain ⟨-, hout, hin⟩ := (payOut_iff hfee).mp hpay
      exact ⟨hfits, hout, hin⟩

/-- **And the contract settles what the ledger accepts.** -/
theorem settle_exists (this : Address) (h : Refines terms env.pool l)
    (ha : l.Accepts terms digest c) :
    ∃ env', settle (c.externals this digest) c.request.proof c.request.extData
      (!c.request.isExit) env = .ok env' := by
  obtain ⟨asp, hasp⟩ := Option.isSome_iff_exists.mp h.aspMembership
  obtain ⟨verifier, hverifier⟩ := Option.isSome_iff_exists.mp h.verifier
  obtain ⟨token, htoken⟩ := Option.isSome_iff_exists.mp h.token
  have hp := ha.proven
  have hrange := abs_lt.mp hp.amount
  have hunspent : ensureNullifiersUnspent env.pool c.request.proof.inputNullifiers = .ok () :=
    (ensureNullifiersUnspent_eq_ok h.nullifiers).mpr
      ⟨hp.distinct, fun n hn => (h.spent_eq_false n).mpr (hp.unspent n hn)⟩
  obtain ⟨spent, hspend⟩ := spendNullifiersOnce_exists h.nullifiers hunspent
  have hspent := (spendNullifiersOnce_ok hspend).2.2.1
  have hmember : getAspMembershipRoot (c.externals this digest) env =
      .ok (c.request.proof.aspMembershipRoot, env) := by
    simp only [getAspMembershipRoot, hasp, read_eq_ok.mpr rfl, ok_bind, PoolCall.externals,
      Answers.externals, hp.member]
    rfl
  have hverify : verifyProof (c.externals this digest) c.request.proof env = .ok (true, env) := by
    simp only [verifyProof, ensure_pos (Groth16Proof.isEmpty_eq_false _), hverifier,
      read_eq_ok.mpr rfl, ok_bind, PoolCall.externals, Answers.externals, hp.verified]
    rfl
  have hpublic : calculatePublicAmount c.request.extData.extAmount =
      .ok c.request.proof.publicAmount :=
    (calculatePublicAmount_eq_ok (lt_trans hp.amount (by norm_num)) hp.fields.publicAmount).mpr
      hp.publicAmount
  -- the outputs are new and there is room, or nothing is inserted
  have houtputs : ensureOutputsUnused (!c.request.isExit) c.request.proof env.pool = .ok () ∧
      ∃ r, insertOutputNotes (!c.request.isExit) c.request.proof spent = .ok r := by
    cases hexit : c.request.isExit with
    | true => exact ⟨rfl, _, rfl⟩
    | false =>
      have ht := ha.transacts hexit
      have hcommitments : spent.commitments.isSome = true := by
        rw [hspent]
        exact h.commitments
      have htree : Holds terms.depth (flatPairs l.notes) spent.tree := by
        rw [hspent]
        exact h.holds.tree
      have hroom : (flatPairs l.notes).length + 2 ≤ 2 ^ terms.depth := by
        rw [← Nat.not_lt]
        intro hfull
        have := htree.full_iff.mp hfull
        have := ht.room
        rw [length_flatPairs] at *
        omega
      exact ⟨(ensureOutputsUnused_eq_ok h.commitments).mpr ⟨(h.inserted_eq_false _).mpr ht.fresh0,
        (h.inserted_eq_false _).mpr ht.fresh1, ht.distinct⟩, insertOutputNotes_exists htree
        hcommitments hp.fields.outputCommitment0 hp.fields.outputCommitment1 hroom⟩
  obtain ⟨hunused, ⟨inserted, stored⟩, hinsert⟩ := houtputs
  have hstored : stored.feeRecipient = env.pool.feeRecipient := by
    cases hexit : c.request.isExit with
    | true =>
      rw [hexit] at hinsert
      obtain ⟨-, rfl⟩ := Prod.mk.inj (Except.ok.inj hinsert)
      rw [hspent]
    | false =>
      rw [hexit] at hinsert
      obtain ⟨-, -, -, heq, -⟩ := insertOutputNotes_ok hinsert
      rw [heq, hspent]
  -- the payout of a withdrawal
  have hpay : ∃ payout, calculatePayout c.request.extData spent = .ok payout ∧
      ∀ events, payOut (c.externals this digest) token c.request.extData.recipient payout
        { env with pool := stored, events := events } =
          .ok { env with pool := stored, events := events } := by
    by_cases hneg : c.request.extData.extAmount < 0
    · have hpayable := ha.payable hneg
      have hbps : spent.feeBps = some terms.feeBps := by
        rw [hspent]
        exact h.feeBps
      have hfee : stored.feeRecipient.isSome = true := by
        rw [hstored]
        exact h.feeRecipient
      exact ⟨_, calculatePayout_of_fits hbps terms.fee_le hneg (by omega) hpayable.fits,
        fun events => (payOut_iff hfee).mpr ⟨rfl, hpayable.recipient, hpayable.fee⟩⟩
    · exact ⟨none, if_neg hneg, fun _ => rfl⟩
  obtain ⟨payout, hpayout, hpaid⟩ := hpay
  exact ⟨_, Settles.settle_eq (t := ⟨env, env, spent, token, payout, inserted, stored,
    { env with
      pool := stored
      events := env.events ++ c.request.proof.inputNullifiers.map .newNullifier }⟩)
    { fieldElements := hp.fields
      known := (h.ring.isKnownRoot_iff _).mpr hp.root
      unspent := hunspent
      extHash := hp.bound
      publicAmount := hpublic
      memberRoot := hmember
      accepted := hverify
      outputsUnused := hunused
      spend := hspend
      token := by rw [hspent]; exact htoken
      payout := hpayout
      insert := hinsert
      pay := hpaid _
      amount := ⟨by omega, by omega⟩
      final := rfl }⟩

theorem isFull_iff {s : PoolStorage} (h : Refines terms s l) :
    isFull s.tree = .ok true ↔ 2 * l.notes.length = 2 ^ terms.depth := by
  rw [h.holds.tree.isFull, Except.ok.injEq, decide_eq_true_iff, h.holds.tree.full_iff,
    length_flatPairs]

theorem room_of_not_full {s : PoolStorage} (h : Refines terms s l)
    (hroom : isFull s.tree = .ok false) : 2 * l.notes.length < 2 ^ terms.depth := by
  have hfits := h.holds.tree.fits
  rw [length_flatPairs] at hfits
  refine lt_of_le_of_ne hfits fun hfull => ?_
  rw [h.isFull_iff.mpr hfull] at hroom
  cases hroom

/-- **The contract accepts a call exactly if the ledger does.** -/
theorem exec_iff (h : Refines terms env.pool l) :
    (∃ env', c.exec this digest env = .ok env') ↔ l.Accepts terms digest c := by
  unfold PoolCall.exec Request.enter
  cases hexit : c.request.isExit with
  | true =>
    rw [if_pos rfl]
    constructor
    · rintro ⟨env', hok⟩
      obtain ⟨hauth, hfull, hneg, t, ht⟩ := exit_ok hok
      have hnot : (!c.request.isExit) = false := by rw [hexit]; rfl
      obtain ⟨hproven, hpayable⟩ := h.settled hauth (hnot ▸ ht)
      exact ⟨hproven, hpayable, fun _ => ⟨h.isFull_iff.mp hfull, hneg⟩, by simp [hexit]⟩
    · intro ha
      have he := ha.exits hexit
      obtain ⟨env', hset⟩ := h.settle_exists this ha
      rw [hexit] at hset
      refine ⟨env', ?_⟩
      rw [Pool.exit, (requireAuth_eq_ok (u := ())).mpr ha.proven.authorised, ok_bind,
        liftMerkle_eq_ok.mpr (h.isFull_iff.mpr he.full), ok_bind, ensure_pos rfl, ok_bind,
        ensure_pos (not_le.mpr he.withdraws), ok_bind]
      exact hset
  | false =>
    rw [if_neg Bool.false_ne_true]
    constructor
    · rintro ⟨env', hok⟩
      obtain ⟨hauth, token, env1, -, hdep, t, ht⟩ := transact_ok hok
      obtain ⟨rfl, hdeposit⟩ := h.takeDeposit_iff.mp hdep
      have hnot : (!c.request.isExit) = true := by rw [hexit]; rfl
      obtain ⟨hproven, hpayable⟩ := h.settled hauth (hnot ▸ ht)
      obtain ⟨hpool, -⟩ := ht.quiet c.quiet
      obtain ⟨h0, h1, hne⟩ := ensureOutputsUnused_ok ht.outputsUnused
      rw [hpool, h.inserted_eq_false] at h0 h1
      refine ⟨hproven, hpayable, by simp [hexit], fun _ => ⟨?_, h0, h1, hne, fun hpos =>
        ⟨(hdeposit hpos).1, (hdeposit hpos).2.2⟩⟩⟩
      -- a full tree would have refused the two leaves
      by_contra hfull
      obtain ⟨_, _, htree, _⟩ := insertOutputNotes_ok ht.insert
      rw [(spendNullifiersOnce_ok ht.spend).2.2.1, hpool,
        h.holds.tree.insertTwoLeaves_full] at htree
      · cases htree
      · rw [length_flatPairs]
        omega
    · intro ha
      have ht := ha.transacts hexit
      obtain ⟨token, htoken⟩ := Option.isSome_iff_exists.mp h.token
      obtain ⟨env', hset⟩ := h.settle_exists this ha
      rw [hexit] at hset
      have hlt := (abs_lt.mp ha.proven.amount).2
      have hdep : takeDeposit (c.externals this digest) token c.request.extData c.request.sender
          env = .ok env :=
        h.takeDeposit_iff.mpr ⟨rfl, fun hpos => ⟨(ht.deposit hpos).1, hlt, (ht.deposit hpos).2⟩⟩
      refine ⟨env', ?_⟩
      rw [transact, (requireAuth_eq_ok (u := ())).mpr ha.proven.authorised, ok_bind,
        read_eq_ok.mpr htoken, ok_bind, hdep, ok_bind]
      exact hset

/-- **What the contract stores is the ledger's next state.** -/
theorem exec (h : Refines terms env.pool l) (hok : c.exec this digest env = .ok env') :
    Refines terms env'.pool (l.after c) := by
  obtain ⟨env1, t, hsame, hs, -⟩ := PoolCall.exec_ok hok
  have h1 : Refines terms env1.pool l := hsame.1 ▸ h
  obtain ⟨hver, hpool, -⟩ := hs.quiet c.quiet
  have hconfig := hs.config c.quiet
  have hleaves : flatPairs (l.after c).notes =
      flatPairs l.notes ++ Settled.outputs ⟨c.request.proof, !c.request.isExit⟩ := by
    cases hexit : c.request.isExit <;>
      simp [NoteLedger.after, hexit, flatPairs, Settled.outputs]
  have hholds := (PoolHolds.settles h1.holds c.quiet hs).1
  rw [← hleaves] at hholds
  have hspend := (spendNullifiersOnce_ok hs.spend).2.2.1
  refine ⟨hholds, ?_, fun n => ?_, ?_, ?_, ?_, ?_, ?_, ?_, ?_, ?_⟩
  · -- the ring turns with an insertion only
    cases hexit : c.request.isExit with
    | true =>
      rw [hexit] at hs
      have htree : env'.pool.tree = env1.pool.tree := by
        rw [hpool, hs.stored_exit.2.1, hver]
      have hnotes : (l.after c).notes = l.notes := by simp [NoteLedger.after, hexit]
      rw [htree, hnotes]
      exact h1.ring
    | false =>
      rw [hexit] at hs
      obtain ⟨idx, -, hinsert, -⟩ := insertOutputNotes_ok hs.insert
      rw [hspend, hver] at hinsert
      have hnotes : (l.after c).notes = l.notes ++
          [(c.request.proof.outputCommitment0, c.request.proof.outputCommitment1)] := by
        simp [NoteLedger.after, hexit]
      rw [hpool, hnotes]
      exact h1.ring.insert hinsert
  · rw [hpool, hs.grows.spent n, hver, NoteLedger.after, List.mem_append, ← h1.spent n]
    simp [or_comm]
  · rw [hpool, hs.stored_eq]
    have hsome := spendNullifiersOnce_isSome hs.spend
    have hi := hs.insert
    cases hexit : c.request.isExit with
    | true =>
      rw [hexit] at hi
      rw [← (Prod.mk.inj (Except.ok.inj hi)).2]
      exact hsome
    | false =>
      rw [hexit] at hi
      obtain ⟨-, -, -, heq, -⟩ := insertOutputNotes_ok hi
      rw [heq]
      exact hsome
  · have hcommitments : t.spent.commitments.isSome = true := by
      rw [hspend, hver]
      exact h1.commitments
    rw [hpool]
    exact insertOutputNotes_isSome hcommitments hs.insert
  all_goals rw [hconfig]
  exacts [h1.token, h1.verifier, h1.aspMembership, h1.maximumDeposit, h1.feeRecipient, h1.feeBps]

/-- **One call, both ways.** -/
theorem agree (this : Address) (digest : ExtData → Nat) :
    Agree (fun (env : Env ρ) l => Refines terms env.pool l) (PoolCall.exec this digest)
      (NoteLedger.exec terms digest) where
  forth h hok :=
    ⟨_, NoteLedger.exec_eq_ok.mpr ⟨h.exec_iff.mp ⟨_, hok⟩, rfl⟩, h.exec hok⟩
  back h hok := h.exec_iff.mpr (NoteLedger.exec_eq_ok.mp hok).1

end Refines

/-! ## 4. Every history -/

variable {terms : Terms} {admin token verifier asp feeRecipient : Address} {s0 : PoolStorage}

/-- A fresh pool is the empty ledger. -/
theorem refines_constructor (h0 : Pool.constructor admin token verifier asp terms.maximumDeposit
      feeRecipient terms.feeBps terms.depth = .ok s0) : Refines terms s0 .empty := by
  obtain ⟨-, -, -, hholds, hspent, htoken, hverifier, hasp, hmax, hrecipient, hbps⟩ :=
    Pool.constructor_ok h0
  simp only [Pool.constructor, bind_eq_ok, liftMerkle_eq_ok, Except.ok.injEq] at h0
  obtain ⟨-, -, tree, htree, rfl⟩ := h0
  refine ⟨hholds, ringed_init terms.depth_pos terms.depth_le htree, fun n => ?_, rfl, rfl, rfl, rfl,
    rfl, rfl, rfl, rfl⟩
  rw [hspent n]
  simp [NoteLedger.empty]

/-- **The pool is a ledger of notes.**  For every pool the constructor sets up and every history of
`transact` and `exit` calls, with any proofs and any answers of the callees:

* the calls the contract accepts are the calls the ledger accepts, and after the history it accepts
  a call exactly if the ledger does;
* the spent nullifiers, the recorded commitments and the current root are the ledger's. -/
theorem pool_refines_ledger (h0 : Pool.constructor admin token verifier asp terms.maximumDeposit
      feeRecipient terms.feeBps terms.depth = .ok s0) (this : Address) (digest : ExtData → Nat)
    (calls : List Pool.PoolCall) :
    let start : Env Unit := ⟨s0, [], ()⟩
    let env := run (Pool.PoolCall.exec this digest) calls start
    let ledger := run (NoteLedger.exec terms digest) calls .empty
    accepted (Pool.PoolCall.exec this digest) calls start =
      accepted (NoteLedger.exec terms digest) calls .empty ∧
    (∀ c, (∃ env', c.exec this digest env = .ok env') ↔ ledger.Accepts terms digest c) ∧
    (∀ n, env.pool.spent n = true ↔ n ∈ ledger.spent) ∧
    (∀ x, env.pool.inserted x = true ↔ x ∈ flatPairs ledger.notes) ∧
    Pool.getRoot env.pool = .ok (rootAfter terms.depth ledger.notes ledger.notes.length) := by
  intro start env ledger
  obtain ⟨haccepted, hrun⟩ := (Refines.agree (ρ := Unit) this digest).accepted_eq calls
    (s := start) (refines_constructor h0)
  refine ⟨haccepted, fun c => hrun.exec_iff, hrun.spent, hrun.holds.recorded, ?_⟩
  rw [Pool.getRoot, hrun.ring.getLastRoot, liftMerkle_eq_ok.mpr rfl]

/-- A pool of depth 1 that takes 0.3 percent. -/
def smallTerms : Terms := ⟨1, 1000, 30, by decide, by decide, by decide⟩

/-- The transaction that fills the pool is the ledger's first entry. -/
theorem pool_refines_ledger_depth_one : ∃ s0,
    Pool.constructor (.account 1) (.contract 2) (.contract 3) (.contract 4)
      smallTerms.maximumDeposit (.account 5) smallTerms.feeBps smallTerms.depth = .ok s0 ∧
    (run (NoteLedger.exec smallTerms fun _ => 0) [Pool.fillingCall] .empty).notes = [(11, 12)] := by
  have hrun : okAnd (Pool.constructor (.account 1) (.contract 2) (.contract 3) (.contract 4)
      smallTerms.maximumDeposit (.account 5) smallTerms.feeBps smallTerms.depth) (fun s0 =>
      okAnd (Pool.fillingCall.exec (.contract 6) (fun _ => 0) (⟨s0, [], ()⟩ : Env Unit))
        fun _ => true) = true := by
    decide +kernel
  obtain ⟨s0, h0, hok⟩ := okAnd_eq_true.mp hrun
  obtain ⟨env', henv', -⟩ := okAnd_eq_true.mp hok
  obtain ⟨-, haccepts, -⟩ := pool_refines_ledger h0 (.contract 6) (fun _ => 0) []
  have hexec : NoteLedger.exec smallTerms (fun _ => 0) Pool.fillingCall .empty = .ok _ :=
    NoteLedger.exec_eq_ok.mpr ⟨(haccepts Pool.fillingCall).mp ⟨env', henv'⟩, rfl⟩
  refine ⟨s0, h0, ?_⟩
  rw [run_cons, hexec, commit_ok]
  rfl

end Veil
