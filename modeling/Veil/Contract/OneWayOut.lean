/-
# Exactly one way out of the pool is open

A note leaves the pool through `transact`, which needs room for two outputs, or through `exit`,
which needs the tree to be full.  The code computes fullness in three places: in the capacity
check of `insert_two_leaves`, in `is_full`, and, by a saturating subtraction, in
`remaining_leaves`.  If they disagreed in a reachable state, both ways could be closed at once.

They agree because of the history: the capacity is even, and so is the next index, which grows by
two with every accepted `transact` and by nothing else.
-/
import Veil.Contract.PoolHistory

namespace Veil

open Tx Unsigned

namespace Pool

/-! ## 1. Histories of `transact` and `exit` -/

/-- A call, and what the callees answer it. -/
structure PoolCall where
  request : Request
  answers : Answers

section History

variable (this : Address) (digest : ExtData → Nat)

/-- The callees answer and do nothing else. -/
def PoolCall.externals {ρ : Type} (c : PoolCall) : Externals ρ :=
  c.answers.externals this digest id id id id id

def PoolCall.exec {ρ : Type} (c : PoolCall) (env : Env ρ) : Result (Env ρ) :=
  c.request.enter (c.externals this digest) env

end History

variable {ρ : Type} {this : Address} {digest : ExtData → Nat} {env env' : Env ρ} {c : PoolCall}

theorem PoolCall.quiet (c : PoolCall) : Quiet (c.externals this digest : Externals ρ) :=
  respects_externals c.answers SamePool.refl SamePool.refl SamePool.refl SamePool.refl
    SamePool.refl

/-- What an accepted call leaves in the log. -/
def PoolCall.settled (c : PoolCall) : Settled := ⟨c.request.proof, !c.request.isExit⟩

/-- The leaves the accepted calls of a history inserted, in order. -/
def insertedNotes (log : List PoolCall) : List Nat := outputs (log.map PoolCall.settled)

/-- An accepted call settled; if it was an exit, the tree was full. -/
theorem PoolCall.exec_ok (h : c.exec this digest env = .ok env') :
    ∃ env1 t, SamePool env env1 ∧ Settles (c.externals this digest) c.request.proof
        c.request.extData (!c.request.isExit) env1 t env' ∧
      (c.request.isExit = true → MerkleTreeWithHistory.isFull env.pool.tree = .ok true) :=
  c.request.enter_respects c.quiet SamePool.refl h

variable {L : Nat} {leaves : List Nat}

theorem PoolHolds.exec (h : PoolHolds L leaves env.pool) (hok : c.exec this digest env = .ok env') :
    PoolHolds L (leaves ++ c.settled.outputs) env'.pool := by
  obtain ⟨env1, t, hsame, ht, -⟩ := PoolCall.exec_ok hok
  exact (PoolHolds.settles (hsame.1 ▸ h) c.quiet ht).1

/-- **Every history.**  The pool holds the outputs of the accepted `transact` calls. -/
theorem poolHolds_run {s0 : PoolStorage} (h : PoolHolds L [] s0) (events : List PoolEvent)
    (rest : ρ) (calls : List PoolCall) :
    PoolHolds L (insertedNotes (accepted (PoolCall.exec this digest) calls ⟨s0, events, rest⟩))
      (run (PoolCall.exec this digest) calls ⟨s0, events, rest⟩).pool := by
  refine accepted_induction (P := fun log (env : Env ρ) => PoolHolds L (insertedNotes log) env.pool)
    (fun log env c env' hP hok => ?_) calls [] (⟨s0, events, rest⟩ : Env ρ) h
  simpa [insertedNotes, outputs] using hP.exec hok

theorem length_insertedNotes (log : List PoolCall) : (insertedNotes log).length =
    2 * (log.filter fun c => !c.request.isExit).length := by
  induction log with
  | nil => rfl
  | cons c log ih =>
    have hcons : insertedNotes (c :: log) = c.settled.outputs ++ insertedNotes log := rfl
    rw [hcons, List.length_append, ih]
    cases hc : c.request.isExit <;> simp [PoolCall.settled, Settled.outputs, hc]; omega

/-! ## 2. The errors a call can end in -/

/-- The faults that have nothing to do with the state of the tree. -/
def ordinaryFaults : List (Fault ContractError) :=
  [.trapped, .notAuthorized, .contract .notInitialized, .contract .overflow,
   .contract .invalidFieldElement, .contract .unknownRoot, .contract .alreadySpentNullifier,
   .contract .wrongExtHash, .contract .wrongExtAmount, .contract .invalidProof,
   .contract .alreadyInsertedCommitment]

/-- The faults of `settle` on a pool that is `full` or not. -/
def SettleFault (full : Prop) (e : Fault ContractError) : Prop :=
  e ∈ ordinaryFaults ∨ (e = .contract .merkleTreeFull ∧ full)

theorem SettleFault.ordinary {full : Prop} {e : Fault ContractError} (h : e ∈ ordinaryFaults) :
    SettleFault full e := .inl h

section Faults

variable {full : Prop} {s s' : PoolStorage} {proof : Proof} {extData : ExtData}
  {ext : Externals ρ}

theorem fails_read {α : Type} (entry : Option α) : Fails (SettleFault full) (read entry) :=
  Fails.okOr (.ordinary (by decide))

theorem fails_ensureFieldElement (v : Nat) :
    Fails (SettleFault full) (ensureFieldElement v) := Fails.ensure (.ordinary (by decide))

theorem fails_ensureFieldElements : ∀ vs : List Nat,
    Fails (SettleFault full) (ensureFieldElements vs)
  | [] => Fails.ok ()
  | v :: vs => (fails_ensureFieldElement v).bind fun _ _ => fails_ensureFieldElements vs

theorem fails_ensureProofFieldElements (proof : Proof) :
    Fails (SettleFault full) (ensureProofFieldElements proof) :=
  (fails_ensureFieldElement _).bind fun _ _ => (fails_ensureFieldElement _).bind fun _ _ =>
    (fails_ensureFieldElements _).bind fun _ _ => (fails_ensureFieldElement _).bind fun _ _ =>
      (fails_ensureFieldElement _).bind fun _ _ => fails_ensureFieldElement _

theorem fails_checkNullifiers (stored : Nat → Option Bool) : ∀ (ns : List Nat)
    (seen : Nat → Option Bool), Fails (SettleFault full) (checkNullifiers stored seen ns)
  | [], _ => Fails.ok ()
  | _ :: ns, _ => Fails.bind (Fails.ensure (.ordinary (by decide))) fun _ _ =>
      fails_checkNullifiers stored ns _

theorem fails_ensureNullifiersUnspent (s : PoolStorage) (ns : List Nat) :
    Fails (SettleFault full) (ensureNullifiersUnspent s ns) :=
  (fails_read _).bind fun _ _ => fails_checkNullifiers _ _ _

theorem fails_searchRoots (m : MerkleStorage) (root cur : Nat) : ∀ fuel i,
    Fails (SettleFault full) (liftMerkle (MerkleTreeWithHistory.searchRoots m root cur fuel i))
  | 0, _ => Fails.error (.ordinary (by decide))
  | fuel + 1, i => by
    rw [MerkleTreeWithHistory.searchRoots]
    split
    · exact Fails.ok true
    · cases hadd : checkedAdd 32 i 1 with
      | none => exact Fails.error (.ordinary (by decide))
      | some j =>
        rw [okOr_some, ok_bind]
        dsimp only
        split
        · exact Fails.ok false
        · exact fails_searchRoots m root cur fuel _

theorem fails_isKnownRoot (m : MerkleStorage) (root : Nat) :
    Fails (SettleFault full) (liftMerkle (MerkleTreeWithHistory.isKnownRoot m root)) := by
  unfold MerkleTreeWithHistory.isKnownRoot
  split
  · exact Fails.ok false
  · cases m.currentRootIndex with
    | none => exact Fails.error (.ordinary (by decide))
    | some cur => exact fails_searchRoots m root cur _ _

theorem fails_i256Neg (v : Int) : Fails (SettleFault full) (i256Neg v) :=
  Fails.bind (Fails.ensure (.ordinary (by decide))) fun _ _ => Fails.ok _

theorem fails_i256AbsToU256 (v : Int) : Fails (SettleFault full) (i256AbsToU256 v) := by
  unfold i256AbsToU256
  split
  · exact Fails.ok _
  · exact (fails_i256Neg v).bind fun _ _ => Fails.ok _

theorem fails_calculatePublicAmount (v : Int) :
    Fails (SettleFault full) (calculatePublicAmount v) := by
  refine (fails_i256AbsToU256 v).bind fun _ _ =>
    Fails.bind (Fails.ensure (.ordinary (by decide))) fun _ _ => ?_
  split
  · exact Fails.ok _
  · exact (fails_i256Neg v).bind fun _ _ => Fails.ok _

theorem fails_calculatePayout (extData : ExtData) (s : PoolStorage) :
    Fails (SettleFault full) (calculatePayout extData s) := by
  unfold calculatePayout
  split
  · refine (fails_i256Neg _).bind fun abs _ => Fails.bind ?_ fun amount _ =>
      (fails_read _).bind fun bps _ => Fails.bind ?_ fun fee _ =>
        Fails.bind (Fails.okOr (.ordinary (by decide))) fun _ _ => Fails.ok _
    · exact Fails.bind (Fails.ensure (.ordinary (by decide))) fun _ _ =>
        Fails.okOr (.ordinary (by decide))
    · exact Fails.bind (Fails.okOr (.ordinary (by decide))) fun _ _ => Fails.ok _
  · exact Fails.ok _

theorem fails_isCommitmentInserted (s : PoolStorage) (c : Nat) :
    Fails (SettleFault full) (isCommitmentInserted s c) :=
  (fails_read _).bind fun _ _ => Fails.ok _

theorem fails_ensureOutputsUnused (insertOutputs : Bool) (proof : Proof) (s : PoolStorage) :
    Fails (SettleFault full) (ensureOutputsUnused insertOutputs proof s) := by
  have hone : ∀ c, Fails (SettleFault full) (ensureCommitmentUnused s c) := fun c =>
    (fails_isCommitmentInserted s c).bind fun _ _ => Fails.ensure (.ordinary (by decide))
  unfold ensureOutputsUnused
  split
  · exact (hone _).bind fun _ _ => (hone _).bind fun _ _ => Fails.ensure (.ordinary (by decide))
  · exact Fails.ok ()

theorem fails_payOut (ext : Externals ρ) (token recipient : Address)
    (payout : Option (Int × Int)) (env : Env ρ) :
    Fails (SettleFault full) (payOut ext token recipient payout env) := by
  match payout with
  | none => exact Fails.ok _
  | some (amount, fee) =>
    refine Fails.bind ?_ fun env1 _ => ?_
    · unfold payRecipient
      split
      · exact Fails.okOr (.ordinary (by decide))
      · exact Fails.ok _
    · unfold payFee
      split
      · exact (fails_read _).bind fun _ _ => Fails.okOr (.ordinary (by decide))
      · exact Fails.ok _

/-- Under the invariant the insertion fails for want of room only, if its leaves are field
elements or not. -/
theorem fails_insertOutputNotes (h : MerkleTreeWithHistory.Holds L leaves s.tree)
    (insertOutputs : Bool) (proof : Proof) :
    Fails (SettleFault (leaves.length + 2 > 2 ^ L)) (insertOutputNotes insertOutputs proof s) := by
  have hmark : ∀ (s : PoolStorage) (c : Nat),
      Fails (SettleFault (leaves.length + 2 > 2 ^ L)) (markCommitmentInserted s c) := fun s c =>
    (fails_read _).bind fun _ _ => Fails.ok _
  unfold insertOutputNotes
  split
  · refine Fails.bind ?_ fun _ _ => (hmark _ _).bind fun _ _ => (hmark _ _).bind fun _ _ =>
      Fails.ok _
    rcases h.insertTwoLeaves_cases proof.outputCommitment0 proof.outputCommitment1 with
      ⟨he, hfull⟩ | he | ⟨hfit, h0, h1⟩
    · rw [he]
      exact Fails.error (.inr ⟨rfl, hfull⟩)
    · rw [he]
      exact Fails.error (.ordinary (by decide))
    · obtain ⟨s', hs', -⟩ := h.insertTwoLeaves h0 h1 hfit
      rw [hs']
      exact Fails.ok _
  · exact Fails.ok _

/-- **The errors of `settle`** on a pool that holds `leaves`. -/
theorem fails_settle (hq : Quiet ext) (h : PoolHolds L leaves env.pool) (insertOutputs : Bool) :
    Fails (SettleFault (leaves.length + 2 > 2 ^ L))
      (settle ext proof extData insertOutputs env) := by
  unfold settle
  refine (fails_ensureProofFieldElements proof).bind fun _ _ => (fails_isKnownRoot _ _).bind
    fun _ _ => Fails.bind (Fails.ensure (.ordinary (by decide))) fun _ _ =>
    (fails_ensureNullifiersUnspent _ _).bind fun _ _ =>
    Fails.bind (Fails.ensure (.ordinary (by decide))) fun _ _ =>
    (fails_calculatePublicAmount _).bind fun _ _ =>
    Fails.bind (Fails.ensure (.ordinary (by decide))) fun _ _ =>
    Fails.bind ((fails_read _).bind fun _ _ => Fails.okOr (.ordinary (by decide))) ?_
  rintro ⟨memberRoot, env1⟩ hroot
  refine Fails.bind (Fails.ensure (.ordinary (by decide))) fun _ _ => Fails.bind
    (Fails.bind (Fails.ensure (.ordinary (by decide))) fun _ _ => (fails_read _).bind fun _ _ =>
      Fails.okOr (.ordinary (by decide))) ?_
  rintro ⟨verified, env2⟩ hver
  refine Fails.bind (Fails.ensure (.ordinary (by decide))) fun _ _ =>
    (fails_ensureOutputsUnused _ _ _).bind fun _ _ => Fails.bind
    ((fails_ensureNullifiersUnspent _ _).bind fun _ _ => (fails_read _).bind fun _ _ => Fails.ok _)
    ?_
  intro spent hspend
  -- up to the insertion nothing has written to the tree
  have htree : MerkleTreeWithHistory.Holds L leaves spent.tree := by
    have hsame := (hq.getAspMembershipRoot hroot).trans (hq.verifyProof hver)
    have hspent : spent.tree = env2.pool.tree := by rw [(spendNullifiersOnce_ok hspend).2.2.1]
    rw [hspent, hsame.1]
    exact h.tree
  exact (fails_read _).bind fun _ _ => (fails_calculatePayout _ _).bind fun _ _ =>
    (fails_insertOutputNotes htree _ _).bind fun _ _ => (fails_payOut _ _ _ _ _).bind fun _ _ =>
    Fails.bind (Fails.okOr (.ordinary (by decide))) fun _ _ => Fails.ok _

end Faults

/-! ## 3. Fullness -/

theorem PoolHolds.isTreeFull {s : PoolStorage} (h : PoolHolds L leaves s) :
    isTreeFull s = .ok (decide (leaves.length = 2 ^ L)) := by
  rw [Pool.isTreeFull, h.tree.isFull, liftMerkle_eq_ok.mpr rfl,
    decide_eq_decide.mpr h.tree.full_iff]

theorem PoolHolds.remainingLeaves {s : PoolStorage} (h : PoolHolds L leaves s) :
    remainingLeaves s = .ok (2 ^ L - leaves.length) := by
  rw [Pool.remainingLeaves, h.tree.remainingLeaves, liftMerkle_eq_ok.mpr rfl]

/-- The three computations of fullness agree. -/
theorem PoolHolds.full_iff {s : PoolStorage} (h : PoolHolds L leaves s) :
    (Pool.isTreeFull s = .ok true ↔ leaves.length = 2 ^ L) ∧
      (Pool.remainingLeaves s = .ok 0 ↔ leaves.length = 2 ^ L) ∧
      ((∀ leaf1 leaf2, MerkleTreeWithHistory.insertTwoLeaves leaf1 leaf2 s.tree =
        .error (.contract .merkleTreeFull)) ↔ leaves.length = 2 ^ L) := by
  have hfits := h.tree.fits
  refine ⟨?_, ?_, fun hall => ?_, fun hfull leaf1 leaf2 => ?_⟩
  · rw [h.isTreeFull, Except.ok.injEq, decide_eq_true_iff]
  · rw [h.remainingLeaves, Except.ok.injEq]
    omega
  · by_contra hnot
    obtain ⟨s', hs', -⟩ := h.tree.insertTwoLeaves bn256Modulus_pos bn256Modulus_pos
      (Nat.not_lt.mp (mt h.tree.full_iff.mp hnot))
    rw [hall 0 0] at hs'
    cases hs'
  · exact h.tree.insertTwoLeaves_full (h.tree.full_iff.mpr hfull)

/-- An authorised exit is refused with `TreeNotFull` exactly while the tree is not full. -/
theorem PoolHolds.exit_treeNotFull_iff (h : PoolHolds L leaves env.pool)
    (hexit : c.request.isExit = true) (hauth : c.request.auth c.request.sender = true) :
    c.exec this digest env = .error (.contract .treeNotFull) ↔ leaves.length ≠ 2 ^ L := by
  have hfull : liftMerkle (MerkleTreeWithHistory.isFull env.pool.tree) =
      .ok (decide (leaves.length = 2 ^ L)) := h.isTreeFull
  simp only [PoolCall.exec, Request.enter, if_pos hexit, Pool.exit, requireAuth, ensure_pos hauth,
    ok_bind, hfull]
  by_cases hl : leaves.length = 2 ^ L
  · -- then the check passes, and nothing after it fails this way
    rw [ensure_pos (decide_eq_true hl), ok_bind]
    refine iff_of_false (fun he => ?_) (not_not.mpr hl)
    rcases bind_eq_error.mp he with he | ⟨_, -, he⟩
    · cases (ensure_eq_error.mp he).2
    · rcases fails_settle c.quiet h false _ he with hord | ⟨he, -⟩
      · exact absurd hord (by decide)
      · cases he
  · have hfalse : ¬(decide (leaves.length = 2 ^ L) = true) := by simpa using hl
    rw [ensure_neg hfalse, error_bind]
    exact iff_of_true rfl hl

/-- `NextIndexNotEven` is never returned, and `MerkleTreeFull` only by a full tree: the last two
conversions of `insert_two_leaves`, which report the same error, never fail. -/
theorem PoolHolds.exec_error (h : PoolHolds L leaves env.pool) {e : Fault ContractError}
    (herr : c.exec this digest env = .error e) :
    e ≠ .contract .nextIndexNotEven ∧ (e = .contract .merkleTreeFull → leaves.length = 2 ^ L) := by
  have hset : ∀ {env1 : Env ρ}, SamePool env env1 → ∀ {b : Bool},
      settle (c.externals this digest) c.request.proof c.request.extData b env1 = .error e →
      e ≠ .contract .nextIndexNotEven ∧
        (e = .contract .merkleTreeFull → leaves.length = 2 ^ L) := by
    intro env1 hsame b he
    rcases fails_settle c.quiet (hsame.1 ▸ h) b _ he with hord | ⟨rfl, hfull⟩
    · constructor <;> rintro rfl <;> exact absurd hord (by decide)
    · exact ⟨by simp, fun _ => h.tree.full_iff.mp hfull⟩
  unfold PoolCall.exec Request.enter at herr
  split at herr
  · simp only [Pool.exit, requireAuth, bind_eq_error, ensure_eq_error, ensure_eq_ok] at herr
    rcases herr with ⟨-, rfl⟩ | ⟨-, -, herr⟩
    · simp
    rcases herr with herr | ⟨_, -, ⟨-, rfl⟩ | ⟨-, -, ⟨-, rfl⟩ | ⟨-, -, herr⟩⟩⟩
    · rw [h.tree.isFull, liftMerkle_eq_ok.mpr rfl] at herr
      cases herr
    · simp
    · simp
    · exact hset (SamePool.refl env) herr
  · simp only [Pool.transact, requireAuth, read, bind_eq_error, ensure_eq_error, ensure_eq_ok,
      okOr_eq_error, okOr_eq_ok] at herr
    rcases herr with ⟨-, rfl⟩ | ⟨-, -, ⟨-, rfl⟩ | ⟨token, -, herr⟩⟩
    · simp
    · simp
    rcases herr with herr | ⟨env1, hdep, herr⟩
    · unfold takeDeposit at herr
      split at herr
      · simp only [read, i256ToI128Nonneg, bind_eq_error, ensure_eq_error, okOr_eq_error] at herr
        rcases herr with ⟨-, rfl⟩ | ⟨_, -, ⟨-, rfl⟩ | ⟨-, -, (⟨-, rfl⟩ | ⟨-, -, -, rfl⟩) |
          ⟨_, -, -, rfl⟩⟩⟩ <;> simp
      · cases herr
    · exact hset (c.quiet.takeDeposit SamePool.refl hdep) herr

/-! ## 4. The history theorem -/

/-- **Exactly one way out is open.**  For every freshly constructed pool and every history of
`transact` and `exit` calls, with any proofs and any answers of the callees:

* the next index is even, at most the capacity, and twice the number of accepted `transact`
  calls; the recorded commitments are the leaves of the tree, all distinct;
* no call fails because the index is odd or does not fit its type;
* fullness by `is_tree_full`, by `remaining_leaves`, by the insertion's own check and by the
  guard of `exit` is the same thing;
* a full pool stays full, and an exit changes neither the tree nor the commitments. -/
theorem exactly_one_way_out {admin token verifier asp feeRecipient : Address}
    {maximumDeposit feeBps L : Nat} {s0 : PoolStorage}
    (h0 : constructor admin token verifier asp maximumDeposit feeRecipient feeBps L = .ok s0)
    (this : Address) (digest : ExtData → Nat) (calls : List PoolCall) :
    let exec : PoolCall → Env Unit → Result (Env Unit) := PoolCall.exec this digest
    let pool := (run exec calls ⟨s0, [], ()⟩).pool
    let log := accepted exec calls ⟨s0, [], ()⟩
    let leaves := insertedNotes log
    (pool.tree.nextIndex = some leaves.length ∧ leaves.length % 2 = 0 ∧ leaves.length ≤ 2 ^ L ∧
      leaves.length = 2 * (log.filter fun c => !c.request.isExit).length) ∧
    (getRoot pool = .ok (treeRoot L leaves) ∧ leaves.Nodup ∧
      ∀ c, pool.inserted c = true ↔ c ∈ leaves) ∧
    (∀ c e, exec c (run exec calls ⟨s0, [], ()⟩) = .error e → e ≠ .contract .nextIndexNotEven ∧
      (e = .contract .merkleTreeFull → isTreeFull pool = .ok true)) ∧
    (∀ leaf1 leaf2 e, MerkleTreeWithHistory.insertTwoLeaves leaf1 leaf2 pool.tree = .error e →
      (e = .contract .merkleTreeFull ∧ isTreeFull pool = .ok true) ∨ e = .trapped) ∧
    (isTreeFull pool = .ok true ↔ remainingLeaves pool = .ok 0) ∧
    (isTreeFull pool = .ok true ↔ ∀ leaf1 leaf2,
      MerkleTreeWithHistory.insertTwoLeaves leaf1 leaf2 pool.tree =
        .error (.contract .merkleTreeFull)) ∧
    (∀ c : PoolCall, c.request.isExit = true → c.request.auth c.request.sender = true →
      (isTreeFull pool = .ok true ↔
        exec c (run exec calls ⟨s0, [], ()⟩) ≠ .error (.contract .treeNotFull))) ∧
    (isTreeFull pool = .ok true →
      ∀ more, isTreeFull (run exec (calls ++ more) ⟨s0, [], ()⟩).pool = .ok true) ∧
    (∀ c env', c.request.isExit = true → exec c (run exec calls ⟨s0, [], ()⟩) = .ok env' →
      env'.pool.tree = pool.tree ∧ env'.pool.commitments = pool.commitments) := by
  intro exec pool log leaves
  obtain ⟨-, -, -, hempty, -⟩ := constructor_ok h0
  have h : PoolHolds L leaves pool := poolHolds_run hempty [] () calls
  obtain ⟨hfull, hremain, hinsert⟩ := h.full_iff
  refine ⟨⟨h.tree.nextIndex, h.tree.even, h.tree.fits, length_insertedNotes log⟩,
    ⟨?_, h.nodup, h.recorded⟩, fun c e he => ?_, fun leaf1 leaf2 e he => ?_,
    hfull.trans hremain.symm, hfull.trans hinsert.symm, fun c hexit hauth => ?_, fun hf more => ?_,
    fun c env' hexit hok => ?_⟩
  · rw [getRoot, h.tree.getLastRoot, liftMerkle_eq_ok.mpr rfl]
  · exact ⟨(h.exec_error he).1, fun hm => hfull.mpr ((h.exec_error he).2 hm)⟩
  · rcases h.tree.insertTwoLeaves_cases leaf1 leaf2 with ⟨he', hf⟩ | he' | ⟨hfit, h1, h2⟩
    · exact .inl ⟨Except.error.inj (he.symm.trans he'), hfull.mpr (h.tree.full_iff.mp hf)⟩
    · exact .inr (Except.error.inj (he.symm.trans he'))
    · obtain ⟨s', hs', -⟩ := h.tree.insertTwoLeaves h1 h2 hfit
      rw [hs'] at he
      cases he
  · rw [hfull, ne_eq, h.exit_treeNotFull_iff hexit hauth, not_not]
  · -- the leaves of the longer history extend these, and there are never more than fit
    have hmore : PoolHolds L (insertedNotes (accepted exec (calls ++ more) ⟨s0, [], ()⟩))
        (run exec (calls ++ more) ⟨s0, [], ()⟩).pool := poolHolds_run hempty [] () _
    have hlen : leaves.length ≤
        (insertedNotes (accepted exec (calls ++ more) ⟨s0, [], ()⟩)).length := by
      rw [accepted_append, insertedNotes, List.map_append, outputs_append, List.length_append]
      exact Nat.le_add_right _ _
    have hfits := hmore.tree.fits
    exact hmore.full_iff.1.mpr (by rw [hfull] at hf; omega)
  · obtain ⟨env1, t, hsame, ht, -⟩ := PoolCall.exec_ok hok
    rw [hexit, Bool.not_true] at ht
    obtain ⟨hver, hpool, -⟩ := ht.quiet c.quiet
    obtain ⟨-, htree, hcomm⟩ := ht.stored_exit
    rw [hpool, htree, hcomm, hver, hsame.1]
    exact ⟨rfl, rfl⟩

/-- A transaction without inputs or value against the empty tree of depth 1. -/
def fillingCall : PoolCall where
  request := {
    isExit := false
    auth := fun _ => true
    proof := {
      proof := ⟨.replicate 64 0, .replicate 128 0, .replicate 64 0⟩
      root := getZeroes.getD 1 0
      inputNullifiers := []
      outputCommitment0 := 11
      outputCommitment1 := 12
      publicAmount := 0
      extDataHash := 0
      aspMembershipRoot := 0 }
    extData := ⟨.account 7, 0, [], []⟩
    sender := .account 7 }
  answers := ⟨true, some 0, some true, true, true⟩

/-- It is accepted, fills the tree, and the pool stays full. -/
theorem exactly_one_way_out_depth_one :
    ∃ s0, constructor (.account 1) (.contract 2) (.contract 3) (.contract 4) 1000 (.account 5)
        30 1 = .ok s0 ∧
      ∀ more, isTreeFull (run (PoolCall.exec (.contract 6) fun _ => 0) ([fillingCall] ++ more)
        (⟨s0, [], ()⟩ : Env Unit)).pool = .ok true := by
  have h0 : constructor (.account 1) (.contract 2) (.contract 3) (.contract 4) 1000 (.account 5)
    30 1 = .ok _ := rfl
  obtain ⟨-, -, -, -, -, -, -, hstays, -⟩ :=
    exactly_one_way_out h0 (.contract 6) (fun _ => 0) [fillingCall]
  exact ⟨_, h0, hstays (by decide +kernel)⟩

end Pool

end Veil
