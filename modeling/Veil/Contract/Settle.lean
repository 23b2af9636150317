/-
# What an accepted call of the pool did

`settle` is one long sequence of checks and writes.  This file inverts it once: `settle_ok` turns
an accepted call into a record of its steps (`Settles`), and each step's own lemma says what the
step checked and wrote.  Every later result about the pool starts from these and never unfolds
the pipeline again.

The two maps are read through `spent` and `inserted`, which are what the contract's views return.
-/
import Veil.Contract.Pool

namespace Veil

open Tx

/-- The view of the nullifier map. -/
def PoolStorage.spent (s : PoolStorage) (n : Nat) : Bool :=
  match s.nullifiers with
  | some m => (m n).getD false
  | none => false

/-- The view of the commitment map. -/
def PoolStorage.inserted (s : PoolStorage) (c : Nat) : Bool :=
  match s.commitments with
  | some m => (m c).getD false
  | none => false

namespace Pool

variable {ρ : Type}

/-! ## 1. The checks -/

@[simp] theorem read_eq_ok {α : Type} {entry : Option α} {a : α} :
    read entry = .ok a ↔ entry = some a := by
  simp [read]

@[simp] theorem ensureFieldElement_eq_ok {value : Nat} {u : Unit} :
    ensureFieldElement value = .ok u ↔ value < bn256Modulus := by
  simp [ensureFieldElement]

@[simp] theorem ensureFieldElements_eq_ok {u : Unit} : ∀ {values : List Nat},
    ensureFieldElements values = .ok u ↔ ∀ v ∈ values, v < bn256Modulus
  | [] => by simp [ensureFieldElements]
  | v :: values => by
    have ih : ensureFieldElements values = .ok u ↔ _ := ensureFieldElements_eq_ok
    simp [ensureFieldElements, bind_eq_ok, ih]

/-- Every public value of an accepted proof is a field element. -/
structure FieldElements (proof : Proof) : Prop where
  root : proof.root < bn256Modulus
  publicAmount : proof.publicAmount < bn256Modulus
  inputNullifiers : ∀ n ∈ proof.inputNullifiers, n < bn256Modulus
  outputCommitment0 : proof.outputCommitment0 < bn256Modulus
  outputCommitment1 : proof.outputCommitment1 < bn256Modulus
  aspMembershipRoot : proof.aspMembershipRoot < bn256Modulus

theorem ensureProofFieldElements_ok {proof : Proof} {u : Unit}
    (h : ensureProofFieldElements proof = .ok u) : FieldElements proof := by
  simp only [ensureProofFieldElements, bind_eq_ok, ensureFieldElement_eq_ok,
    ensureFieldElements_eq_ok] at h
  obtain ⟨-, h1, -, h2, -, h3, -, h4, -, h5, h6⟩ := h
  exact ⟨h1, h2, h3, h4, h5, h6⟩

/-- The nullifier loop passes exactly the lists of distinct, unspent, unseen values. -/
theorem checkNullifiers_eq_ok {stored : Nat → Option Bool} {u : Unit} :
    ∀ {ns : List Nat} {seen : Nat → Option Bool},
    checkNullifiers stored seen ns = .ok u ↔
      ns.Nodup ∧ ∀ n ∈ ns, (stored n).getD false = false ∧ (seen n).getD false = false
  | [], seen => by simp [checkNullifiers]
  | n :: ns, seen => by
    have hseen : ∀ m, (Function.update seen n (some true) m).getD false =
        (decide (m = n) || (seen m).getD false) := by
      intro m
      by_cases hm : m = n
      · subst hm; simp
      · simp [hm]
    have ih : checkNullifiers stored (Function.update seen n (some true)) ns = .ok u ↔ _ :=
      checkNullifiers_eq_ok
    simp only [checkNullifiers, bind_eq_ok, ensure_eq_ok, ih, hseen, exists_const,
      List.nodup_cons, List.forall_mem_cons, not_or, Bool.not_eq_true, Bool.or_eq_false_iff,
      decide_eq_false_iff_not]
    constructor
    · rintro ⟨h1, hnd, h2⟩
      exact ⟨⟨fun hn => (h2 n hn).2.1 rfl, hnd⟩, h1, fun m hm => ⟨(h2 m hm).1, (h2 m hm).2.2⟩⟩
    · rintro ⟨⟨hn, hnd⟩, h1, h2⟩
      exact ⟨h1, hnd, fun m hm => ⟨(h2 m hm).1, fun e => hn (e ▸ hm), (h2 m hm).2⟩⟩

theorem ensureNullifiersUnspent_ok {s : PoolStorage} {ns : List Nat} {u : Unit}
    (h : ensureNullifiersUnspent s ns = .ok u) : ns.Nodup ∧ ∀ n ∈ ns, s.spent n = false := by
  simp only [ensureNullifiersUnspent, bind_eq_ok, read_eq_ok, checkNullifiers_eq_ok] at h
  obtain ⟨stored, hs, hnd, hun⟩ := h
  exact ⟨hnd, fun n hn => by simp only [PoolStorage.spent, hs]; exact (hun n hn).1⟩

theorem foldl_update_getD (ns : List Nat) (m : Nat → Option Bool) (n : Nat) :
    ((ns.foldl (fun m n => Function.update m n (some true)) m) n).getD false =
      (decide (n ∈ ns) || (m n).getD false) := by
  induction ns generalizing m with
  | nil => simp
  | cons a ns ih =>
    rw [List.foldl_cons, ih]
    by_cases ha : n = a
    · subst ha; simp
    · simp [ha]

/-- **Spending.**  The nullifiers were distinct and unspent; now they, and what was spent before,
are spent, and nothing else of the storage has changed. -/
theorem spendNullifiersOnce_ok {s s' : PoolStorage} {ns : List Nat}
    (h : spendNullifiersOnce s ns = .ok s') :
    ns.Nodup ∧ (∀ n ∈ ns, s.spent n = false) ∧ s' = { s with nullifiers := s'.nullifiers } ∧
      ∀ n, s'.spent n = (decide (n ∈ ns) || s.spent n) := by
  simp only [spendNullifiersOnce, bind_eq_ok, read_eq_ok, Except.ok.injEq] at h
  obtain ⟨_, hun, stored, hs, rfl⟩ := h
  obtain ⟨hnd, hun⟩ := ensureNullifiersUnspent_ok hun
  refine ⟨hnd, hun, rfl, fun n => ?_⟩
  simp only [PoolStorage.spent, hs, foldl_update_getD]

theorem ensureCommitmentUnused_ok {s : PoolStorage} {c : Nat} {u : Unit}
    (h : ensureCommitmentUnused s c = .ok u) : s.inserted c = false := by
  simp only [ensureCommitmentUnused, isCommitmentInserted, bind_eq_ok, read_eq_ok, ensure_eq_ok,
    Except.ok.injEq] at h
  obtain ⟨-, ⟨m, hm, rfl⟩, hc⟩ := h
  simpa only [PoolStorage.inserted, hm] using hc

theorem ensureOutputsUnused_ok {proof : Proof} {s : PoolStorage} {u : Unit}
    (h : ensureOutputsUnused true proof s = .ok u) :
    s.inserted proof.outputCommitment0 = false ∧ s.inserted proof.outputCommitment1 = false ∧
      proof.outputCommitment0 ≠ proof.outputCommitment1 := by
  simp only [ensureOutputsUnused, if_true, bind_eq_ok, ensure_eq_ok] at h
  obtain ⟨_, h0, _, h1, hne⟩ := h
  exact ⟨ensureCommitmentUnused_ok h0, ensureCommitmentUnused_ok h1, hne⟩

theorem markCommitmentInserted_ok {s s' : PoolStorage} {c : Nat}
    (h : markCommitmentInserted s c = .ok s') :
    s' = { s with commitments := s'.commitments } ∧
      ∀ x, s'.inserted x = (decide (x = c) || s.inserted x) := by
  simp only [markCommitmentInserted, bind_eq_ok, read_eq_ok, Except.ok.injEq] at h
  obtain ⟨m, hm, rfl⟩ := h
  refine ⟨rfl, fun x => ?_⟩
  simp only [PoolStorage.inserted, hm]
  by_cases hx : x = c
  · subst hx; simp
  · simp [hx]

/-- **Inserting.**  The tree took the two outputs, they and what was recorded before are
recorded, and nothing else of the storage has changed. -/
theorem insertOutputNotes_ok {proof : Proof} {s s' : PoolStorage} {inserted : Option (Nat × Nat)}
    (h : insertOutputNotes true proof s = .ok (inserted, s')) :
    ∃ idx, inserted = some idx ∧
      MerkleTreeWithHistory.insertTwoLeaves proof.outputCommitment0 proof.outputCommitment1 s.tree =
        .ok (idx, s'.tree) ∧
      s' = { s with tree := s'.tree, commitments := s'.commitments } ∧
      ∀ c, s'.inserted c =
        (decide (c = proof.outputCommitment0 ∨ c = proof.outputCommitment1) || s.inserted c) := by
  simp only [insertOutputNotes, if_true, bind_eq_ok, liftMerkle_eq_ok, Prod.exists,
    Except.ok.injEq, Prod.mk.injEq] at h
  obtain ⟨idx0, idx1, tree, htree, s1, h1, s2, h2, rfl, rfl⟩ := h
  obtain ⟨he1, hi1⟩ := markCommitmentInserted_ok h1
  obtain ⟨he2, hi2⟩ := markCommitmentInserted_ok h2
  rw [he1] at he2
  refine ⟨(idx0, idx1), rfl, by rw [he2]; exact htree, by rw [he2], fun c => ?_⟩
  have hsame : ({ s with tree := tree } : PoolStorage).inserted c = s.inserted c := rfl
  rw [hi2 c, hi1 c, hsame]
  by_cases h0 : c = proof.outputCommitment0 <;> by_cases h1 : c = proof.outputCommitment1 <;>
    simp [h0, h1]

/-! ## 2. The whole pipeline -/

/-- The intermediate states of an accepted `settle`. -/
structure SettleTrace (ρ : Type) where
  /-- After the allowlist was asked for its root. -/
  asked : Env ρ
  /-- After the verifier answered. -/
  verified : Env ρ
  spent : PoolStorage
  token : Address
  payout : Option (Int × Int)
  inserted : Option (Nat × Nat)
  stored : PoolStorage
  /-- After the payout. -/
  paid : Env ρ

/-- **The steps of an accepted `settle`**, in the order they ran. -/
structure Settles (ext : Externals ρ) (proof : Proof) (extData : ExtData) (insertOutputs : Bool)
    (env : Env ρ) (t : SettleTrace ρ) (env' : Env ρ) : Prop where
  fieldElements : FieldElements proof
  known : MerkleTreeWithHistory.isKnownRoot env.pool.tree proof.root = .ok true
  unspent : ensureNullifiersUnspent env.pool proof.inputNullifiers = .ok ()
  extHash : hashExtData ext extData = proof.extDataHash
  publicAmount : calculatePublicAmount extData.extAmount = .ok proof.publicAmount
  memberRoot : getAspMembershipRoot ext env = .ok (proof.aspMembershipRoot, t.asked)
  accepted : verifyProof ext proof t.asked = .ok (true, t.verified)
  outputsUnused : ensureOutputsUnused insertOutputs proof t.verified.pool = .ok ()
  spend : spendNullifiersOnce t.verified.pool proof.inputNullifiers = .ok t.spent
  token : t.spent.token = some t.token
  payout : calculatePayout extData t.spent = .ok t.payout
  insert : insertOutputNotes insertOutputs proof t.spent = .ok (t.inserted, t.stored)
  pay : payOut ext t.token extData.recipient t.payout
    { t.verified with
      pool := t.stored
      events := t.verified.events ++ proof.inputNullifiers.map .newNullifier } = .ok t.paid
  amount : -(2 ^ 127) ≤ extData.extAmount ∧ extData.extAmount < 2 ^ 127
  final : env' = { t.paid with
    events := t.paid.events ++ settlementEvents ext.currentContractAddress t.token proof extData
      extData.extAmount (t.payout.map fun _ => extData.recipient) t.inserted }

@[simp] theorem toI128_eq_some {v w : Int} :
    toI128 v = some w ↔ (-(2 ^ 127) ≤ v ∧ v < 2 ^ 127) ∧ v = w := by
  simp [toI128]

theorem settle_ok {ext : Externals ρ} {proof : Proof} {extData : ExtData} {insertOutputs : Bool}
    {env env' : Env ρ} (h : settle ext proof extData insertOutputs env = .ok env') :
    ∃ t, Settles ext proof extData insertOutputs env t env' := by
  simp only [settle, bind_eq_ok, liftMerkle_eq_ok, ensure_eq_ok, read_eq_ok, okOr_eq_ok,
    Prod.exists, Except.ok.injEq, toI128_eq_some] at h
  obtain ⟨_, hfe, _, hknown, _, rfl, _, huns, _, hhash, _, hamt, _, rfl, _, asked, hroot, _, rfl,
    _, verified, hver, _, rfl, _, hout, spent, hspend, token, htoken, payout, hpay, inserted,
    stored, hins, paid, hpaid, _, ⟨hb, rfl⟩, rfl⟩ := h
  exact ⟨⟨asked, verified, spent, token, payout, inserted, stored, paid⟩,
    ensureProofFieldElements_ok hfe, hknown, huns, hhash, hamt, hroot, hver, hout, hspend, htoken,
    hpay, hins, hpaid, hb, rfl⟩

theorem transact_ok {ext : Externals ρ} {auth : Address → Bool} {proof : Proof}
    {extData : ExtData} {sender : Address} {env env' : Env ρ}
    (h : transact ext auth proof extData sender env = .ok env') :
    auth sender = true ∧ ∃ token env1, env.pool.token = some token ∧
      takeDeposit ext token extData sender env = .ok env1 ∧
      ∃ t, Settles ext proof extData true env1 t env' := by
  simp only [transact, bind_eq_ok, requireAuth_eq_ok, read_eq_ok] at h
  obtain ⟨-, hauth, token, htoken, env1, hdep, hset⟩ := h
  exact ⟨hauth, token, env1, htoken, hdep, settle_ok hset⟩

theorem exit_ok {ext : Externals ρ} {auth : Address → Bool} {proof : Proof}
    {extData : ExtData} {sender : Address} {env env' : Env ρ}
    (h : exit ext auth proof extData sender env = .ok env') :
    auth sender = true ∧ MerkleTreeWithHistory.isFull env.pool.tree = .ok true ∧
      extData.extAmount < 0 ∧ ∃ t, Settles ext proof extData false env t env' := by
  simp only [exit, bind_eq_ok, requireAuth_eq_ok, liftMerkle_eq_ok, ensure_eq_ok] at h
  obtain ⟨-, hauth, _, hfull, -, rfl, -, hneg, hset⟩ := h
  exact ⟨hauth, hfull, Int.not_le.mp hneg, settle_ok hset⟩

/-! ## 3. Callees -/

/-- Every call that leaves the contract relates the environment before it to the one after. -/
structure Respects (ext : Externals ρ) (R : Env ρ → Env ρ → Prop) : Prop where
  transferIn : ∀ {token sender receiver : Address} {amount : Int} {env env' : Env ρ},
    ext.transferIn token sender receiver amount env = some env' → R env env'
  getRoot : ∀ {asp : Address} {root : Nat} {env env' : Env ρ},
    ext.getRoot asp env = some (root, env') → R env env'
  verify : ∀ {verifier : Address} {π : Groth16Proof} {xs : List F} {b : Bool} {env env' : Env ρ},
    ext.verify verifier π xs env = some (b, env') → R env env'
  transferOut : ∀ {token sender receiver : Address} {amount : Int} {env env' : Env ρ},
    ext.transferOut token sender receiver amount env = some env' → R env env'
  transferFee : ∀ {token sender receiver : Address} {amount : Int} {env env' : Env ρ},
    ext.transferFee token sender receiver amount env = some env' → R env env'

section Callees

variable {ext : Externals ρ} {R : Env ρ → Env ρ → Prop} {env env' : Env ρ} {proof : Proof}
  {extData : ExtData}

theorem Respects.getAspMembershipRoot (h : Respects ext R) {root : Nat}
    (hok : getAspMembershipRoot ext env = .ok (root, env')) : R env env' := by
  simp only [Pool.getAspMembershipRoot, bind_eq_ok, read_eq_ok, okOr_eq_ok] at hok
  obtain ⟨_, -, hok⟩ := hok
  exact h.getRoot hok

theorem Respects.verifyProof (h : Respects ext R) {b : Bool}
    (hok : verifyProof ext proof env = .ok (b, env')) : R env env' := by
  simp only [Pool.verifyProof, bind_eq_ok, read_eq_ok, okOr_eq_ok, ensure_eq_ok] at hok
  obtain ⟨-, -, _, -, hok⟩ := hok
  exact h.verify hok

theorem Respects.takeDeposit (h : Respects ext R) (hrefl : ∀ e, R e e) {token sender : Address}
    (hok : takeDeposit ext token extData sender env = .ok env') : R env env' := by
  unfold Pool.takeDeposit at hok
  split at hok
  · simp only [bind_eq_ok, read_eq_ok, okOr_eq_ok, ensure_eq_ok] at hok
    obtain ⟨_, -, -, -, _, -, hok⟩ := hok
    exact h.transferIn hok
  · cases hok
    exact hrefl env

theorem Respects.payOut (h : Respects ext R) (hrefl : ∀ e, R e e)
    (htrans : ∀ {a b c}, R a b → R b c → R a c) {token recipient : Address}
    {payout : Option (Int × Int)} (hok : payOut ext token recipient payout env = .ok env') :
    R env env' := by
  match payout, hok with
  | none, hok =>
    cases hok
    exact hrefl env
  | some (amount, fee), hok =>
    obtain ⟨env1, h1, h2⟩ := bind_eq_ok.mp hok
    have hout : R env env1 := by
      unfold payRecipient at h1
      split at h1
      · exact h.transferOut (okOr_eq_ok.mp h1)
      · cases h1
        exact hrefl env
    refine htrans hout ?_
    unfold payFee at h2
    split at h2
    · obtain ⟨_, -, h2⟩ := bind_eq_ok.mp h2
      exact h.transferFee (okOr_eq_ok.mp h2)
    · cases h2
      exact hrefl _

end Callees

end Pool

end Veil
