/-
# Only enrolled keys spend

Three programs meet here.  The allowlist keeps a tree of membership leaves and shows its root; the
pool compares the proof's membership root with that root and passes it to the verifier once for
each input; the circuit demands, for each input, a path from the leaf of the input's own key to
that root.

A history interleaves calls of the allowlist with `transact` and `exit` of a pool that points at
it.  While the allowlist maintains its tree itself, a path to its root can only start at one of the
inserted leaves (`enrolled_of_memberPath`), because the hash has no collision among the pairs of
the tree and of the paths.  Afterwards only the published root counts, and the pool turns down
everything else.
-/
import Veil.Circuit.Statement
import Veil.Contract.Allowlist

namespace Veil

open Tx Circuit

namespace Enrolment

/-! ## 1. The allowlist and the pool together -/

/-- A call of either contract.  The token answers a pool call's transfers as it likes. -/
inductive Call where
  | allowlist (i : ASPMembership.Invocation)
  | pool (r : Pool.Request) (transferIn transferOut transferFee : Bool)

/-- A call that fails, fails in one of the two contracts. -/
abbrev WorldFault := Fault AspError ⊕ Fault ContractError

section World

variable {lib : Circomlib} {L : Nat} (this asp : Address) (digest : ExtData → Nat)
  (v : SoundVerifier lib L)

/-- The callees of the pool: `get_root` is the allowlist's own. -/
def externals (transferIn transferOut transferFee : Bool) : Externals AspState where
  currentContractAddress := this
  keccak256Xdr := digest
  transferIn _ _ _ _ env := if transferIn then some env else none
  getRoot a env :=
    if a = asp then (ASPMembership.getRoot env.rest).toOption.map fun root => (root, env) else none
  verify _ π xs env := (v.verify π xs).map fun b => (b, env)
  transferOut _ _ _ _ env := if transferOut then some env else none
  transferFee _ _ _ _ env := if transferFee then some env else none

def exec (c : Call) (env : Env AspState) : Except WorldFault (Env AspState) :=
  match c with
  | .allowlist i =>
    match ASPMembership.exec i env.rest with
    | .ok s => .ok { env with rest := s }
    | .error e => .error (.inl e)
  | .pool r transferIn transferOut transferFee =>
    match r.enter (externals this asp digest v transferIn transferOut transferFee) env with
    | .ok env' => .ok env'
    | .error e => .error (.inr e)

end World

/-- The calls of the allowlist in a log. -/
def allowlistLog (log : List Call) : List ASPMembership.Invocation :=
  log.filterMap fun
    | .allowlist i => some i
    | .pool _ _ _ _ => none

variable {lib : Circomlib} {L : Nat} {this asp : Address} {digest : ExtData → Nat}
  {v : SoundVerifier lib L} {env env' : Env AspState} {i : ASPMembership.Invocation}
  {r : Pool.Request} {tIn tOut tFee : Bool}

theorem exec_allowlist_ok (h : exec this asp digest v (.allowlist i) env = .ok env') :
    ASPMembership.exec i env.rest = .ok env'.rest ∧ env'.pool = env.pool := by
  simp only [exec] at h
  split at h
  · next s hs =>
    cases h
    exact ⟨hs, rfl⟩
  · cases h

theorem exec_pool_ok (h : exec this asp digest v (.pool r tIn tOut tFee) env = .ok env') :
    r.enter (externals this asp digest v tIn tOut tFee) env = .ok env' := by
  simp only [exec] at h
  split at h
  · next e he =>
    cases h
    exact he
  · cases h

/-- The callees answer and change nothing. -/
theorem respects_externals_eq :
    Pool.Respects (externals this asp digest v tIn tOut tFee) fun e e' => e' = e where
  transferIn h := by
    simp only [externals, Option.ite_none_right_eq_some, Option.some.injEq] at h
    exact h.2.symm
  getRoot h := by
    simp only [externals, Option.ite_none_right_eq_some, Option.map_eq_some_iff,
      Prod.mk.injEq] at h
    obtain ⟨-, _, -, -, h⟩ := h
    exact h.symm
  verify h := by
    simp only [externals, Option.map_eq_some_iff, Prod.mk.injEq] at h
    obtain ⟨_, -, -, h⟩ := h
    exact h.symm
  transferOut h := by
    simp only [externals, Option.ite_none_right_eq_some, Option.some.injEq] at h
    exact h.2.symm
  transferFee h := by
    simp only [externals, Option.ite_none_right_eq_some, Option.some.injEq] at h
    exact h.2.symm

theorem consults_externals (verifier : Address) :
    Pool.Consults (externals this asp digest v tIn tOut tFee) verifier v := by
  intro π xs b e e' h
  simp only [externals, Option.map_eq_some_iff, Prod.mk.injEq] at h
  obtain ⟨_, hb, rfl, -⟩ := h
  exact hb

/-- **An accepted pool call.**  It leaves the allowlist and the pool's configuration alone, its
membership root is the allowlist's, and it has a witness. -/
theorem pool_ok (hasp : env.pool.aspMembership = some asp) (hL : L ≤ 253)
    (h : exec this asp digest v (.pool r tIn tOut tFee) env = .ok env') :
    env'.rest = env.rest ∧ env'.pool.aspMembership = env.pool.aspMembership ∧
      env.rest.root = some r.proof.aspMembershipRoot ∧
      Satisfies lib L (Pool.verifierPublicInputs r.proof)
        (v.extract r.proof.proof (Pool.verifierPublicInputs r.proof)) ∧
      Statement L r.proof (v.extract r.proof.proof (Pool.verifierPublicInputs r.proof)) := by
  have hq : Pool.Respects (externals this asp digest v tIn tOut tFee) fun e e' => e' = e :=
    respects_externals_eq
  obtain ⟨env1, t, hdep, ht, -⟩ := r.enter_respects hq (fun _ => rfl) (exec_pool_ok h)
  rw [hdep] at ht
  have hasked := hq.getAspMembershipRoot ht.memberRoot
  have hverified := hq.verifyProof ht.accepted
  have hpaid := hq.payOut (fun _ => rfl) (fun h1 h2 => h2.trans h1) ht.pay
  have hconfig := ht.config (hq.mono fun h => h ▸ Pool.SamePool.refl _)
  have hroot := ht.memberRoot
  simp only [Pool.getAspMembershipRoot, bind_eq_ok, Pool.read_eq_ok, okOr_eq_ok] at hroot
  obtain ⟨asp', hasp', hroot⟩ := hroot
  obtain rfl : asp = asp' := Option.some.inj (hasp.symm.trans hasp')
  have hlive : env.rest.root = some r.proof.aspMembershipRoot := by
    simp only [externals, if_true, Option.map_eq_some_iff, Prod.mk.injEq] at hroot
    obtain ⟨root, hroot, rfl, -⟩ := hroot
    rw [ASPMembership.getRoot] at hroot
    cases hr : env.rest.root with
    | none => simp [hr, Except.toOption] at hroot
    | some x => simpa [hr, Except.toOption] using hroot
  obtain ⟨verifier, hver⟩ : ∃ verifier, t.asked.pool.verifier = some verifier := by
    have hacc := ht.accepted
    simp only [Pool.verifyProof, bind_eq_ok, Pool.read_eq_ok] at hacc
    obtain ⟨-, -, verifier, hver, -⟩ := hacc
    exact ⟨verifier, hver⟩
  refine ⟨?_, by rw [hconfig], hlive, ht.statement hver (consults_externals verifier) hL⟩
  rw [ht.final, hpaid, hverified, hasked]

/-! ## 2. Histories -/

/-- The allowlist is in the phase its own log says, and the pool points at it. -/
structure Linked (L : Nat) (asp : Address) (log : List Call) (env : Env AspState) : Prop where
  phases : ASPMembership.Phases L (allowlistLog log) env.rest
  points : env.pool.aspMembership = some asp

theorem Linked.step {log : List Call} {c : Call} (h : Linked L asp log env) (hL : L ≤ 253)
    (hok : exec this asp digest v c env = .ok env') : Linked L asp (log ++ [c]) env' := by
  cases c with
  | allowlist i =>
    obtain ⟨hi, hpool⟩ := exec_allowlist_ok hok
    refine ⟨?_, by rw [hpool]; exact h.points⟩
    simpa [allowlistLog] using h.phases.step hi
  | pool r tIn tOut tFee =>
    obtain ⟨hrest, hpoints, -⟩ := pool_ok h.points hL hok
    refine ⟨?_, hpoints.trans h.points⟩
    simpa [allowlistLog, hrest] using h.phases

/-- **Every interleaving.** -/
theorem linked_run (hL : L ≤ 253) {log : List Call} (h : Linked L asp log env)
    (calls : List Call) :
    Linked L asp (log ++ accepted (exec this asp digest v) calls env)
      (run (exec this asp digest v) calls env) :=
  accepted_induction (fun _ _ _ _ hP hok => hP.step hL hok) calls log env h

/-! ## 3. A path to the allowlist's root starts at an inserted leaf -/

/-- The pairs hashed in the complete tree over `leaves`. -/
def allowlistPairs (L : Nat) (leaves : List Nat) : Set (F × F) :=
  Merkle.treePairs compress (Merkle.padded emptyLeaf (leaves.map (Nat.cast : Nat → F))) L (2 ^ L)

/-- The pairs hashed along the membership paths of a witness. -/
def membershipPairs (w : Witness) : Set (F × F) :=
  {p | ∃ i ∈ w.ins, ∃ m ∈ i.membershipProofs,
    p ∈ Merkle.pathPairs compress m.pathElements m.pathIndices.val m.leaf}

theorem enrolled_of_memberPath {leaves : List Nat} (hf : ∀ x ∈ leaves, x < bn256Modulus)
    {S : Set (F × F)} (hS : Merkle.NoCollision compress S) (htree : allowlistPairs L leaves ⊆ S)
    {i : InputSignals} {m : MembershipProof} (hm : MemberPath L (treeRoot L leaves) i m)
    (hpath : ∀ p ∈ Merkle.pathPairs compress m.pathElements m.pathIndices.val m.leaf, p ∈ S)
    (hne : m.leaf ≠ emptyLeaf) : m.leaf.val ∈ leaves := by
  have hroot : Merkle.foldPath compress m.pathElements m.pathIndices.val m.leaf =
      fieldRoot L (leaves.map (Nat.cast : Nat → F)) := by
    rw [← hm.leads, treeRoot_eq_val hf, ZMod.natCast_zmod_val]
  have hget := Merkle.getElem?_of_foldPath hS htree hm.length hm.index hpath hroot hne
  rw [List.getElem?_map, Option.map_eq_some_iff] at hget
  obtain ⟨x, hx, hleaf⟩ := hget
  have hmem := List.mem_of_getElem? hx
  rw [← hleaf, ZMod.val_natCast_of_lt (hf x hmem)]
  exact hmem

/-! ## 4. The theorem -/

/-- A call that changes the allowlist's leaves or its root. -/
def ChangesAllowlist : Call → Prop
  | .allowlist i => i.call.inserted?.isSome = true ∨ i.call.published?.isSome = true
  | .pool _ _ _ _ => False

/-- A call that is accepted and does not change the allowlist leaves its root alone. -/
theorem root_of_unchanged {c : Call} (hc : ¬ChangesAllowlist c) (hL : L ≤ 253)
    (hpoints : env.pool.aspMembership = some asp)
    (hok : exec this asp digest v c env = .ok env') :
    env'.rest.root = env.rest.root ∧ env'.pool.aspMembership = some asp := by
  cases c with
  | pool r tIn tOut tFee =>
    obtain ⟨hrest, hp, -⟩ := pool_ok hpoints hL hok
    exact ⟨by rw [hrest], hp.trans hpoints⟩
  | allowlist i =>
    obtain ⟨hi, hpool⟩ := exec_allowlist_ok hok
    refine ⟨?_, by rw [hpool]; exact hpoints⟩
    obtain ⟨call, auth⟩ := i
    cases call with
    | insertLeaf leaf => exact absurd (.inl rfl) hc
    | revokeLeaf leaf newRoot => exact absurd (.inr rfl) hc
    | publishLeaf leaf index newRoot => exact absurd (.inr rfl) hc
    | setAdminInsertOnly adminOnly => rw [ASPMembership.setAdminInsertOnly_ok hi]
    | updateAdmin newAdmin => rw [ASPMembership.updateAdmin_ok hi]

/-- Until the next accepted change the root stays. -/
theorem root_until_change (hL : L ≤ 253) {root : Option Nat} (hroot : env.rest.root = root)
    (hpoints : env.pool.aspMembership = some asp) (more : List Call)
    (hquiet : ∀ c ∈ accepted (exec this asp digest v) more env, ¬ChangesAllowlist c) :
    (run (exec this asp digest v) more env).rest.root = root ∧
      (run (exec this asp digest v) more env).pool.aspMembership = some asp := by
  refine accepted_induction (P := fun log (e : Env AspState) =>
    (∀ c ∈ log, ¬ChangesAllowlist c) → e.rest.root = root ∧ e.pool.aspMembership = some asp)
    (fun log e c e' hP hok hall => ?_) more [] env (fun _ => ⟨hroot, hpoints⟩)
    (by simpa using hquiet)
  obtain ⟨hr, hp⟩ := hP fun d hd => hall d (List.mem_append_left _ hd)
  obtain ⟨hr', hp'⟩ := root_of_unchanged (hall c (by simp)) hL hp hok
  exact ⟨hr'.trans hr, hp'⟩

/-- The root an accepted revocation or publication carries is the allowlist's from then on. -/
theorem root_of_published {s s' : AspState} (hok : ASPMembership.exec i s = .ok s') {newRoot : Nat}
    (hpub : i.call.published? = some newRoot) : s'.root = some newRoot := by
  obtain ⟨call, auth⟩ := i
  cases call with
  | revokeLeaf leaf root =>
    obtain ⟨-, -, rfl⟩ := ASPMembership.revokeLeaf_ok hok
    exact hpub
  | publishLeaf leaf index root =>
    obtain ⟨-, -, -, rfl⟩ := ASPMembership.publishLeaf_ok hok
    exact hpub
  | insertLeaf leaf => cases hpub
  | setAdminInsertOnly adminOnly => cases hpub
  | updateAdmin newAdmin => cases hpub

/-- **Only enrolled keys spend.**  Take an allowlist and a pool of the same depth that points at
it, both fresh, and any interleaving of their calls.

* As long as the allowlist has not been handed over, every accepted `transact` or `exit` has a
  witness with two inputs such that, for each of them, the leaf of the key that signed its
  nullifier is one the allowlist had inserted.  Assumed is that the hash has no collision among
  the pairs of the allowlist's tree and of the witness's membership paths, and that no
  membership leaf of the witness is the empty leaf.
* After an accepted revocation or publication of a root, every `transact` or `exit` with another
  membership root is refused, until the next accepted change of the allowlist. -/
theorem only_enrolled_keys_spend {lib : Circomlib} {L : Nat} (v : SoundVerifier lib L)
    (this asp : Address) (digest : ExtData → Nat)
    {admin token verifier feeRecipient aspAdmin : Address} {maximumDeposit feeBps : Nat}
    {s0 : PoolStorage} {a0 : AspState}
    (hpool : Pool.constructor admin token verifier asp maximumDeposit feeRecipient feeBps L =
      .ok s0)
    (hasp : ASPMembership.constructor aspAdmin L = .ok a0) (calls : List Call) :
    let exec := exec this asp digest v
    let env := run exec calls ⟨s0, [], a0⟩
    let log := allowlistLog (accepted exec calls ⟨s0, [], a0⟩)
    (∀ r tIn tOut tFee env', ¬ASPMembership.HandedOver log →
      exec (.pool r tIn tOut tFee) env = .ok env' →
      let w := v.extract r.proof.proof (Pool.verifierPublicInputs r.proof)
      let leaves := ASPMembership.insertedLeaves log
      Merkle.NoCollision compress (allowlistPairs L leaves ∪ membershipPairs w) →
      (∀ i ∈ w.ins, ∀ m ∈ i.membershipProofs,
        membershipLeaf (keypair i.inPrivateKey) m.blinding ≠ emptyLeaf) →
      Satisfies lib L (Pool.verifierPublicInputs r.proof) w ∧ w.ins.length = 2 ∧
        r.proof.inputNullifiers = w.ins.map (fun i => (noteNullifier i.commitment i.inPathIndices
          (signature i.inPrivateKey i.commitment i.inPathIndices)).val) ∧
        ∀ i ∈ w.ins, ∃ m ∈ i.membershipProofs,
          (membershipLeaf (keypair i.inPrivateKey) m.blinding).val ∈ leaves) ∧
    (∀ i env1 newRoot, exec (.allowlist i) env = .ok env1 → i.call.published? = some newRoot →
      ∀ more, (∀ c ∈ accepted exec more env1, ¬ChangesAllowlist c) →
      ∀ r tIn tOut tFee, r.proof.aspMembershipRoot ≠ newRoot →
        ∃ e, exec (.pool r tIn tOut tFee) (run exec more env1) = .error e) := by
  intro exec env log
  obtain ⟨-, h1, h2, -, -, -, -, hpoints, -⟩ := Pool.constructor_ok hpool
  have hL : L ≤ 253 := by omega
  have hlinked : Linked L asp (accepted exec calls ⟨s0, [], a0⟩) env := by
    have hfresh : Linked L asp [] ⟨s0, [], a0⟩ :=
      ⟨ASPMembership.phases_run h1 h2 hasp [], hpoints⟩
    exact linked_run hL hfresh calls
  constructor
  · intro r tIn tOut tFee env' hopen hok w leaves hS hne
    obtain ⟨-, -, hroot, hsat, hst⟩ := pool_ok hlinked.points hL hok
    obtain ⟨hmaint, -⟩ := hlinked.phases.before hopen
    have hlive : treeRoot L leaves = r.proof.aspMembershipRoot :=
      Option.some.inj (hmaint.root.symm.trans hroot)
    refine ⟨hsat, hst.two_ins, hst.nullifiers, fun i hi => ?_⟩
    obtain ⟨m, hm, hpath⟩ := hst.members i hi
    have hmem : m ∈ i.membershipProofs := by simp [hm]
    refine ⟨m, hmem, ?_⟩
    have hleaf : m.leaf = membershipLeaf (keypair i.inPrivateKey) m.blinding := hpath.leaf
    rw [← hleaf]
    exact enrolled_of_memberPath hmaint.field hS Set.subset_union_left (hlive ▸ hpath)
      (fun p hp => .inr ⟨i, hi, m, hmem, hp⟩) (hleaf ▸ hne i hi m hmem)
  · intro i env1 newRoot hi hpub more hquiet r tIn tOut tFee hother
    obtain ⟨hi, hsame⟩ := exec_allowlist_ok hi
    obtain ⟨hroot, hpoints⟩ := root_until_change hL (root_of_published hi hpub)
      (by rw [hsame]; exact hlinked.points) more hquiet
    cases hr : exec (.pool r tIn tOut tFee) (run exec more env1) with
    | error e => exact ⟨e, rfl⟩
    | ok env2 =>
      obtain ⟨-, -, hroot', -⟩ := pool_ok hpoints hL hr
      exact absurd (Option.some.inj (hroot'.symm.trans hroot)) hother

/-- The key 1 is enrolled and then deposits. -/
def depositHistory : List Call :=
  [.allowlist ⟨.insertLeaf Pool.depositMember.leaf.val, fun _ => true⟩]

theorem depositMembers : ∀ i ∈ Pool.depositWitness.ins, ∀ m ∈ i.membershipProofs,
    membershipLeaf (keypair i.inPrivateKey) m.blinding = Pool.depositMember.leaf := by
  intro i hi m hm
  rcases List.mem_pair.mp hi with rfl | rfl <;>
    · obtain rfl := List.mem_singleton.mp hm
      rfl

/-- The tree and the paths of this history hash one pair only. -/
theorem depositPairs : ∀ p ∈ allowlistPairs 1 [Pool.depositMember.leaf.val] ∪
    membershipPairs Pool.depositWitness, p = (Pool.depositMember.leaf, emptyLeaf) := by
  rintro p (⟨d, i, hd, hi, -, rfl⟩ | ⟨i, hi, m, hm, hp⟩)
  · obtain rfl : d = 0 := by omega
    obtain rfl : i = 0 := by simpa using hi
    simp [Merkle.padded]
  · have hone : m = Pool.depositMember := by
      rcases List.mem_pair.mp hi with rfl | rfl <;> exact List.mem_singleton.mp hm
    subst hone
    simpa [Merkle.pathPairs, Pool.depositMember] using hp

/-- Its deposit is accepted, and the theorem finds its leaf in the allowlist. -/
theorem only_enrolled_keys_spend_deposit : ∃ s0 a0,
    Pool.constructor (.account 1) (.contract 2) (.contract 3) (.contract 4) 1000 (.account 5) 30 1 =
      .ok s0 ∧
    ASPMembership.constructor (.account 1) 1 = .ok a0 ∧
    ∀ i ∈ Pool.depositWitness.ins, ∃ m ∈ i.membershipProofs,
      (membershipLeaf (keypair i.inPrivateKey) m.blinding).val ∈
        ASPMembership.insertedLeaves (allowlistLog (accepted
          (exec (.contract 6) (.contract 4) (fun _ => 0) Pool.depositVerifier) depositHistory
          ⟨s0, [], a0⟩)) := by
  obtain ⟨s0, a0, hpool, hasp, hlog, hopen, hok⟩ : ∃ s0 a0,
      Pool.constructor (.account 1) (.contract 2) (.contract 3) (.contract 4) 1000 (.account 5) 30
        1 = .ok s0 ∧
      ASPMembership.constructor (.account 1) 1 = .ok a0 ∧
      ASPMembership.insertedLeaves (allowlistLog (accepted (exec (.contract 6) (.contract 4)
        (fun _ => 0) Pool.depositVerifier) depositHistory ⟨s0, [], a0⟩)) =
          [Pool.depositMember.leaf.val] ∧
      ¬ASPMembership.HandedOver (allowlistLog (accepted (exec (.contract 6) (.contract 4)
        (fun _ => 0) Pool.depositVerifier) depositHistory ⟨s0, [], a0⟩)) ∧
      (exec (.contract 6) (.contract 4) (fun _ => 0) Pool.depositVerifier
        (.pool Pool.depositRequest true true true) (run (exec (.contract 6) (.contract 4)
          (fun _ => 0) Pool.depositVerifier) depositHistory ⟨s0, [], a0⟩)).isOk = true :=
    ⟨_, _, rfl, rfl, by decide +kernel, by decide +kernel, by decide +kernel⟩
  refine ⟨s0, a0, hpool, hasp, ?_⟩
  obtain ⟨hspend, -⟩ := only_enrolled_keys_spend Pool.depositVerifier (.contract 6) (.contract 4)
    (fun _ => 0) hpool hasp depositHistory
  cases hr : exec (.contract 6) (.contract 4) (fun _ => 0) Pool.depositVerifier
      (.pool Pool.depositRequest true true true) (run (exec (.contract 6) (.contract 4)
        (fun _ => 0) Pool.depositVerifier) depositHistory ⟨s0, [], a0⟩) with
  | error e =>
    rw [hr] at hok
    cases hok
  | ok env' =>
    refine (hspend Pool.depositRequest true true true env' hopen hr ?_ ?_).2.2.2
    · rw [hlog]
      intro p hp q hq _
      rw [depositPairs p hp, depositPairs q hq]
    · intro i hi m hm
      rw [depositMembers i hi m hm]
      decide +kernel

end Enrolment

end Veil
