/-
# What an accepted proof says

The pool hands the verifier a flat vector (`verifierPublicInputs`), the circuit has named signals
(`PublicSignals`).  This file joins the two.  The pool never checks how many nullifiers a proof
carries, but the vector's length does: the circuit has nine public signals, so a satisfied
vector has exactly two nullifiers, and every slot is the one the circuit means.

* `SoundVerifier`: a verifier that accepts a vector only if a witness satisfies the circuit.
* `Statement`: what the witness then says about the pool's own numbers.
* `Settles.statement`: an accepted call of the pool has such a witness.
-/
import Veil.Circuit.PolicyTransaction
import Veil.Contract.PoolHistory

namespace Veil

namespace Circuit

/-- **A sound verifier**, with the witness it would accept a vector for. -/
structure SoundVerifier (lib : Circomlib) (L : Nat) where
  verify : Groth16Proof → List F → Option Bool
  extract : Groth16Proof → List F → Witness
  sound : ∀ π xs, verify π xs = some true → Satisfies lib L xs (extract π xs)

/-- The path of an input leads to the proof's root, unless the input is worth nothing. -/
structure InputPath (L root : Nat) (i : InputSignals) : Prop where
  length : i.inPathElements.length = L
  index : i.inPathIndices.val < 2 ^ L
  leads : i.inAmount ≠ 0 →
    (root : F) = Merkle.foldPath compress i.inPathElements i.inPathIndices.val i.commitment

/-- The membership path of an input leads from the leaf of its own key to the allowlist's root. -/
structure MemberPath (L aspRoot : Nat) (i : InputSignals) (m : MembershipProof) : Prop where
  leaf : m.leaf = membershipLeaf i.publicKey m.blinding
  length : m.pathElements.length = L
  index : m.pathIndices.val < 2 ^ L
  leads : (aspRoot : F) = Merkle.foldPath compress m.pathElements m.pathIndices.val m.leaf

/-- **The statement a witness proves about a proof's public numbers.** -/
structure Statement (L : Nat) (proof : Proof) (w : Witness) : Prop where
  two_ins : w.ins.length = 2
  nullifiers : proof.inputNullifiers = w.ins.map (·.nullifier.val)
  distinct : proof.inputNullifiers.Nodup
  commitments : [proof.outputCommitment0, proof.outputCommitment1] = w.outs.map (·.commitment.val)
  paths : ∀ i ∈ w.ins, InputPath L proof.root i
  members : ∀ i ∈ w.ins, ∃ m, i.membershipProofs = [m] ∧ MemberPath L proof.aspMembershipRoot i m
  ranges : ∀ o ∈ w.outs, o.outAmount.val < 2 ^ 248
  balance : (w.ins.map (·.inAmount)).sum + (proof.publicAmount : F) =
    (w.outs.map (·.outAmount)).sum

variable {lib : Circomlib} {L : Nat}

theorem InputChecked.inputPath (hL : L ≤ 253) {root : Nat} {pub : F × List F} {i : InputSignals}
    (h : InputChecked lib L root pub i) : InputPath L root i := by
  obtain ⟨treeRoot, hproof, hforce⟩ := h.tree
  obtain ⟨hlen, hidx, hroot⟩ := merkleProof_sound hL hproof
  refine ⟨hlen, hidx, fun hne => ?_⟩
  rw [← hroot]
  exact (lib.forceEqualIfEnabled_iff _ _ _).mp hforce hne

theorem InputChecked.memberPath (hL : L ≤ 253) {root n : F} {aspRoot : Nat} {i : InputSignals}
    (h : InputChecked lib L root (n, [(aspRoot : F)]) i) :
    ∃ m, i.membershipProofs = [m] ∧ MemberPath L aspRoot i m := by
  obtain ⟨m, rest, ⟨hleaf, hproof⟩, hrest, hm⟩ := List.forall₂_cons_left_iff.mp h.membership
  obtain rfl := List.forall₂_nil_left_iff.mp hrest
  obtain ⟨hlen, hidx, hroot⟩ := merkleProof_sound hL hproof
  exact ⟨m, hm, hleaf, hlen, hidx, hroot⟩

theorem OutputChecked.outAmount_lt {c : F} {o : OutputSignals} (h : OutputChecked lib c o) :
    o.outAmount.val < 2 ^ 248 := by
  obtain ⟨bits, hbits⟩ := h.amountCheck
  exact (num2Bits_val (by omega) hbits).2

/-- The public vector of a satisfied proof has nine entries, and they are these. -/
theorem satisfies_slots {proof : Proof} {w : Witness}
    (h : Satisfies lib L (Pool.verifierPublicInputs proof) w) :
    ∃ n0 n1, proof.inputNullifiers = [n0, n1] ∧ PolicyTransaction lib 2 2 1 L
      { root := proof.root
        publicAmount := proof.publicAmount
        extDataHash := proof.extDataHash
        inputNullifier := [(n0 : F), (n1 : F)]
        outputCommitment := [(proof.outputCommitment0 : F), (proof.outputCommitment1 : F)]
        membershipRoots := [[(proof.aspMembershipRoot : F)], [(proof.aspMembershipRoot : F)]] }
      w := by
  obtain ⟨⟨root, amount, hash, nulls, outs, roots⟩, hvec, hsat⟩ := h
  obtain ⟨a, b, rfl⟩ := List.length_eq_two.mp hsat.inputNullifier_length
  obtain ⟨c, d, rfl⟩ := List.length_eq_two.mp hsat.outputCommitment_length
  obtain ⟨r, s, rfl⟩ := List.length_eq_two.mp hsat.membershipRoots_length
  obtain ⟨x, rfl⟩ := List.length_eq_one_iff.mp (hsat.membershipRoots_row r (by simp))
  obtain ⟨y, rfl⟩ := List.length_eq_one_iff.mp (hsat.membershipRoots_row s (by simp))
  have hlen : proof.inputNullifiers.length = 2 := by
    have := congrArg List.length hvec
    simp [PublicSignals.toVector, Pool.verifierPublicInputs] at this
    omega
  obtain ⟨n0, n1, hns⟩ := List.length_eq_two.mp hlen
  refine ⟨n0, n1, hns, ?_⟩
  simp only [PublicSignals.toVector, Pool.verifierPublicInputs, hns, List.map_cons, List.map_nil,
    List.flatten_cons, List.flatten_nil, List.cons_append, List.nil_append, List.append_nil,
    List.cons.injEq, and_true] at hvec
  obtain ⟨rfl, rfl, rfl, rfl, rfl, rfl, rfl, rfl, rfl⟩ := hvec
  exact hsat

theorem val_natCast_eq {n : Nat} {x : F} (hn : n < bn256Modulus) (h : x = (n : F)) :
    n = x.val := by
  rw [h, ZMod.val_natCast_of_lt hn]

/-- **From the circuit to the pool's numbers.** -/
theorem Satisfies.statement {proof : Proof} {w : Witness} (hL : L ≤ 253)
    (hf : Pool.FieldElements proof) (h : Satisfies lib L (Pool.verifierPublicInputs proof) w) :
    Statement L proof w := by
  obtain ⟨n0, n1, hns, hsat⟩ := satisfies_slots h
  obtain ⟨i0, ins1, h0, hins1, hins⟩ := List.forall₂_cons_left_iff.mp hsat.inputs
  obtain ⟨i1, ins2, h1, hins2, rfl⟩ := List.forall₂_cons_left_iff.mp hins1
  obtain rfl := List.forall₂_nil_left_iff.mp hins2
  obtain ⟨o0, outs1, g0, houts1, houts⟩ := List.forall₂_cons_left_iff.mp hsat.outputs
  obtain ⟨o1, outs2, g1, houts2, rfl⟩ := List.forall₂_cons_left_iff.mp houts1
  obtain rfl := List.forall₂_nil_left_iff.mp houts2
  have hn : ∀ n ∈ [n0, n1], n < bn256Modulus := hns ▸ hf.inputNullifiers
  have hne : n0 ≠ n1 := by
    intro he
    have hpair := List.rel_of_pairwise_cons hsat.sameNullifiers List.mem_cons_self
    rw [lib.isEqual_iff, if_pos (congrArg Nat.cast he)] at hpair
    exact zero_ne_one hpair
  have e0 := val_natCast_eq (hn n0 (by simp)) h0.nullifier
  have e1 := val_natCast_eq (hn n1 (by simp)) h1.nullifier
  have c0 := val_natCast_eq hf.outputCommitment0 g0.commitment
  have c1 := val_natCast_eq hf.outputCommitment1 g1.commitment
  refine ⟨by simp [hins], ?_, by simpa [hns] using hne, ?_, ?_, ?_, ?_, hsat.balance⟩
  · rw [hns, hins]
    simp only [List.map_cons, List.map_nil, ← e0, ← e1]
  · rw [houts]
    simp only [List.map_cons, List.map_nil, ← c0, ← c1]
  · rw [hins]
    simpa using ⟨h0.inputPath hL, h1.inputPath hL⟩
  · rw [hins]
    simpa using ⟨h0.memberPath hL, h1.memberPath hL⟩
  · rw [houts]
    simpa using ⟨g0.outAmount_lt, g1.outAmount_lt⟩

/-- **And back.**  A witness for which the statement holds satisfies the circuit. -/
theorem Statement.satisfies {proof : Proof} {w : Witness} (h : Statement L proof w) :
    Satisfies lib L (Pool.verifierPublicInputs proof) w := by
  obtain ⟨i0, i1, hins⟩ := List.length_eq_two.mp h.two_ins
  have houts : w.outs.length = 2 := by simpa using (congrArg List.length h.commitments).symm
  obtain ⟨o0, o1, houts⟩ := List.length_eq_two.mp houts
  have hns : proof.inputNullifiers = [i0.nullifier.val, i1.nullifier.val] := by
    rw [h.nullifiers, hins]; rfl
  have hcs := h.commitments
  simp only [houts, List.map_cons, List.map_nil, List.cons.injEq, and_true] at hcs
  refine ⟨{ root := proof.root
            publicAmount := proof.publicAmount
            extDataHash := proof.extDataHash
            inputNullifier := [i0.nullifier, i1.nullifier]
            outputCommitment := [o0.commitment, o1.commitment]
            membershipRoots := [[(proof.aspMembershipRoot : F)], [(proof.aspMembershipRoot : F)]] },
    ?_, rfl, rfl, rfl, by simp, ?_, ?_, ?_, h.balance⟩
  · simp [PublicSignals.toVector, Pool.verifierPublicInputs, hns, hcs]
  · have hin : ∀ i ∈ w.ins, InputChecked lib L proof.root
        (i.nullifier, [(proof.aspMembershipRoot : F)]) i := by
      intro i hi
      obtain ⟨m, hm, hpath⟩ := h.members i hi
      refine ⟨rfl, ⟨_, merkleProof_complete (h.paths i hi).length (h.paths i hi).index,
        (lib.forceEqualIfEnabled_iff _ _ _).mpr (h.paths i hi).leads⟩, ?_⟩
      rw [hm]
      refine .cons ⟨hpath.leaf, ?_⟩ .nil
      rw [hpath.leads]
      exact merkleProof_complete hpath.length hpath.index
    rw [hins] at hin ⊢
    exact .cons (hin i0 (by simp)) (.cons (hin i1 (by simp)) .nil)
  · rw [houts]
    refine .cons ⟨rfl, _, num2Bits_complete (h.ranges o0 (by simp [houts]))⟩
      (.cons ⟨rfl, _, num2Bits_complete (h.ranges o1 (by simp [houts]))⟩ .nil)
  · have hne := h.distinct
    rw [hns] at hne
    have hne' : i0.nullifier ≠ i1.nullifier := fun he => by simp [he] at hne
    simpa [lib.isEqual_iff] using hne'

end Circuit

namespace Pool

open Circuit

variable {ρ : Type} {lib : Circomlib} {L : Nat} {ext : Externals ρ} {proof : Proof}
  {extData : ExtData} {insertOutputs : Bool} {env env' : Env ρ} {t : SettleTrace ρ}

/-- The verifier the pool calls answers as `v` does. -/
def Consults (ext : Externals ρ) (verifier : Address) (v : SoundVerifier lib L) : Prop :=
  ∀ {π xs b} {env env' : Env ρ}, ext.verify verifier π xs env = some (b, env') →
    v.verify π xs = some b

/-- **An accepted call has a witness.** -/
theorem Settles.statement (h : Settles ext proof extData insertOutputs env t env')
    {verifier : Address} (hver : t.asked.pool.verifier = some verifier) {v : SoundVerifier lib L}
    (hc : Consults ext verifier v) (hL : L ≤ 253) :
    Satisfies lib L (verifierPublicInputs proof)
        (v.extract proof.proof (verifierPublicInputs proof)) ∧
      Statement L proof (v.extract proof.proof (verifierPublicInputs proof)) := by
  have hacc := h.accepted
  simp only [verifyProof, Tx.bind_eq_ok, read_eq_ok, Tx.okOr_eq_ok, Tx.ensure_eq_ok] at hacc
  obtain ⟨-, -, verifier', hver', hacc⟩ := hacc
  obtain rfl : verifier = verifier' := Option.some.inj (hver.symm.trans hver')
  have hsat := v.sound _ _ (hc hacc)
  exact ⟨hsat, hsat.statement hL h.fieldElements⟩

/-! ### A first deposit

One key, two inputs worth nothing, and an output worth 5, against the empty tree of depth 1. -/

/-- The leaf of the key 1, alone on its allowlist. -/
def depositMember : MembershipProof :=
  ⟨membershipLeaf (keypair 1) (4 : Nat), (4 : Nat), [emptyLeaf], 0⟩

def depositInput (blinding : Nat) : InputSignals := ⟨0, 1, blinding, 0, [0], [depositMember]⟩

def depositWitness : Witness where
  ins := [depositInput 2, depositInput 3]
  outs := [⟨(5 : Nat), keypair 1, (6 : Nat)⟩, ⟨0, keypair 1, (7 : Nat)⟩]

def depositProof : Proof where
  proof := ⟨.replicate 64 0, .replicate 128 0, .replicate 64 0⟩
  root := getZeroes.getD 1 0
  inputNullifiers := [(depositInput 2).nullifier.val, (depositInput 3).nullifier.val]
  outputCommitment0 := (noteCommitment (5 : Nat) (keypair 1) (6 : Nat)).val
  outputCommitment1 := (noteCommitment 0 (keypair 1) (7 : Nat)).val
  publicAmount := 5
  extDataHash := 0
  aspMembershipRoot := (compress depositMember.leaf emptyLeaf).val

theorem deposit_nullifiers_ne :
    (depositInput 2).nullifier.val ≠ (depositInput 3).nullifier.val := by
  decide +kernel

theorem deposit_statement : Statement 1 depositProof depositWitness where
  two_ins := rfl
  nullifiers := rfl
  distinct := by simpa [depositProof] using deposit_nullifiers_ne
  commitments := rfl
  paths i hi := by
    have hzero : i.inAmount = 0 ∧ i.inPathElements = [0] ∧ i.inPathIndices = 0 := by
      rcases List.mem_pair.mp hi with rfl | rfl <;> exact ⟨rfl, rfl, rfl⟩
    obtain ⟨ha, hp, hx⟩ := hzero
    exact ⟨by rw [hp]; rfl, by rw [hx, ZMod.val_zero]; decide, fun hne => absurd ha hne⟩
  members i hi := by
    have hone : i.publicKey = keypair 1 ∧ i.membershipProofs = [depositMember] := by
      rcases List.mem_pair.mp hi with rfl | rfl <;> exact ⟨rfl, rfl⟩
    refine ⟨depositMember, hone.2, by rw [hone.1]; rfl, rfl, ?_, ?_⟩
    · rw [depositMember, ZMod.val_zero]
      decide
    · simp [depositProof, depositMember, Merkle.foldPath]
  ranges o ho := by
    rcases List.mem_pair.mp ho with rfl | rfl <;> decide +kernel
  balance := by decide +kernel

/-- A verifier that knows this one proof. -/
def depositVerifier : SoundVerifier Circomlib.standard 1 where
  verify _ xs := some (decide (xs = verifierPublicInputs depositProof))
  extract _ _ := depositWitness
  sound _ xs h := by
    obtain rfl : xs = verifierPublicInputs depositProof := by simpa using h
    exact deposit_statement.satisfies

def depositRequest : Request where
  isExit := false
  auth := fun _ => true
  proof := depositProof
  extData := ⟨.account 7, 5, [], []⟩
  sender := .account 7

end Pool

end Veil
