/-
# The policy transaction circuit

`circuits/src`: `PolicyTransaction`, `MerkleProof`, `Keypair` and `Signature`.  A template is the
relation its constraints impose between its signals, with the intermediate signals existentially
quantified.  The Poseidon2 components force their outputs, so they appear as functions.

The circuits include four templates of circomlib, which is not part of the repository:
`Num2Bits`, `Switcher`, `ForceEqualIfEnabled` and `IsEqual`.  They are parameters (`Circomlib`),
with what each of them is documented to enforce.

The lemmas turn a satisfied template into arithmetic: `merkleProof_sound` (the path folds to the
root, and the path index is a number of `levels` bits) and `num2Bits_val` (a range check).  Section
4 is the converse: the honest prover's assignment satisfies the template.
-/
import Veil.Hash
import Veil.Merkle.Binding

namespace Veil

namespace Circuit

/-! ## 1. circomlib -/

/-- The field element a list of bits spells, least significant first. -/
def bitsField : List F → F
  | [] => 0
  | b :: bs => b + (2 : Nat) * bitsField bs

/-- The four templates of circomlib the circuits use, as the relations they impose. -/
structure Circomlib where
  num2Bits : (n : Nat) → (input : F) → (out : List F) → Prop
  switcher : (sel l r outL outR : F) → Prop
  forceEqualIfEnabled : (enabled in0 in1 : F) → Prop
  isEqual : (in0 in1 out : F) → Prop
  /-- `n` bits that spell the input. -/
  num2Bits_iff : ∀ n x out, num2Bits n x out ↔
    out.length = n ∧ (∀ b ∈ out, b = 0 ∨ b = 1) ∧ bitsField out = x
  /-- `sel = 0` passes the inputs through, `sel = 1` swaps them. -/
  switcher_iff : ∀ sel l r outL outR, sel = 0 ∨ sel = 1 → (switcher sel l r outL outR ↔
    if sel = 1 then outL = r ∧ outR = l else outL = l ∧ outR = r)
  /-- Nothing is enforced when `enabled` is zero. -/
  forceEqualIfEnabled_iff : ∀ enabled a b, forceEqualIfEnabled enabled a b ↔
    (enabled ≠ 0 → a = b)
  /-- The output is the truth value of the equality. -/
  isEqual_iff : ∀ a b out, isEqual a b out ↔ out = if a = b then 1 else 0

/-- `IsZero`, the gadget under the two comparators. -/
def isZero (x out : F) : Prop := ∃ inv, out = -x * inv + 1 ∧ x * out = 0

theorem isZero_iff (x out : F) : isZero x out ↔ out = if x = 0 then 1 else 0 := by
  constructor
  · rintro ⟨inv, hout, hmul⟩
    split
    · next hx => rw [hout, hx, neg_zero, zero_mul, zero_add]
    · next hx => exact (mul_eq_zero.mp hmul).resolve_left hx
  · rintro rfl
    by_cases hx : x = 0
    · exact ⟨0, by simp [hx], by simp [hx]⟩
    · exact ⟨x⁻¹, by simp [hx], by simp [hx]⟩

/-- The constraints circomlib itself writes for the four templates do enforce this. -/
def Circomlib.standard : Circomlib where
  num2Bits n x out := out.length = n ∧ (∀ b ∈ out, b * (b - 1) = 0) ∧ bitsField out = x
  switcher sel l r outL outR := ∃ aux, aux = (r - l) * sel ∧ outL = aux + l ∧ outR = -aux + r
  forceEqualIfEnabled enabled a b := ∃ out, isZero (b - a) out ∧ (1 - out) * enabled = 0
  isEqual a b out := isZero (b - a) out
  num2Bits_iff n x out := by simp only [mul_eq_zero, sub_eq_zero]
  switcher_iff sel l r outL outR h := by
    rcases h with rfl | rfl
    · simp
    · simp [eq_comm]
  forceEqualIfEnabled_iff enabled a b := by
    simp only [isZero_iff, exists_eq_left]
    by_cases hab : a = b
    · simp [hab]
    · simp [hab, sub_eq_zero, Ne.symm hab]
  isEqual_iff a b out := by
    rw [isZero_iff]
    simp only [sub_eq_zero, eq_comm]

/-! ## 2. The templates -/

/-- `Keypair`: the public key of a private key. -/
def keypair (privateKey : F) : F := poseidon2Two privateKey 0 (0x03 : Nat)

/-- The commitment of a note. -/
def noteCommitment (amount publicKey blinding : F) : F :=
  poseidon2Three amount publicKey blinding (0x01 : Nat)

/-- `Signature`. -/
def signature (privateKey commitment merklePath : F) : F :=
  poseidon2Three privateKey commitment merklePath (0x04 : Nat)

def noteNullifier (commitment merklePath sig : F) : F :=
  poseidon2Three commitment merklePath sig (0x02 : Nat)

/-- The allowlist leaf of a public key. -/
def membershipLeaf (publicKey blinding : F) : F := poseidon2Two publicKey blinding (0x01 : Nat)

/-- The switchers and hashers of `MerkleProof`, one for each bit and path element. -/
def merkleLevels (lib : Circomlib) : (bits pathElements : List F) → (current root : F) → Prop
  | [], [], current, root => root = current
  | b :: bits, e :: pathElements, current, root =>
    ∃ outL outR, lib.switcher b current e outL outR ∧
      merkleLevels lib bits pathElements (compress outL outR) root
  | _, _, _, _ => False

/-- `MerkleProof(levels)`. -/
def merkleProof (lib : Circomlib) (levels : Nat) (leaf : F) (pathElements : List F)
    (pathIndices root : F) : Prop :=
  ∃ bits, lib.num2Bits levels pathIndices bits ∧ merkleLevels lib bits pathElements leaf root

/-- The bus `MembershipProof`. -/
structure MembershipProof where
  leaf : F
  blinding : F
  pathElements : List F
  pathIndices : F

/-- The private signals of one input. -/
structure InputSignals where
  inAmount : F
  inPrivateKey : F
  inBlinding : F
  inPathIndices : F
  inPathElements : List F
  membershipProofs : List MembershipProof

/-- The private signals of one output. -/
structure OutputSignals where
  outAmount : F
  outPubkey : F
  outBlinding : F

structure Witness where
  ins : List InputSignals
  outs : List OutputSignals

structure PublicSignals where
  root : F
  publicAmount : F
  extDataHash : F
  inputNullifier : List F
  outputCommitment : List F
  membershipRoots : List (List F)

/-- The public signals in the order the verifier sees them. -/
def PublicSignals.toVector (pub : PublicSignals) : List F :=
  [pub.root, pub.publicAmount, pub.extDataHash] ++ pub.inputNullifier ++ pub.outputCommitment ++
    pub.membershipRoots.flatten

namespace InputSignals

def publicKey (i : InputSignals) : F := keypair i.inPrivateKey

def commitment (i : InputSignals) : F := noteCommitment i.inAmount i.publicKey i.inBlinding

def sig (i : InputSignals) : F := signature i.inPrivateKey i.commitment i.inPathIndices

def nullifier (i : InputSignals) : F := noteNullifier i.commitment i.inPathIndices i.sig

end InputSignals

def OutputSignals.commitment (o : OutputSignals) : F :=
  noteCommitment o.outAmount o.outPubkey o.outBlinding

/-- What a commitment hides. -/
def InputSignals.opening (i : InputSignals) : F × F × F := (i.inAmount, i.publicKey, i.inBlinding)

@[inherit_doc InputSignals.opening]
def OutputSignals.opening (o : OutputSignals) : F × F × F :=
  (o.outAmount, o.outPubkey, o.outBlinding)

/-- The commitment of an opening. -/
def commitOpening (p : F × F × F) : F := noteCommitment p.1 p.2.1 p.2.2

theorem InputSignals.commitment_eq (i : InputSignals) :
    i.commitment = commitOpening i.opening := rfl

theorem OutputSignals.commitment_eq (o : OutputSignals) :
    o.commitment = commitOpening o.opening := rfl

/-- The constraints on one membership proof of an input. -/
def MembershipChecked (lib : Circomlib) (levels : Nat) (i : InputSignals) (root : F)
    (m : MembershipProof) : Prop :=
  m.leaf = membershipLeaf i.publicKey m.blinding ∧
    merkleProof lib levels m.leaf m.pathElements m.pathIndices root

/-- The constraints on one input. -/
structure InputChecked (lib : Circomlib) (levels : Nat) (root : F) (pub : F × List F)
    (i : InputSignals) : Prop where
  nullifier : i.nullifier = pub.1
  /-- The tree's root is compared for a nonzero amount only. -/
  tree : ∃ treeRoot, merkleProof lib levels i.commitment i.inPathElements i.inPathIndices treeRoot ∧
    lib.forceEqualIfEnabled i.inAmount root treeRoot
  membership : List.Forall₂ (MembershipChecked lib levels i) pub.2 i.membershipProofs

/-- The constraints on one output. -/
structure OutputChecked (lib : Circomlib) (outputCommitment : F) (o : OutputSignals) : Prop where
  commitment : o.commitment = outputCommitment
  amountCheck : ∃ bits, lib.num2Bits 248 o.outAmount bits

/-- `PolicyTransaction(nIns, nOuts, nMembershipProofs, levels)`. -/
structure PolicyTransaction (lib : Circomlib) (nIns nOuts nMembershipProofs levels : Nat)
    (pub : PublicSignals) (w : Witness) : Prop where
  inputNullifier_length : pub.inputNullifier.length = nIns
  outputCommitment_length : pub.outputCommitment.length = nOuts
  membershipRoots_length : pub.membershipRoots.length = nIns
  membershipRoots_row : ∀ row ∈ pub.membershipRoots, row.length = nMembershipProofs
  inputs : List.Forall₂ (InputChecked lib levels pub.root)
    (pub.inputNullifier.zip pub.membershipRoots) w.ins
  outputs : List.Forall₂ (OutputChecked lib) pub.outputCommitment w.outs
  sameNullifiers : pub.inputNullifier.Pairwise fun a b => lib.isEqual a b 0
  balance : (w.ins.map (·.inAmount)).sum + pub.publicAmount = (w.outs.map (·.outAmount)).sum

/-- The public vector is one of the circuit's, and the witness satisfies it. -/
def Satisfies (lib : Circomlib) (levels : Nat) (publicInputs : List F) (w : Witness) : Prop :=
  ∃ pub : PublicSignals, pub.toVector = publicInputs ∧ PolicyTransaction lib 2 2 1 levels pub w

/-! ## 3. What the templates force -/

variable {lib : Circomlib}

/-- The number the bits spell. -/
def bitsNat : List F → Nat
  | [] => 0
  | b :: bs => b.val + 2 * bitsNat bs

theorem cast_bitsNat : ∀ bs : List F, (bitsNat bs : F) = bitsField bs
  | [] => by simp [bitsNat, bitsField]
  | b :: bs => by simp [bitsNat, bitsField, cast_bitsNat bs]

theorem val_bit_lt {b : F} (h : b = 0 ∨ b = 1) : b.val < 2 := by
  rcases h with rfl | rfl
  · rw [ZMod.val_zero]
    omega
  · rw [ZMod.val_one]
    omega

theorem bitsNat_lt : ∀ {bs : List F}, (∀ b ∈ bs, b = 0 ∨ b = 1) → bitsNat bs < 2 ^ bs.length
  | [], _ => by simp [bitsNat]
  | b :: bs, h => by
    have hb := val_bit_lt (h b List.mem_cons_self)
    have ih := bitsNat_lt fun c hc => h c (List.mem_cons_of_mem _ hc)
    simp only [bitsNat, List.length_cons, pow_succ]
    omega

theorem val_cast_of_lt {n k : Nat} (hk : k ≤ 253) (h : n < 2 ^ k) : (n : F).val = n :=
  ZMod.val_natCast_of_lt
    (lt_trans (lt_of_lt_of_le h (Nat.pow_le_pow_right (by omega) hk)) two_pow_253_lt)

/-- A value that `n` bits spell is below `2 ^ n`, as long as that is below the modulus. -/
theorem num2Bits_val {n : Nat} {x : F} {bits : List F} (hn : n ≤ 253)
    (h : lib.num2Bits n x bits) : x.val = bitsNat bits ∧ x.val < 2 ^ n := by
  obtain ⟨rfl, hbits, rfl⟩ := (lib.num2Bits_iff _ _ _).mp h
  have hlt := bitsNat_lt hbits
  have hp : bitsNat bits < bn256Modulus :=
    lt_of_lt_of_le hlt (le_trans (Nat.pow_le_pow_right (by omega) hn) two_pow_253_lt.le)
  rw [← cast_bitsNat, ZMod.val_natCast_of_lt hp]
  exact ⟨rfl, hlt⟩

theorem merkleLevels_sound : ∀ {bits pathElements : List F} {current root : F},
    (∀ b ∈ bits, b = 0 ∨ b = 1) → merkleLevels lib bits pathElements current root →
    pathElements.length = bits.length ∧
      root = Merkle.foldPath compress pathElements (bitsNat bits) current
  | [], [], current, root, _, h => ⟨rfl, h⟩
  | [], _ :: _, _, _, _, h => h.elim
  | _ :: _, [], _, _, _, h => h.elim
  | b :: bits, e :: pathElements, current, root, hb, h => by
    obtain ⟨outL, outR, hsw, hrest⟩ := h
    have hbit := hb b List.mem_cons_self
    obtain ⟨hlen, hroot⟩ := merkleLevels_sound (fun c hc => hb c (List.mem_cons_of_mem _ hc)) hrest
    rw [lib.switcher_iff _ _ _ _ _ hbit] at hsw
    refine ⟨by simp [hlen], ?_⟩
    rcases hbit with rfl | rfl
    · rw [if_neg zero_ne_one] at hsw
      obtain ⟨rfl, rfl⟩ := hsw
      simpa [Merkle.foldPath, bitsNat, ZMod.val_zero] using hroot
    · rw [if_pos rfl] at hsw
      obtain ⟨rfl, rfl⟩ := hsw
      have hmod : (1 + 2 * bitsNat bits) % 2 = 1 := by omega
      have hdiv : (1 + 2 * bitsNat bits) / 2 = bitsNat bits := by omega
      simpa only [Merkle.foldPath, bitsNat, ZMod.val_one, hmod, hdiv, if_true] using hroot

/-- **`MerkleProof` computes the path's root**, from a path index of `levels` bits. -/
theorem merkleProof_sound {levels : Nat} (hL : levels ≤ 253) {leaf pathIndices root : F}
    {pathElements : List F} (h : merkleProof lib levels leaf pathElements pathIndices root) :
    pathElements.length = levels ∧ pathIndices.val < 2 ^ levels ∧
      root = Merkle.foldPath compress pathElements pathIndices.val leaf := by
  obtain ⟨bits, hnum, hlev⟩ := h
  obtain ⟨hval, hlt⟩ := num2Bits_val hL hnum
  obtain ⟨hlen, hbits, -⟩ := (lib.num2Bits_iff _ _ _).mp hnum
  obtain ⟨hlen', hroot⟩ := merkleLevels_sound hbits hlev
  exact ⟨hlen'.trans hlen, hlt, by rw [hval]; exact hroot⟩

/-! ## 4. The honest prover -/

/-- The lowest `n` bits of a number. -/
def toBits : (n k : Nat) → List F
  | 0, _ => []
  | n + 1, k => ((k % 2 : Nat) : F) :: toBits n (k / 2)

@[simp] theorem length_toBits : ∀ n k, (toBits n k).length = n
  | 0, _ => rfl
  | n + 1, k => by simp [toBits, length_toBits n]

theorem bit_of_mem_toBits : ∀ n k, ∀ b ∈ toBits n k, b = 0 ∨ b = 1
  | 0, _, b, hb => by simp [toBits] at hb
  | n + 1, k, b, hb => by
    rcases List.mem_cons.mp hb with rfl | hb
    · rcases Nat.mod_two_eq_zero_or_one k with h | h
      · exact .inl (by rw [h, Nat.cast_zero])
      · exact .inr (by rw [h, Nat.cast_one])
    · exact bit_of_mem_toBits n _ b hb

theorem bitsField_toBits : ∀ n k, k < 2 ^ n → bitsField (toBits n k) = (k : F)
  | 0, k, h => by
    obtain rfl : k = 0 := by simpa using h
    simp [toBits, bitsField]
  | n + 1, k, h => by
    have ih := bitsField_toBits n (k / 2) (by rw [pow_succ] at h; omega)
    rw [toBits, bitsField, ih]
    calc ((k % 2 : Nat) : F) + (2 : Nat) * ((k / 2 : Nat) : F) =
          ((k % 2 + 2 * (k / 2) : Nat) : F) := by push_cast; ring
      _ = (k : F) := by rw [Nat.mod_add_div]

theorem num2Bits_complete {n : Nat} {x : F} (h : x.val < 2 ^ n) :
    lib.num2Bits n x (toBits n x.val) :=
  (lib.num2Bits_iff _ _ _).mpr ⟨length_toBits _ _, bit_of_mem_toBits _ _,
    by rw [bitsField_toBits _ _ h, ZMod.natCast_zmod_val]⟩

theorem merkleLevels_complete : ∀ (pathElements : List F) (idx : Nat) (current : F),
    merkleLevels lib (toBits pathElements.length idx) pathElements current
      (Merkle.foldPath compress pathElements idx current)
  | [], _, _ => rfl
  | e :: pathElements, idx, current => by
    have hbit : ((idx % 2 : Nat) : F) = 0 ∨ ((idx % 2 : Nat) : F) = 1 :=
      bit_of_mem_toBits 1 idx _ List.mem_cons_self
    refine ⟨if idx % 2 = 1 then e else current, if idx % 2 = 1 then current else e,
      (lib.switcher_iff _ _ _ _ _ hbit).mpr ?_, ?_⟩
    · rcases Nat.mod_two_eq_zero_or_one idx with h | h <;> simp [h]
    · have ih := merkleLevels_complete pathElements (idx / 2)
        (if idx % 2 = 1 then compress e current else compress current e)
      rw [Merkle.foldPath]
      by_cases h : idx % 2 = 1
      · simpa only [h, if_true] using ih
      · simpa only [h, if_false] using ih

/-- Every path index of `levels` bits has a satisfying assignment. -/
theorem merkleProof_complete {levels : Nat} {leaf pathIndices : F} {pathElements : List F}
    (hlen : pathElements.length = levels) (hidx : pathIndices.val < 2 ^ levels) :
    merkleProof lib levels leaf pathElements pathIndices
      (Merkle.foldPath compress pathElements pathIndices.val leaf) := by
  subst hlen
  exact ⟨_, num2Bits_complete hidx, merkleLevels_complete _ _ _⟩

/-- The same, for a path index given as a number. -/
theorem merkleProof_of_lt {levels : Nat} (hL : levels ≤ 253) {leaf : F} {pathElements : List F}
    {index : Nat} (hlen : pathElements.length = levels) (hindex : index < 2 ^ levels) :
    merkleProof lib levels leaf pathElements index
      (Merkle.foldPath compress pathElements index leaf) := by
  have hval : (index : F).val = index := val_cast_of_lt hL hindex
  have hlt : (index : F).val < 2 ^ levels := by rwa [hval]
  have hproof : merkleProof lib levels leaf pathElements index _ := merkleProof_complete hlen hlt
  rwa [hval] at hproof

end Circuit

end Veil
