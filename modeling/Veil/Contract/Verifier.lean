/-
# The Groth16 verifier and its public inputs

`contracts/verifier/src/contract.rs`, and the vector `verifier_boundary.rs` builds for it.  The
pool's proof has a list of nullifiers, so the vector has two parts of variable length: the
nullifiers in its middle and the membership root, once for each of them, at its end.

* The length of the vector gives the number of nullifiers, and then every value its place
  (`verifierPublicInputs_inj`).
* The verifier compares the length with its key's, so a key for nine inputs takes proofs with two
  nullifiers only, and what it then checks is Groth16's equation at these nine values
  (`verifyWithVk_eq_true_iff`).

The curve is the host's.  `Bn254` has the calls the contract makes, on encoded points, each of which
traps on an encoding that is no point; `Implements` is what the host documents of them.  The key is
embedded by the build, so it is a parameter.
-/
import Veil.Contract.Settle

namespace Veil

open Tx Unsigned

/-! ## 1. The contract -/

inductive Groth16Error where
  | invalidProof
  | malformedPublicInputs
  | malformedProof
  deriving DecidableEq, Repr

namespace CircomGroth16Verifier

abbrev G1Affine := Vector UInt8 64

abbrev G2Affine := Vector UInt8 128

/-- Groth16 verification key for BN254 curve. -/
structure VerificationKey where
  alpha : G1Affine
  beta : G2Affine
  gamma : G2Affine
  delta : G2Affine
  ic : List G1Affine

/-- The host's functions on encoded points.  Negation changes the encoding and cannot trap. -/
structure Bn254 where
  neg : G1Affine → G1Affine
  g1Mul : G1Affine → F → Option G1Affine
  g1Add : G1Affine → G1Affine → Option G1Affine
  pairingCheck : List G1Affine → List G2Affine → Option Bool

/-- The loop over the public inputs from number `i` on. -/
def accumulate (bn : Bn254) (ic : List G1Affine) :
    (pubInputs : List F) → (i : Nat) → (vkX : G1Affine) → Except (Fault Groth16Error) G1Affine
  | [], _, vkX => .ok vkX
  | s :: pubInputs, i, vkX => do
    let icIdx ← okOr (checkedAdd 32 i 1) (.contract .malformedPublicInputs)
    let v ← okOr ic[icIdx]? (.contract .malformedPublicInputs)
    let prod ← okOr (bn.g1Mul v s) .trapped
    let vkX ← okOr (bn.g1Add vkX prod) .trapped
    accumulate bn ic pubInputs (i + 1) vkX

def verifyWithVk (bn : Bn254) (vk : VerificationKey) (proof : Groth16Proof) (pubInputs : List F) :
    Except (Fault Groth16Error) Bool := do
  ensure (checkedAdd 32 pubInputs.length 1 = some vk.ic.length) (.contract .malformedPublicInputs)
  let vkX ← okOr vk.ic[0]? (.contract .malformedPublicInputs)
  let vkX ← accumulate bn vk.ic pubInputs 0 vkX
  -- e(-A, B) * e(alpha, beta) * e(vk_x, gamma) * e(C, delta) == 1
  let accepted ← okOr (bn.pairingCheck [bn.neg proof.a, vk.alpha, vkX, proof.c]
    [proof.b, vk.beta, vk.gamma, vk.delta]) .trapped
  ensure (accepted = true) (.contract .invalidProof)
  .ok true

/-! ## 2. What the host documents -/

section Host

variable {G1 G2 GT : Type} [AddCommGroup G1] [Module F G1] [CommGroup GT]

/-- **The host computes in the groups.**  `g1` and `g2` read an encoding, and `e` is the pairing.
Nothing is said of a pairing check over no pairs, which the host refuses. -/
structure Bn254.Implements (bn : Bn254) (g1 : G1Affine → Option G1) (g2 : G2Affine → Option G2)
    (e : G1 → G2 → GT) : Prop where
  neg : ∀ p, g1 (bn.neg p) = (g1 p).map (- ·)
  g1Mul : ∀ p s, (bn.g1Mul p s).map g1 = (g1 p).map fun x => some (s • x)
  g1Add : ∀ p q, (bn.g1Add p q).map g1 = (g1 p).bind fun x => (g1 q).map fun y => some (x + y)
  pairingCheck : ∀ ps qs, ps ≠ [] → ps.length = qs.length → (bn.pairingCheck ps qs = some true ↔
    ∃ xs ys, List.Forall₂ (fun p x => g1 p = some x) ps xs ∧
      List.Forall₂ (fun q y => g2 q = some y) qs ys ∧ (List.zipWith e xs ys).prod = 1)

variable {bn : Bn254} {g1 : G1Affine → Option G1} {g2 : G2Affine → Option G2} {e : G1 → G2 → GT}

theorem Bn254.Implements.mul_add_iff (h : bn.Implements g1 g2 e) {vkX v : G1Affine} {s : F}
    {y : G1} : (∃ prod sum, bn.g1Mul v s = some prod ∧ bn.g1Add vkX prod = some sum ∧
      g1 sum = some y) ↔ ∃ x z, g1 vkX = some x ∧ g1 v = some z ∧ y = x + s • z := by
  have hmul := h.g1Mul v s
  constructor
  · rintro ⟨prod, sum, hprod, hsum, hy⟩
    rw [hprod] at hmul
    obtain ⟨z, hz, hprodz⟩ := Option.map_eq_some_iff.mp hmul.symm
    have hadd := h.g1Add vkX prod
    rw [hsum, ← hprodz] at hadd
    obtain ⟨x, hx, hxy⟩ := Option.bind_eq_some_iff.mp hadd.symm
    refine ⟨x, z, hx, hz, ?_⟩
    rw [hy] at hxy
    exact (Option.some.inj (Option.some.inj hxy)).symm
  · rintro ⟨x, z, hx, hz, rfl⟩
    rw [hz] at hmul
    obtain ⟨prod, hprod, hprodz⟩ := Option.map_eq_some_iff.mp hmul
    have hadd := h.g1Add vkX prod
    rw [hx, hprodz] at hadd
    obtain ⟨sum, hsum, hsumy⟩ := Option.map_eq_some_iff.mp hadd
    exact ⟨prod, sum, hprod, hsum, hsumy⟩

/-- **The loop** ends at a point exactly if it started at one and met points only, and then at their
linear combination. -/
theorem accumulate_iff (h : bn.Implements g1 g2 e) {ic : List G1Affine} (hic : ic.length ≤ 2 ^ 31) :
    ∀ (pubInputs : List F) (i : Nat) (vkX : G1Affine) (y : G1),
      i + 1 + pubInputs.length ≤ ic.length →
      ((∃ r, accumulate bn ic pubInputs i vkX = .ok r ∧ g1 r = some y) ↔
        ∃ x zs, g1 vkX = some x ∧
          List.Forall₂ (fun p z => g1 p = some z) ((ic.drop (i + 1)).take pubInputs.length) zs ∧
          y = x + (List.zipWith (· • ·) pubInputs zs).sum)
  | [], i, vkX, y, _ => by simp [accumulate]
  | s :: pubInputs, i, vkX, y, hlen => by
    rw [List.length_cons] at hlen
    have hi : i + 1 < ic.length := by omega
    have hadd : checkedAdd 32 i 1 = some (i + 1) := if_pos (by omega)
    have hdrop : (ic.drop (i + 1)).take (pubInputs.length + 1) =
        ic[i + 1] :: (ic.drop (i + 1 + 1)).take pubInputs.length := by
      rw [List.drop_eq_getElem_cons hi, List.take_succ_cons]
    have ih := fun vkX y => accumulate_iff h hic pubInputs (i + 1) vkX y (by omega)
    have hstep : (∃ r, accumulate bn ic (s :: pubInputs) i vkX = .ok r ∧ g1 r = some y) ↔
        ∃ prod sum, bn.g1Mul ic[i + 1] s = some prod ∧ bn.g1Add vkX prod = some sum ∧
          ∃ r, accumulate bn ic pubInputs (i + 1) sum = .ok r ∧ g1 r = some y := by
      simp only [accumulate, bind_eq_ok, okOr_eq_ok, hadd, Option.some.injEq,
        List.getElem?_eq_getElem hi, exists_eq_left']
      constructor
      · rintro ⟨r, ⟨prod, hprod, sum, hsum, hrest⟩, hy⟩
        exact ⟨prod, sum, hprod, hsum, r, hrest, hy⟩
      · rintro ⟨prod, sum, hprod, hsum, r, hrest, hy⟩
        exact ⟨r, ⟨prod, hprod, sum, hsum, hrest⟩, hy⟩
    rw [hstep, List.length_cons, hdrop]
    constructor
    · rintro ⟨prod, sum, hprod, hsum, hrest⟩
      obtain ⟨w, zs, hw, hzs, rfl⟩ := (ih sum y).mp hrest
      obtain ⟨x, z, hx, hz, rfl⟩ := h.mul_add_iff.mp ⟨prod, sum, hprod, hsum, hw⟩
      refine ⟨x, z :: zs, hx, .cons hz hzs, ?_⟩
      rw [List.zipWith_cons_cons, List.sum_cons, add_assoc]
    · rintro ⟨x, zs, hx, hzs, rfl⟩
      obtain ⟨z, zs', hz, hrest, rfl⟩ := List.forall₂_cons_left_iff.mp hzs
      obtain ⟨prod, sum, hprod, hsum, hw⟩ := h.mul_add_iff.mpr ⟨x, z, hx, hz, rfl⟩
      refine ⟨prod, sum, hprod, hsum, (ih sum _).mpr ⟨_, zs', hw, hrest, ?_⟩⟩
      rw [List.zipWith_cons_cons, List.sum_cons, add_assoc]

/-- **Groth16's equation** for the points of a key and a proof, at the public inputs. -/
def Groth16Equation (g1 : G1Affine → Option G1) (g2 : G2Affine → Option G2) (e : G1 → G2 → GT)
    (vk : VerificationKey) (proof : Groth16Proof) (pubInputs : List F) : Prop :=
  ∃ a b c alpha beta gamma delta ic0 ics, g1 proof.a = some a ∧ g2 proof.b = some b ∧
    g1 proof.c = some c ∧ g1 vk.alpha = some alpha ∧ g2 vk.beta = some beta ∧
    g2 vk.gamma = some gamma ∧ g2 vk.delta = some delta ∧
    List.Forall₂ (fun p x => g1 p = some x) vk.ic (ic0 :: ics) ∧
    e (-a) b * e alpha beta * e (ic0 + (List.zipWith (· • ·) pubInputs ics).sum) gamma *
      e c delta = 1

/-- The four pairings of the check. -/
theorem Bn254.Implements.pairingCheck_iff (h : bn.Implements g1 g2 e) {a alpha vkX c : G1Affine}
    {b beta gamma delta : G2Affine} :
    bn.pairingCheck [bn.neg a, alpha, vkX, c] [b, beta, gamma, delta] = some true ↔
      ∃ xa xalpha x xc yb ybeta ygamma ydelta, g1 a = some xa ∧ g1 alpha = some xalpha ∧
        g1 vkX = some x ∧ g1 c = some xc ∧ g2 b = some yb ∧ g2 beta = some ybeta ∧
        g2 gamma = some ygamma ∧ g2 delta = some ydelta ∧
        e (-xa) yb * e xalpha ybeta * e x ygamma * e xc ydelta = 1 := by
  rw [h.pairingCheck _ _ (List.cons_ne_nil _ _) rfl]
  simp only [List.forall₂_cons_left_iff, List.forall₂_nil_left_iff, h.neg, Option.map_eq_some_iff]
  constructor
  · rintro ⟨_, _, ⟨_, _, ⟨xa, ha, rfl⟩, ⟨xalpha, _, halpha, ⟨x, _, hx, ⟨xc, _, hc, rfl, rfl⟩, rfl⟩,
      rfl⟩, rfl⟩, ⟨yb, _, hb, ⟨ybeta, _, hbeta, ⟨ygamma, _, hgamma, ⟨ydelta, _, hdelta, rfl, rfl⟩,
      rfl⟩, rfl⟩, rfl⟩, hprod⟩
    refine ⟨xa, xalpha, x, xc, yb, ybeta, ygamma, ydelta, ha, halpha, hx, hc, hb, hbeta, hgamma,
      hdelta, ?_⟩
    simpa [mul_assoc] using hprod
  · rintro ⟨xa, xalpha, x, xc, yb, ybeta, ygamma, ydelta, ha, halpha, hx, hc, hb, hbeta, hgamma,
      hdelta, hprod⟩
    refine ⟨_, _, ⟨_, _, ⟨xa, ha, rfl⟩, ⟨xalpha, _, halpha, ⟨x, _, hx, ⟨xc, _, hc, rfl, rfl⟩, rfl⟩,
      rfl⟩, rfl⟩, ⟨yb, _, hb, ⟨ybeta, _, hbeta, ⟨ygamma, _, hgamma, ⟨ydelta, _, hdelta, rfl, rfl⟩,
      rfl⟩, rfl⟩, rfl⟩, ?_⟩
    simpa [mul_assoc] using hprod

/-- An answer is `true`, and was given to a vector of the key's length. -/
theorem verifyWithVk_ok {vk : VerificationKey} {proof : Groth16Proof} {pubInputs : List F}
    {answer : Bool} (hok : verifyWithVk bn vk proof pubInputs = .ok answer) :
    answer = true ∧ pubInputs.length + 1 = vk.ic.length := by
  simp only [verifyWithVk, bind_eq_ok, ensure_eq_ok] at hok
  obtain ⟨-, hlen, _, -, _, -, _, -, -, -, hanswer⟩ := hok
  refine ⟨(Except.ok.inj hanswer).symm, ?_⟩
  rw [checkedAdd, Option.ite_none_right_eq_some] at hlen
  exact Option.some.inj hlen.2

/-- **What the verifier checks.** -/
theorem verifyWithVk_eq_true_iff (h : bn.Implements g1 g2 e) {vk : VerificationKey}
    {proof : Groth16Proof} {pubInputs : List F} (hic : vk.ic.length ≤ 2 ^ 31)
    (hlen : pubInputs.length + 1 = vk.ic.length) :
    verifyWithVk bn vk proof pubInputs = .ok true ↔
      Groth16Equation g1 g2 e vk proof pubInputs := by
  have hcheck : checkedAdd 32 pubInputs.length 1 = some vk.ic.length := by
    rw [checkedAdd, hlen]
    exact if_pos (by omega)
  obtain ⟨p0, ps, hps⟩ : ∃ p0 ps, vk.ic = p0 :: ps := List.exists_cons_of_length_pos (by omega)
  have hcount : ps.length = pubInputs.length := by
    rw [hps, List.length_cons] at hlen
    omega
  have htail : (vk.ic.drop (0 + 1)).take pubInputs.length = ps := by
    rw [hps, ← hcount]
    simp
  have hloop := fun y => accumulate_iff h hic pubInputs 0 p0 y (by omega)
  rw [htail] at hloop
  have hsteps : verifyWithVk bn vk proof pubInputs = .ok true ↔
      ∃ vkX, accumulate bn vk.ic pubInputs 0 p0 = .ok vkX ∧ bn.pairingCheck
        [bn.neg proof.a, vk.alpha, vkX, proof.c] [proof.b, vk.beta, vk.gamma, vk.delta] =
          some true := by
    simp only [verifyWithVk, bind_eq_ok, ensure_eq_ok, okOr_eq_ok, hcheck, true_and]
    simp [hps]
  rw [hsteps]
  constructor
  · rintro ⟨vkX, hvkX, hpairing⟩
    obtain ⟨xa, xalpha, x, xc, yb, ybeta, ygamma, ydelta, ha, halpha, hx, hc, hb, hbeta, hgamma,
      hdelta, hprod⟩ := h.pairingCheck_iff.mp hpairing
    obtain ⟨ic0, ics, h0, hics, rfl⟩ := (hloop x).mp ⟨vkX, hvkX, hx⟩
    exact ⟨xa, yb, xc, xalpha, ybeta, ygamma, ydelta, ic0, ics, ha, hb, hc, halpha, hbeta, hgamma,
      hdelta, hps ▸ .cons h0 hics, hprod⟩
  · rintro ⟨xa, yb, xc, xalpha, ybeta, ygamma, ydelta, ic0, ics, ha, hb, hc, halpha, hbeta, hgamma,
      hdelta, hics, hprod⟩
    rw [hps] at hics
    obtain ⟨h0, hics⟩ := List.forall₂_cons.mp hics
    obtain ⟨vkX, hvkX, hx⟩ := (hloop _).mpr ⟨ic0, ics, h0, hics, rfl⟩
    exact ⟨vkX, hvkX, h.pairingCheck_iff.mpr ⟨xa, xalpha, _, xc, yb, ybeta, ygamma, ydelta, ha,
      halpha, hx, hc, hb, hbeta, hgamma, hdelta, hprod⟩⟩

end Host

/-! ## 3. The vector binds the statement -/

theorem cast_inj_of_lt {a b : Nat} (ha : a < bn256Modulus) (hb : b < bn256Modulus)
    (h : (a : F) = (b : F)) : a = b := by
  rw [← ZMod.val_natCast_of_lt ha, ← ZMod.val_natCast_of_lt hb, h]

theorem map_cast_inj_of_lt : ∀ {ns ms : List Nat}, (∀ n ∈ ns, n < bn256Modulus) →
    (∀ m ∈ ms, m < bn256Modulus) → ns.map (Nat.cast : Nat → F) = ms.map Nat.cast → ns = ms
  | [], [], _, _, _ => rfl
  | n :: ns, m :: ms, hn, hm, h => by
    rw [List.forall_mem_cons] at hn hm
    obtain ⟨hhead, htail⟩ := List.cons.inj h
    rw [cast_inj_of_lt hn.1 hm.1 hhead, map_cast_inj_of_lt hn.2 hm.2 htail]

theorem length_verifierPublicInputs (proof : Proof) :
    (Pool.verifierPublicInputs proof).length = 5 + 2 * proof.inputNullifiers.length := by
  simp [Pool.verifierPublicInputs]
  omega

/-- **Equal vectors, equal statements.** -/
theorem verifierPublicInputs_inj {p q : Proof} (hp : Pool.FieldElements p)
    (hq : Pool.FieldElements q) (hpx : p.extDataHash < bn256Modulus)
    (hqx : q.extDataHash < bn256Modulus) (hsome : p.inputNullifiers ≠ [])
    (h : Pool.verifierPublicInputs p = Pool.verifierPublicInputs q) :
    p.root = q.root ∧ p.publicAmount = q.publicAmount ∧ p.extDataHash = q.extDataHash ∧
      p.inputNullifiers = q.inputNullifiers ∧ p.outputCommitment0 = q.outputCommitment0 ∧
      p.outputCommitment1 = q.outputCommitment1 ∧ p.aspMembershipRoot = q.aspMembershipRoot := by
  -- the lengths fix where the nullifiers end
  have hcount : p.inputNullifiers.length = q.inputNullifiers.length := by
    have := congrArg List.length h
    rw [length_verifierPublicInputs, length_verifierPublicInputs] at this
    omega
  unfold Pool.verifierPublicInputs at h
  obtain ⟨h, hroots⟩ := List.append_inj h (by simp [hcount])
  obtain ⟨h, houtputs⟩ := List.append_inj h (by simp [hcount])
  obtain ⟨hfirst, hnullifiers⟩ := List.append_inj h rfl
  simp only [List.cons.injEq, and_true] at hfirst houtputs
  obtain ⟨n, ns, hns⟩ := List.exists_cons_of_ne_nil hsome
  obtain ⟨m, ms, hms⟩ : ∃ m ms, q.inputNullifiers = m :: ms :=
    List.exists_cons_of_length_pos (by rw [← hcount, hns]; simp)
  rw [hns, hms] at hroots
  exact ⟨cast_inj_of_lt hp.root hq.root hfirst.1,
    cast_inj_of_lt hp.publicAmount hq.publicAmount hfirst.2.1,
    cast_inj_of_lt hpx hqx hfirst.2.2,
    map_cast_inj_of_lt hp.inputNullifiers hq.inputNullifiers hnullifiers,
    cast_inj_of_lt hp.outputCommitment0 hq.outputCommitment0 houtputs.1,
    cast_inj_of_lt hp.outputCommitment1 hq.outputCommitment1 houtputs.2,
    cast_inj_of_lt hp.aspMembershipRoot hq.aspMembershipRoot (List.cons.inj hroots).1⟩

/-- **Public inputs bind the whole statement.**  Over every host that computes in the groups:

* two proofs that pass the pool's field check, with a hash below the modulus and at least one
  nullifier each, and whose vectors are equal, agree in every public field;
* a key with ten points answers no proof but one with two nullifiers, and never with `false`;
* it answers such a proof with `true` if and only if Groth16's equation holds at root, public
  amount, hash, the two nullifiers, the two commitments, and twice the membership root. -/
theorem public_inputs_bind_the_statement {G1 G2 GT : Type} [AddCommGroup G1] [Module F G1]
    [CommGroup GT] {bn : Bn254} {g1 : G1Affine → Option G1} {g2 : G2Affine → Option G2}
    {e : G1 → G2 → GT} (h : bn.Implements g1 g2 e) :
    (∀ p q : Proof, Pool.ensureProofFieldElements p = .ok () →
      Pool.ensureProofFieldElements q = .ok () → p.extDataHash < bn256Modulus →
      q.extDataHash < bn256Modulus → p.inputNullifiers ≠ [] → q.inputNullifiers ≠ [] →
      Pool.verifierPublicInputs p = Pool.verifierPublicInputs q →
      p.root = q.root ∧ p.publicAmount = q.publicAmount ∧ p.extDataHash = q.extDataHash ∧
        p.inputNullifiers = q.inputNullifiers ∧ p.outputCommitment0 = q.outputCommitment0 ∧
        p.outputCommitment1 = q.outputCommitment1 ∧ p.aspMembershipRoot = q.aspMembershipRoot) ∧
    ∀ (vk : VerificationKey) (proof : Proof), vk.ic.length = 10 →
      (∀ answer, verifyWithVk bn vk proof.proof (Pool.verifierPublicInputs proof) = .ok answer →
        proof.inputNullifiers.length = 2 ∧ answer = true) ∧
      ∀ n0 n1, proof.inputNullifiers = [n0, n1] →
        (verifyWithVk bn vk proof.proof (Pool.verifierPublicInputs proof) = .ok true ↔
          Groth16Equation g1 g2 e vk proof.proof
            [(proof.root : F), (proof.publicAmount : F), (proof.extDataHash : F), (n0 : F),
             (n1 : F), (proof.outputCommitment0 : F), (proof.outputCommitment1 : F),
             (proof.aspMembershipRoot : F), (proof.aspMembershipRoot : F)]) := by
  refine ⟨fun p q hp hq hpx hqx hpn _ heq => ?_, fun vk proof hic => ⟨fun answer hok => ?_,
    fun n0 n1 hns => ?_⟩⟩
  · exact verifierPublicInputs_inj (Pool.ensureProofFieldElements_ok hp)
      (Pool.ensureProofFieldElements_ok hq) hpx hqx hpn heq
  · obtain ⟨htrue, hlen⟩ := verifyWithVk_ok hok
    rw [length_verifierPublicInputs, hic] at hlen
    exact ⟨by omega, htrue⟩
  · have hvector : Pool.verifierPublicInputs proof =
        [(proof.root : F), (proof.publicAmount : F), (proof.extDataHash : F), (n0 : F), (n1 : F),
         (proof.outputCommitment0 : F), (proof.outputCommitment1 : F),
         (proof.aspMembershipRoot : F), (proof.aspMembershipRoot : F)] := by
      simp [Pool.verifierPublicInputs, hns]
    rw [verifyWithVk_eq_true_iff h (by omega)
      (by rw [length_verifierPublicInputs, hns, hic]; rfl), hvector]

/-! ### The point at infinity -/

/-- 64 zero bytes encode the point at infinity. -/
def infinity1 : G1Affine := .replicate 64 0

def infinity2 : G2Affine := .replicate 128 0

def point1 (p : G1Affine) : Option F := if p = infinity1 then some 0 else none

def point2 (q : G2Affine) : Option F := if q = infinity2 then some 0 else none

/-- The host's functions at infinity. -/
def infinityHost : Bn254 where
  neg p := p
  g1Mul p _ := if p = infinity1 then some infinity1 else none
  g1Add p q := if p = infinity1 ∧ q = infinity1 then some infinity1 else none
  pairingCheck ps qs :=
    if ps.all (· == infinity1) && qs.all (· == infinity2) then some true else none

theorem infinityHost_g1Mul (p : G1Affine) (s : F) :
    infinityHost.g1Mul p s = if p = infinity1 then some infinity1 else none := rfl

theorem infinityHost_g1Add (p q : G1Affine) : infinityHost.g1Add p q =
    if p = infinity1 ∧ q = infinity1 then some infinity1 else none := rfl

theorem infinityHost_pairingCheck {ps : List G1Affine} {qs : List G2Affine} :
    infinityHost.pairingCheck ps qs = some true ↔
      (∀ p ∈ ps, p = infinity1) ∧ ∀ q ∈ qs, q = infinity2 := by
  change (if (ps.all (· == infinity1) && qs.all (· == infinity2)) = true then some true
    else none) = some true ↔ _
  rw [Option.ite_none_right_eq_some, Bool.and_eq_true, List.all_eq_true, List.all_eq_true]
  constructor
  · rintro ⟨⟨hp, hq⟩, -⟩
    exact ⟨fun p h => eq_of_beq (hp p h), fun q h => eq_of_beq (hq q h)⟩
  · rintro ⟨hp, hq⟩
    exact ⟨⟨fun p h => beq_iff_eq.mpr (hp p h), fun q h => beq_iff_eq.mpr (hq q h)⟩, rfl⟩

def pairing (x y : F) : Multiplicative F := Multiplicative.ofAdd (x * y)

theorem point1_eq_some {p : G1Affine} {x : F} : point1 p = some x ↔ p = infinity1 ∧ x = 0 := by
  simp [point1, eq_comm]

theorem point2_eq_some {q : G2Affine} {y : F} : point2 q = some y ↔ q = infinity2 ∧ y = 0 := by
  simp [point2, eq_comm]

theorem forall₂_point {α : Type} {point : α → Option F} {zero : α}
    (hpoint : ∀ {p x}, point p = some x ↔ p = zero ∧ x = 0) :
    ∀ {ps : List α} {xs : List F}, List.Forall₂ (fun p x => point p = some x) ps xs ↔
      (∀ p ∈ ps, p = zero) ∧ xs = ps.map fun _ => 0
  | [], xs => by simp
  | p :: ps, xs => by
    rw [List.forall₂_cons_left_iff, List.forall_mem_cons]
    constructor
    · rintro ⟨x, xs', hx, hrest, rfl⟩
      obtain ⟨hps, rfl⟩ := (forall₂_point hpoint).mp hrest
      obtain ⟨rfl, rfl⟩ := hpoint.mp hx
      exact ⟨⟨rfl, hps⟩, rfl⟩
    · rintro ⟨⟨hp, hps⟩, rfl⟩
      exact ⟨0, _, hpoint.mpr ⟨hp, rfl⟩, (forall₂_point hpoint).mpr ⟨hps, rfl⟩, rfl⟩

theorem prod_pairing_zero : ∀ (ps : List G1Affine) (ys : List F),
    (List.zipWith pairing (ps.map fun _ => 0) ys).prod = 1
  | [], _ => rfl
  | _ :: _, [] => rfl
  | _ :: ps, y :: ys => by
    rw [List.map_cons, List.zipWith_cons_cons, List.prod_cons, prod_pairing_zero ps ys]
    simp [pairing]

theorem infinityHost_implements : infinityHost.Implements point1 point2 pairing where
  neg p := by
    cases h : point1 p with
    | none => exact h
    | some x =>
      change point1 p = some (-x)
      rw [h, (point1_eq_some.mp h).2, neg_zero]
  g1Mul p s := by
    rw [infinityHost_g1Mul]
    by_cases h : p = infinity1 <;> simp [point1, h]
  g1Add p q := by
    rw [infinityHost_g1Add]
    by_cases h : p = infinity1 <;> by_cases h' : q = infinity1 <;> simp [point1, h, h']
  pairingCheck ps qs _ _ := by
    rw [infinityHost_pairingCheck]
    simp only [forall₂_point point1_eq_some, forall₂_point point2_eq_some]
    constructor
    · rintro ⟨hp, hq⟩
      exact ⟨_, _, ⟨hp, rfl⟩, ⟨hq, rfl⟩, prod_pairing_zero ps _⟩
    · rintro ⟨_, _, ⟨hp, -⟩, ⟨hq, -⟩, -⟩
      exact ⟨hp, hq⟩

/-- A key and a proof with every point at infinity satisfy the equation. -/
def infinityKey : VerificationKey :=
  ⟨infinity1, infinity2, infinity2, infinity2, .replicate 10 infinity1⟩

def infinityProof : Proof where
  proof := ⟨infinity1, infinity2, infinity1⟩
  root := 1
  inputNullifiers := [3, 4]
  outputCommitment0 := 5
  outputCommitment1 := 6
  publicAmount := 2
  extDataHash := 8
  aspMembershipRoot := 7

theorem accumulate_infinity : ∀ (pubInputs : List F) (i : Nat), i + pubInputs.length < 10 →
    accumulate infinityHost infinityKey.ic pubInputs i infinity1 = .ok infinity1
  | [], _, _ => rfl
  | s :: pubInputs, i, h => by
    rw [List.length_cons] at h
    have hadd : checkedAdd 32 i 1 = some (i + 1) := if_pos (by omega)
    have hic : infinityKey.ic[i + 1]? = some infinity1 :=
      List.getElem?_replicate_of_lt (by omega)
    rw [accumulate, hadd, okOr_some, ok_bind, hic, okOr_some, ok_bind, infinityHost_g1Mul,
      if_pos rfl, okOr_some, ok_bind, infinityHost_g1Add, if_pos ⟨rfl, rfl⟩, okOr_some, ok_bind]
    exact accumulate_infinity pubInputs (i + 1) (by omega)

theorem verifyWithVk_infinity : verifyWithVk infinityHost infinityKey infinityProof.proof
    (Pool.verifierPublicInputs infinityProof) = .ok true := by
  have hlen : (Pool.verifierPublicInputs infinityProof).length = 9 :=
    length_verifierPublicInputs infinityProof
  have hic : infinityKey.ic.length = 10 := List.length_replicate
  have hfirst : infinityKey.ic[0]? = some infinity1 := List.getElem?_replicate_of_lt (by omega)
  have hpair : infinityHost.pairingCheck
      [infinityHost.neg infinityProof.proof.a, infinityKey.alpha, infinity1, infinityProof.proof.c]
      [infinityProof.proof.b, infinityKey.beta, infinityKey.gamma, infinityKey.delta] =
        some true := by
    rw [infinityHost_pairingCheck]
    simp only [List.forall_mem_cons, List.not_mem_nil, false_implies, implies_true, true_and,
      and_true]
    exact ⟨⟨rfl, rfl, rfl⟩, rfl, rfl, rfl, rfl⟩
  have hcheck : checkedAdd 32 (Pool.verifierPublicInputs infinityProof).length 1 =
      some infinityKey.ic.length := by rw [hlen, hic]; rfl
  rw [verifyWithVk, ensure_pos hcheck, ok_bind, hfirst, okOr_some, ok_bind,
    accumulate_infinity _ 0 (by omega), ok_bind, hpair, okOr_some, ok_bind, ensure_pos rfl, ok_bind]

theorem public_inputs_bind_the_statement_infinity :
    verifyWithVk infinityHost infinityKey infinityProof.proof
        (Pool.verifierPublicInputs infinityProof) = .ok true ∧
      Groth16Equation point1 point2 pairing infinityKey infinityProof.proof
        [((1 : Nat) : F), ((2 : Nat) : F), ((8 : Nat) : F), ((3 : Nat) : F), ((4 : Nat) : F),
         ((5 : Nat) : F), ((6 : Nat) : F), ((7 : Nat) : F), ((7 : Nat) : F)] ∧
      ∀ q : Proof, Pool.ensureProofFieldElements q = .ok () → q.extDataHash < bn256Modulus →
        q.inputNullifiers ≠ [] →
        Pool.verifierPublicInputs infinityProof = Pool.verifierPublicInputs q →
        q.inputNullifiers = [3, 4] := by
  have hverify := verifyWithVk_infinity
  have hfields : Pool.ensureProofFieldElements infinityProof = .ok () := by decide +kernel
  obtain ⟨hbind, hanswers⟩ := public_inputs_bind_the_statement infinityHost_implements
  refine ⟨hverify, ((hanswers infinityKey infinityProof rfl).2 3 4 rfl).mp hverify, ?_⟩
  intro q hq hqx hqn heq
  exact (hbind infinityProof q hfields hq (by decide) hqx (by decide) hqn heq).2.2.2.1.symm

end CircomGroth16Verifier

end Veil
