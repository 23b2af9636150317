/-
# What a call moves

The pool's tokens are held by another contract, of which only this is assumed (`Token`): a
transfer moves exactly the amount asked, and no balance is negative.  With such a token an
accepted call changes the pool's balance by at least its external amount
(`Deployment.balance_enter`): a deposit is taken in full, and a payout, split between the
recipient and the fee, never exceeds the amount withdrawn, because the fee is a share of it.

A `Deployment` fixes the contracts a pool was deployed with.  The allowlist may answer
anything, and so may any verifier but the deployed one.
-/
import Veil.Circuit.Statement

namespace Veil

open Tx Circuit

namespace Pool

/-! ## 1. Amounts -/

@[simp] theorem i256Neg_eq_ok {v w : Int} :
    i256Neg v = .ok w ↔ (-(2 ^ 255) ≤ -v ∧ -v < 2 ^ 255) ∧ w = -v := by
  simp only [i256Neg, bind_eq_ok, ensure_eq_ok, Except.ok.injEq, exists_const]
  exact and_congr_right' eq_comm

/-- The public amount of an accepted call is its external amount, in the field. -/
theorem calculatePublicAmount_ok {extAmount : Int} {publicAmount : Nat}
    (h : calculatePublicAmount extAmount = .ok publicAmount) :
    |extAmount| < 2 ^ 248 ∧ (publicAmount : F) = (extAmount : F) := by
  simp only [calculatePublicAmount, i256AbsToU256, bind_eq_ok, ensure_eq_ok] at h
  obtain ⟨abs, habs, -, hmax, hpub⟩ := h
  unfold maxExtAmount at hmax
  by_cases hpos : extAmount ≥ 0
  · rw [if_pos hpos] at habs hpub
    cases habs
    cases hpub
    refine ⟨by rw [abs_of_nonneg hpos]; omega, ?_⟩
    rw [← Int.cast_natCast, Int.toNat_of_nonneg hpos]
  · rw [if_neg hpos] at habs hpub
    simp only [bind_eq_ok, i256Neg_eq_ok, Except.ok.injEq] at habs hpub
    obtain ⟨_, ⟨-, rfl⟩, rfl⟩ := habs
    obtain ⟨_, ⟨-, rfl⟩, rfl⟩ := hpub
    refine ⟨by rw [abs_of_neg (by omega)]; omega, ?_⟩
    have hlt : (-extAmount).toNat ≤ bn256Modulus := by
      have h253 := two_pow_253_lt
      have hpow : (2 : Nat) ^ 248 ≤ 2 ^ 253 := Nat.pow_le_pow_right (by omega) (by omega)
      omega
    rw [Nat.cast_sub hlt, ZMod.natCast_self, zero_sub, ← Int.cast_natCast,
      Int.toNat_of_nonneg (by omega), Int.cast_neg, neg_neg]

/-- A small enough external amount has a public amount, and it is a field element. -/
theorem calculatePublicAmount_of_lt {extAmount : Int} (h : |extAmount| < 2 ^ 248) :
    ∃ publicAmount < bn256Modulus, calculatePublicAmount extAmount = .ok publicAmount := by
  have h253 := two_pow_253_lt
  have hpow : (2 : Nat) ^ 248 ≤ 2 ^ 253 := Nat.pow_le_pow_right (by omega) (by omega)
  rw [abs_lt] at h
  by_cases hpos : extAmount ≥ 0
  · refine ⟨extAmount.toNat, by omega, bind_eq_ok.mpr ⟨extAmount.toNat, ?_, bind_eq_ok.mpr ⟨(),
      ensure_eq_ok.mpr (by unfold maxExtAmount; omega), ?_⟩⟩⟩
    · rw [i256AbsToU256, if_pos hpos]
    · rw [if_pos hpos]
  · have hneg : i256Neg extAmount = .ok (-extAmount) := i256Neg_eq_ok.mpr ⟨by omega, rfl⟩
    refine ⟨bn256Modulus - (-extAmount).toNat, by omega, bind_eq_ok.mpr ⟨(-extAmount).toNat, ?_,
      bind_eq_ok.mpr ⟨(), ensure_eq_ok.mpr (by unfold maxExtAmount; omega), ?_⟩⟩⟩
    · rw [i256AbsToU256, if_neg hpos, hneg]
      rfl
    · rw [if_neg hpos, hneg]
      rfl

/-- The fee on `amount`, rounded down. -/
def feeOn (amount : Int) (feeBps : Nat) : Int := amount * feeBps / maxFeeBps

/-- The fee is a share of the amount. -/
theorem feeOn_bounds {amount : Int} {feeBps : Nat} (h : 0 ≤ amount) (hmax : feeBps ≤ maxFeeBps) :
    0 ≤ feeOn amount feeBps ∧ feeOn amount feeBps ≤ amount := by
  have hprod : 0 ≤ amount * (feeBps : Int) := mul_nonneg h (Int.natCast_nonneg _)
  refine ⟨Int.ediv_nonneg hprod (Int.natCast_nonneg _), Int.ediv_le_of_le_mul (by decide) ?_⟩
  exact mul_le_mul_of_nonneg_left (by exact_mod_cast hmax) h

/-- Of a withdrawal the recipient gets what the fee leaves.  The fee's product fits its type. -/
theorem calculatePayout_ok {extData : ExtData} {s : PoolStorage} {payout : Option (Int × Int)}
    {feeBps : Nat} (hbps : s.feeBps = some feeBps) (h : calculatePayout extData s = .ok payout) :
    (0 ≤ extData.extAmount ∧ payout = none) ∨
      (extData.extAmount < 0 ∧ -extData.extAmount < 2 ^ 127 ∧
        -extData.extAmount * feeBps < 2 ^ 127 ∧
        payout = some (-extData.extAmount - feeOn (-extData.extAmount) feeBps,
          feeOn (-extData.extAmount) feeBps)) := by
  unfold calculatePayout at h
  split at h
  · next hneg =>
    right
    simp only [i256ToI128Nonneg, calculateFeeAmount, bind_eq_ok, i256Neg_eq_ok,
      ensure_eq_ok, okOr_eq_ok, toI128_eq_some, read_eq_ok, Except.ok.injEq, hbps,
      Option.some.injEq] at h
    obtain ⟨_, ⟨-, rfl⟩, _, ⟨-, -, ⟨-, hamount⟩, rfl⟩, _, rfl, fee, ⟨_, ⟨⟨-, hprod⟩, rfl⟩, hfee⟩, _,
      ⟨-, rfl⟩, rfl⟩ := h
    have hnonneg : 0 ≤ -extData.extAmount * (feeBps : Int) :=
      mul_nonneg (by omega) (Int.natCast_nonneg _)
    rw [Int.tdiv_eq_ediv_of_nonneg hnonneg] at hfee
    exact ⟨hneg, hamount, hprod, by rw [feeOn, hfee]⟩
  · next hpos =>
    cases h
    exact .inl ⟨by omega, rfl⟩

end Pool

/-! ## 2. Deployments -/

/-- A token contract with states `τ`. -/
structure Token (τ : Type) where
  balance : τ → Address → Int
  transfer : τ → (sender receiver : Address) → (amount : Int) → Option τ
  nonneg : ∀ t a, 0 ≤ balance t a
  moves : ∀ {t t' sender receiver amount}, transfer t sender receiver amount = some t' →
    ∀ a, balance t' a = balance t a - (if a = sender then amount else 0) +
      (if a = receiver then amount else 0)

/-- The contracts a pool works with. -/
structure Deployment (τ : Type) (lib : Circomlib) (L : Nat) where
  this : Address
  tokenAddress : Address
  verifierAddress : Address
  digest : ExtData → Nat
  token : Token τ
  verifier : SoundVerifier lib L

namespace Deployment

variable {τ : Type} {lib : Circomlib} {L : Nat} (d : Deployment τ lib L)

/-- A transfer of the deployed token; no other token is ever asked. -/
def transfer (token sender receiver : Address) (amount : Int) (env : Env τ) : Option (Env τ) :=
  if token = d.tokenAddress then
    (d.token.transfer env.rest sender receiver amount).map fun t => { env with rest := t }
  else none

/-- The callees of a pool call.  `aspRoot` is what the allowlist answers, `otherVerdict` what a
verifier other than the deployed one would. -/
def externals (aspRoot : Option Nat) (otherVerdict : Option Bool) : Externals τ where
  currentContractAddress := d.this
  keccak256Xdr := d.digest
  transferIn := d.transfer
  getRoot _ env := aspRoot.map fun root => (root, env)
  verify verifier π xs env :=
    (if verifier = d.verifierAddress then d.verifier.verify π xs else otherVerdict).map
      fun b => (b, env)
  transferOut := d.transfer
  transferFee := d.transfer

/-- The pool's own balance. -/
def balance (env : Env τ) : Int := d.token.balance env.rest d.this

variable {d} {aspRoot : Option Nat} {otherVerdict : Option Bool} {env env' : Env τ}

theorem transfer_ok {token sender receiver : Address} {amount : Int}
    (h : d.transfer token sender receiver amount env = some env') :
    Pool.SamePool env env' ∧ d.balance env' = d.balance env -
      (if d.this = sender then amount else 0) + (if d.this = receiver then amount else 0) := by
  simp only [transfer, Option.ite_none_right_eq_some, Option.map_eq_some_iff] at h
  obtain ⟨-, t, ht, rfl⟩ := h
  exact ⟨⟨rfl, rfl⟩, d.token.moves ht d.this⟩

theorem quiet_externals : Pool.Quiet (d.externals aspRoot otherVerdict) where
  transferIn h := (transfer_ok h).1
  getRoot h := by
    simp only [externals, Option.map_eq_some_iff, Prod.mk.injEq] at h
    obtain ⟨_, -, -, rfl⟩ := h
    exact ⟨rfl, rfl⟩
  verify h := by
    simp only [externals, Option.map_eq_some_iff, Prod.mk.injEq] at h
    obtain ⟨_, -, -, rfl⟩ := h
    exact ⟨rfl, rfl⟩
  transferOut h := (transfer_ok h).1
  transferFee h := (transfer_ok h).1

theorem consults_externals :
    Pool.Consults (d.externals aspRoot otherVerdict) d.verifierAddress d.verifier := by
  intro π xs b e e' h
  simp only [externals, if_true, Option.map_eq_some_iff, Prod.mk.injEq] at h
  obtain ⟨_, hb, rfl, -⟩ := h
  exact hb

/-! ## 3. The pool's balance over a call -/

/-- A payment out of the pool costs it at most the amount. -/
theorem balance_transfer_out {token receiver : Address} {amount : Int} (hpos : 0 ≤ amount)
    (h : d.transfer token d.this receiver amount env = some env') :
    d.balance env - amount ≤ d.balance env' := by
  obtain ⟨-, hbal⟩ := transfer_ok h
  rw [if_pos rfl] at hbal
  split at hbal <;> omega

theorem balance_payRecipient {token recipient : Address} {amount : Int} (hpos : 0 ≤ amount)
    (h : Pool.payRecipient (d.externals aspRoot otherVerdict) token recipient amount env =
      .ok env') : d.balance env - amount ≤ d.balance env' := by
  unfold Pool.payRecipient at h
  split at h
  · exact balance_transfer_out hpos (okOr_eq_ok.mp h)
  · cases h
    omega

theorem balance_payFee {token : Address} {fee : Int} (hpos : 0 ≤ fee)
    (h : Pool.payFee (d.externals aspRoot otherVerdict) token fee env = .ok env') :
    d.balance env - fee ≤ d.balance env' := by
  unfold Pool.payFee at h
  split at h
  · obtain ⟨feeRecipient, -, h⟩ := bind_eq_ok.mp h
    exact balance_transfer_out hpos (okOr_eq_ok.mp h)
  · cases h
    omega

theorem balance_takeDeposit {token sender : Address} {extData : ExtData} (hs : sender ≠ d.this)
    (h : Pool.takeDeposit (d.externals aspRoot otherVerdict) token extData sender env =
      .ok env') : d.balance env' = d.balance env + max 0 extData.extAmount := by
  unfold Pool.takeDeposit at h
  split at h
  · next hpos =>
    simp only [Pool.i256ToI128Nonneg, bind_eq_ok, Pool.read_eq_ok, ensure_eq_ok, okOr_eq_ok,
      Pool.toI128_eq_some] at h
    obtain ⟨_, -, -, -, _, ⟨-, -, -, rfl⟩, h⟩ := h
    have hbal : d.balance env' =
        d.balance env - (if d.this = sender then extData.extAmount else 0) +
          (if d.this = d.this then extData.extAmount else 0) := (transfer_ok h).2
    rw [if_neg (Ne.symm hs), if_pos rfl] at hbal
    omega
  · cases h
    omega

/-- **Settling costs at most what is withdrawn.** -/
theorem balance_settles {proof : Proof} {extData : ExtData} {insertOutputs : Bool}
    {t : Pool.SettleTrace τ} {feeBps : Nat} (hbps : env.pool.feeBps = some feeBps)
    (hmax : feeBps ≤ maxFeeBps)
    (h : Pool.Settles (d.externals aspRoot otherVerdict) proof extData insertOutputs env t env') :
    d.balance env + min 0 extData.extAmount ≤ d.balance env' := by
  obtain ⟨hver, -⟩ := h.quiet quiet_externals
  have hspent : t.spent.feeBps = some feeBps := by
    rw [(Pool.spendNullifiersOnce_ok h.spend).2.2.1, hver]
    exact hbps
  have hrest : t.verified.rest = env.rest := by
    have h1 := h.memberRoot
    have h2 := h.accepted
    simp only [Pool.getAspMembershipRoot, Pool.verifyProof, externals, bind_eq_ok, okOr_eq_ok,
      Option.map_eq_some_iff, Prod.mk.injEq] at h1 h2
    obtain ⟨_, -, _, -, -, h1⟩ := h1
    obtain ⟨_, -, _, -, _, -, -, h2⟩ := h2
    rw [← h2, ← h1]
  have hbal : d.balance env' = d.balance t.paid := by rw [h.final]; rfl
  have hstart : d.balance t.verified = d.balance env := by rw [balance, hrest]; rfl
  rcases Pool.calculatePayout_ok hspent h.payout with ⟨hpos, hp⟩ | ⟨hneg, -, -, hp⟩
  · have hpay := h.pay
    rw [hp] at hpay
    have hpaid : d.balance t.paid = d.balance t.verified := by
      rw [← Except.ok.inj hpay]
      rfl
    omega
  · have hpay := h.pay
    rw [hp] at hpay
    obtain ⟨env1, h1, h2⟩ := bind_eq_ok.mp hpay
    obtain ⟨h0, hle⟩ := Pool.feeOn_bounds (show 0 ≤ -extData.extAmount by omega) hmax
    have hout := balance_payRecipient (Int.sub_nonneg.mpr hle) h1
    change d.balance t.verified - _ ≤ _ at hout
    have hfee := balance_payFee h0 h2
    omega

/-- **An accepted call moves at least its external amount.** -/
theorem balance_enter {r : Pool.Request} {feeBps : Nat} (hs : r.sender ≠ d.this)
    (hbps : env.pool.feeBps = some feeBps) (hmax : feeBps ≤ maxFeeBps)
    (h : r.enter (d.externals aspRoot otherVerdict) env = .ok env') :
    d.balance env + r.extData.extAmount ≤ d.balance env' := by
  obtain ⟨env1, t, ht, hexit, hdep⟩ := r.enter_ok h
  cases he : r.isExit with
  | true =>
    obtain ⟨rfl, hneg, -⟩ := hexit he
    have hset := balance_settles hbps hmax ht
    omega
  | false =>
    obtain ⟨token, -, hdep⟩ := hdep he
    have hin := balance_takeDeposit hs hdep
    have hsame := quiet_externals.takeDeposit Pool.SamePool.refl hdep
    have hset := balance_settles (hsame.1 ▸ hbps) hmax ht
    omega

end Deployment

end Veil
