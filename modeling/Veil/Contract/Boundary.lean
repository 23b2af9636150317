/-
# Value crossing the boundary of the pool

An external amount is an `I256`.  On its way it becomes a `U256` compared with the maximum, an
`i128` handed to the token, the factor of an `i128` product, and an element of the field, each
with a range check of its own.  This file follows one amount through all of them:

* the bounds every accepted call meets (`Request.bounds`), whatever the callees do;
* the transfers an accepted call makes (`Request.moved`), with tokens that move exactly what they
  are asked to and an allowlist and verifiers that answer anything;
* the encoding of the amount in the field, which is one to one on amounts that small.

`Neighbours` are the contracts around the pool, and `Ledger` their state with the transfers made
so far.
-/
import Veil.Contract.Replay
import Veil.Contract.Solvency

namespace Veil

open Tx

/-! ## 1. The contracts around a pool -/

/-- A call of a token's `transfer`. -/
structure Transfer where
  token : Address
  sender : Address
  receiver : Address
  amount : Int
  deriving DecidableEq

/-- What it adds to the balance of an account. -/
def Transfer.net (t : Transfer) (a : Address) : Int :=
  (if a = t.receiver then t.amount else 0) - (if a = t.sender then t.amount else 0)

/-- The state of the tokens, and the transfers made. -/
structure Ledger (τ : Type) where
  state : τ
  transfers : List Transfer

/-- The other contracts.  There is a token at every address; allowlists and verifiers answer
anything, or fail. -/
structure Neighbours (τ : Type) where
  this : Address
  digest : ExtData → Nat
  token : Address → Token τ
  getRoot : Address → τ → Option Nat
  verify : Address → Groth16Proof → List F → τ → Option Bool

namespace Neighbours

variable {τ : Type} (n : Neighbours τ)

def transfer (token sender receiver : Address) (amount : Int) (env : Env (Ledger τ)) :
    Option (Env (Ledger τ)) :=
  ((n.token token).transfer env.rest.state sender receiver amount).map fun state =>
    { env with rest := ⟨state, env.rest.transfers ++ [⟨token, sender, receiver, amount⟩]⟩ }

def externals : Externals (Ledger τ) where
  currentContractAddress := n.this
  keccak256Xdr := n.digest
  transferIn := n.transfer
  getRoot asp env := (n.getRoot asp env.rest.state).map fun root => (root, env)
  verify verifier π xs env := (n.verify verifier π xs env.rest.state).map fun b => (b, env)
  transferOut := n.transfer
  transferFee := n.transfer

/-- **From `l` to `l'` exactly these transfers of the token were made**, and the balances are
what they make them. -/
structure Moved (token : Address) (made : List Transfer) (l l' : Ledger τ) : Prop where
  transfers : l'.transfers = l.transfers ++ made
  balances : ∀ a, (n.token token).balance l'.state a =
    (n.token token).balance l.state a + (made.map (·.net a)).sum

variable {n} {token : Address} {l l1 l2 : Ledger τ} {env env' : Env (Ledger τ)}

theorem Moved.refl (l : Ledger τ) : n.Moved token [] l l := ⟨by simp, by simp⟩

theorem Moved.trans {ts ts1 : List Transfer} (h : n.Moved token ts l l1)
    (h1 : n.Moved token ts1 l1 l2) : n.Moved token (ts ++ ts1) l l2 where
  transfers := by rw [h1.transfers, h.transfers, List.append_assoc]
  balances a := by rw [h1.balances, h.balances, List.map_append, List.sum_append, add_assoc]

theorem transfer_ok {sender receiver : Address} {amount : Int}
    (h : n.transfer token sender receiver amount env = some env') :
    Pool.SamePool env env' ∧
      n.Moved token [⟨token, sender, receiver, amount⟩] env.rest env'.rest := by
  obtain ⟨state, hstate, rfl⟩ := Option.map_eq_some_iff.mp h
  refine ⟨⟨rfl, rfl⟩, rfl, fun a => ?_⟩
  have hmoves := (n.token token).moves hstate a
  simp only [Transfer.net, List.map_cons, List.map_nil, List.sum_cons, List.sum_nil]
  omega

theorem quiet_externals : Pool.Quiet n.externals where
  transferIn h := (transfer_ok h).1
  getRoot h := by
    obtain ⟨_, -, h⟩ := Option.map_eq_some_iff.mp h
    cases h
    exact .refl _
  verify h := by
    obtain ⟨_, -, h⟩ := Option.map_eq_some_iff.mp h
    cases h
    exact .refl _
  transferOut h := (transfer_ok h).1
  transferFee h := (transfer_ok h).1

/-- The transfers of a payout; nothing is transferred where nothing is due. -/
def payments (token sender recipient feeRecipient : Address) (amount fee : Int) : List Transfer :=
  [⟨token, sender, recipient, amount⟩, ⟨token, sender, feeRecipient, fee⟩].filter (0 < ·.amount)

theorem payOut_moved {recipient feeRecipient : Address} {amount fee : Int}
    (hfee : env.pool.feeRecipient = some feeRecipient)
    (h : Pool.payOut n.externals token recipient (some (amount, fee)) env = .ok env') :
    n.Moved token (payments token n.this recipient feeRecipient amount fee) env.rest
      env'.rest := by
  obtain ⟨env1, h1, h2⟩ := bind_eq_ok.mp h
  have hout : Pool.SamePool env env1 ∧ n.Moved token
      ([⟨token, n.this, recipient, amount⟩].filter (0 < ·.amount)) env.rest env1.rest := by
    unfold Pool.payRecipient at h1
    split at h1
    · next hpos =>
      rw [List.filter_cons_of_pos (by simpa using hpos)]
      exact transfer_ok (okOr_eq_ok.mp h1)
    · next hpos =>
      cases h1
      rw [List.filter_cons_of_neg (by simpa using hpos)]
      exact ⟨.refl _, .refl _⟩
  have hpaid : n.Moved token ([⟨token, n.this, feeRecipient, fee⟩].filter (0 < ·.amount))
      env1.rest env'.rest := by
    unfold Pool.payFee at h2
    split at h2
    · next hpos =>
      simp only [bind_eq_ok, Pool.read_eq_ok, hout.1.1, hfee, Option.some.injEq] at h2
      obtain ⟨_, rfl, h2⟩ := h2
      rw [List.filter_cons_of_pos (by simpa using hpos)]
      exact (transfer_ok (okOr_eq_ok.mp h2)).2
    · next hpos =>
      cases h2
      rw [List.filter_cons_of_neg (by simpa using hpos)]
      exact .refl _
  have htrans := hout.2.trans hpaid
  rwa [← List.filter_append] at htrans

end Neighbours

namespace Pool

/-! ## 2. The configuration -/

/-- What the constructor was given and no entry point changes. -/
structure Configured (token feeRecipient : Address) (maximumDeposit feeBps : Nat)
    (s : PoolStorage) : Prop where
  token : s.token = some token
  feeRecipient : s.feeRecipient = some feeRecipient
  maximumDepositAmount : s.maximumDepositAmount = some maximumDeposit
  feeBps : s.feeBps = some feeBps

section Configuration

variable {ρ : Type} {token feeRecipient : Address} {maximumDeposit feeBps : Nat}
  {env env' : Env ρ} {e : Entry ρ}

theorem Configured.exec (h : Configured token feeRecipient maximumDeposit feeBps env.pool)
    (hq : e.Quiet) (hok : e.exec env = .ok env') :
    Configured token feeRecipient maximumDeposit feeBps env'.pool := by
  rcases Entry.exec_cases hok with ⟨r, ext, rfl, hok⟩ | he
  · obtain ⟨env1, t, hsame, ht, -⟩ := r.enter_respects hq SamePool.refl hok
    rw [ht.config hq, hsame.1]
    exact ⟨h.token, h.feeRecipient, h.maximumDepositAmount, h.feeBps⟩
  · rw [he.pool]
    exact ⟨h.token, h.feeRecipient, h.maximumDepositAmount, h.feeBps⟩

theorem Configured.run (h : Configured token feeRecipient maximumDeposit feeBps env.pool)
    {entries : List (Entry ρ)} (hq : ∀ e ∈ entries, e.Quiet) :
    Configured token feeRecipient maximumDeposit feeBps (run Entry.exec entries env).pool :=
  run_induction (P := fun env => Configured token feeRecipient maximumDeposit feeBps env.pool)
    (fun e he _ _ hP hok => hP.exec (hq e he) hok) h

end Configuration

/-! ## 3. Bounds -/

section Bounds

variable {ρ : Type} {ext : Externals ρ} {env env' : Env ρ} {token feeRecipient : Address}
  {maximumDeposit feeBps : Nat}

/-- What a successful deposit checked, and the transfer it asked for. -/
theorem takeDeposit_ok {extData : ExtData} {sender : Address}
    (h : takeDeposit ext token extData sender env = .ok env') :
    (extData.extAmount ≤ 0 ∧ env' = env) ∨
      (0 < extData.extAmount ∧
        (∃ max, env.pool.maximumDepositAmount = some max ∧ extData.extAmount ≤ max) ∧
        ext.transferIn token sender ext.currentContractAddress extData.extAmount env =
          some env') := by
  unfold takeDeposit at h
  split at h
  · next hpos =>
    simp only [i256ToI128Nonneg, bind_eq_ok, read_eq_ok, ensure_eq_ok, okOr_eq_ok,
      toI128_eq_some] at h
    obtain ⟨max, hmax, -, hle, _, ⟨-, -, -, rfl⟩, h⟩ := h
    exact .inr ⟨hpos, ⟨max, hmax, by omega⟩, h⟩
  · next hpos =>
    cases h
    exact .inl ⟨by omega, rfl⟩

theorem Settles.payout_quiet {proof : Proof} {extData : ExtData} {insertOutputs : Bool}
    {t : SettleTrace ρ} (h : Settles ext proof extData insertOutputs env t env') (hq : Quiet ext)
    (hbps : env.pool.feeBps = some feeBps) :
    (0 ≤ extData.extAmount ∧ t.payout = none) ∨
      (extData.extAmount < 0 ∧ -extData.extAmount < 2 ^ 127 ∧
        -extData.extAmount * feeBps < 2 ^ 127 ∧
        t.payout = some (-extData.extAmount - feeOn (-extData.extAmount) feeBps,
          feeOn (-extData.extAmount) feeBps)) := by
  refine calculatePayout_ok ?_ h.payout
  rw [(spendNullifiersOnce_ok h.spend).2.2.1, (h.quiet hq).1]
  exact hbps

/-- **The bounds an accepted call meets.** -/
theorem Request.bounds {r : Request} (hq : Quiet ext)
    (hconfig : Configured token feeRecipient maximumDeposit feeBps env.pool)
    (hok : r.enter ext env = .ok env') :
    |r.extData.extAmount| < 2 ^ 127 ∧ r.extData.extAmount ≤ maximumDeposit ∧
      (r.extData.extAmount < 0 → |r.extData.extAmount| * feeBps < 2 ^ 127) := by
  obtain ⟨env1, t, ht, hexit, hdep⟩ := r.enter_ok hok
  -- the deposit is compared with the maximum, and an exit deposits nothing
  have hdeposit : SamePool env env1 ∧ r.extData.extAmount ≤ maximumDeposit := by
    cases he : r.isExit with
    | true =>
      obtain ⟨rfl, hneg, -⟩ := hexit he
      exact ⟨.refl _, by omega⟩
    | false =>
      obtain ⟨_, -, hdep⟩ := hdep he
      rcases takeDeposit_ok hdep with ⟨hnonpos, rfl⟩ | ⟨-, ⟨max, hmax, hle⟩, htransfer⟩
      · exact ⟨.refl _, by omega⟩
      · rw [hconfig.maximumDepositAmount] at hmax
        cases hmax
        exact ⟨hq.transferIn htransfer, hle⟩
  have hbps : env1.pool.feeBps = some feeBps := by rw [hdeposit.1.1]; exact hconfig.feeBps
  have hamount := ht.amount
  rcases ht.payout_quiet hq hbps with ⟨hnonneg, -⟩ | ⟨hneg, hlt, hprod, -⟩
  · rw [abs_of_nonneg hnonneg]
    exact ⟨hamount.2, hdeposit.2, by omega⟩
  · rw [abs_of_neg hneg]
    exact ⟨hlt, hdeposit.2, fun _ => hprod⟩

end Bounds

/-! ## 4. The public amount -/

/-- Field elements congruent to the same amount are equal. -/
theorem eq_of_congruent {x : Int} {a b : Nat} (ha : a < bn256Modulus) (hb : b < bn256Modulus)
    (hax : (a : F) = x) (hbx : (b : F) = x) : a = b := by
  have hval := congrArg ZMod.val (hax.trans hbx.symm)
  rwa [ZMod.val_natCast_of_lt ha, ZMod.val_natCast_of_lt hb] at hval

/-- Amounts below `2 ^ 248` that are congruent are equal. -/
theorem amount_eq_of_cast {x y : Int} (hx : |x| < 2 ^ 248) (hy : |y| < 2 ^ 248)
    (h : (x : F) = y) : x = y := by
  have hdvd : (bn256Modulus : Int) ∣ x - y := by
    rw [← ZMod.intCast_zmod_eq_zero_iff_dvd, Int.cast_sub, h, sub_self]
  have hprime : (2 : Int) ^ 253 < bn256Modulus := by exact_mod_cast two_pow_253_lt
  have hpow : (2 : Int) ^ 253 = 32 * 2 ^ 248 := by norm_num
  have hzero : x - y = 0 := by
    refine Int.eq_zero_of_abs_lt_dvd hdvd ?_
    have htri := abs_sub x y
    omega
  omega

theorem Request.publicAmount {ρ : Type} {ext : Externals ρ} {env env' : Env ρ} {r : Request}
    (hok : r.enter ext env = .ok env') :
    r.proof.publicAmount < bn256Modulus ∧ |r.extData.extAmount| < 2 ^ 248 ∧
      (r.proof.publicAmount : F) = r.extData.extAmount := by
  obtain ⟨env1, t, ht, -⟩ := r.enter_ok hok
  exact ⟨ht.fieldElements.publicAmount, calculatePublicAmount_ok ht.publicAmount⟩

/-! ## 5. The transfers -/

section Transfers

variable {τ : Type} {n : Neighbours τ} {env env' : Env (Ledger τ)} {token feeRecipient : Address}
  {maximumDeposit feeBps : Nat}

/-- Up to the payout no token is asked. -/
theorem Settles.moved {proof : Proof} {extData : ExtData} {insertOutputs : Bool}
    {t : SettleTrace (Ledger τ)}
    (h : Settles n.externals proof extData insertOutputs env t env')
    (hconfig : Configured token feeRecipient maximumDeposit feeBps env.pool) :
    n.Moved token
      (if extData.extAmount < 0 then
        Neighbours.payments token n.this extData.recipient feeRecipient
          (-extData.extAmount - feeOn (-extData.extAmount) feeBps)
          (feeOn (-extData.extAmount) feeBps)
      else []) env.rest env'.rest := by
  obtain ⟨hver, hpool, -⟩ := h.quiet n.quiet_externals
  have hverified : t.verified.rest = env.rest := by
    have h1 := h.memberRoot
    have h2 := h.accepted
    simp only [getAspMembershipRoot, verifyProof, Neighbours.externals, bind_eq_ok, okOr_eq_ok,
      Option.map_eq_some_iff, Prod.mk.injEq] at h1 h2
    obtain ⟨_, -, _, -, -, h1⟩ := h1
    obtain ⟨_, -, _, -, _, -, -, h2⟩ := h2
    rw [← h2, ← h1]
  have htoken : t.token = token := by
    have := h.token_quiet n.quiet_externals
    rw [hconfig.token] at this
    exact (Option.some.inj this).symm
  have hfee : t.stored.feeRecipient = some feeRecipient := by
    rw [h.stored_eq, hver]
    exact hconfig.feeRecipient
  have hpay := h.pay
  rw [htoken] at hpay
  rw [h.final]
  rcases h.payout_quiet n.quiet_externals hconfig.feeBps with ⟨hnonneg, hp⟩ | ⟨hneg, -, -, hp⟩
  · rw [hp] at hpay
    rw [if_neg (by omega), ← hverified, ← Except.ok.inj hpay]
    exact .refl _
  · rw [hp] at hpay
    rw [if_pos hneg, ← hverified]
    have hmoved := Neighbours.payOut_moved (by exact hfee) hpay
    exact hmoved

/-- **What an accepted call moves.** -/
theorem Request.moved {r : Request}
    (hconfig : Configured token feeRecipient maximumDeposit feeBps env.pool)
    (hok : r.enter n.externals env = .ok env') :
    n.Moved token
      (if 0 < r.extData.extAmount then [⟨token, r.sender, n.this, r.extData.extAmount⟩]
      else if r.extData.extAmount < 0 then
        Neighbours.payments token n.this r.extData.recipient feeRecipient
          (-r.extData.extAmount - feeOn (-r.extData.extAmount) feeBps)
          (feeOn (-r.extData.extAmount) feeBps)
      else []) env.rest env'.rest := by
  obtain ⟨env1, t, ht, hexit, hdep⟩ := r.enter_ok hok
  cases he : r.isExit with
  | true =>
    obtain ⟨rfl, hneg, -⟩ := hexit he
    rw [if_neg (by omega)]
    exact ht.moved hconfig
  | false =>
    obtain ⟨tok, htok, hdep⟩ := hdep he
    rw [hconfig.token] at htok
    cases htok
    rcases takeDeposit_ok hdep with ⟨hnonpos, rfl⟩ | ⟨hpos, -, htransfer⟩
    · rw [if_neg (by omega)]
      exact ht.moved hconfig
    · obtain ⟨hsame, hin⟩ := Neighbours.transfer_ok htransfer
      have hset := ht.moved (hsame.1 ▸ hconfig)
      rw [if_neg (by omega)] at hset
      rw [if_pos hpos]
      have hboth := hin.trans hset
      rw [List.append_nil] at hboth
      exact hboth

end Transfers

/-! ## 6. The boundary -/

/-- **Value crosses the boundary exactly.**  For every pool a constructor accepted, after any run
of its entry points, and every `transact` or `exit` of the external amount `x`:

* accepted, `x` fits an `i128` and its absolute value does; the public amount is the one field
  element congruent to `x`, and no other amount an accepted call may have has it;
* accepted with `x > 0`, the one transfer made is that of `x` from the sender to the pool, and
  `x` is at most the maximum; with `x = 0` none is made; with `x < 0` the pool pays the recipient
  `|x| - f` and the fee recipient `f`, where `f` is the fee on `|x|` rounded down, and nothing
  else is transferred.  The balances change accordingly;
* a call is refused, and leaves nothing behind, if `|x|` does not fit, if `x` is above the
  maximum, or if the fee's product does not fit on a withdrawal. -/
theorem value_crosses_exactly {τ : Type} {admin token verifier asp feeRecipient : Address}
    {maximumDeposit feeBps L : Nat} {s0 : PoolStorage}
    (h0 : constructor admin token verifier asp maximumDeposit feeRecipient feeBps L = .ok s0)
    (n : Neighbours τ) (ledger : Ledger τ) (entries : List (Entry (Ledger τ)))
    (hq : ∀ e ∈ entries, e.Quiet) (r : Request) :
    let env := run Entry.exec entries ⟨s0, [], ledger⟩
    let x := r.extData.extAmount
    (∀ env', r.enter n.externals env = .ok env' →
      |x| < 2 ^ 127 ∧
      (r.proof.publicAmount < bn256Modulus ∧ (r.proof.publicAmount : F) = x ∧
        ∀ a < bn256Modulus, (a : F) = x → a = r.proof.publicAmount) ∧
      (∀ (r1 : Request) (env1 env1' : Env (Ledger τ)), r1.enter n.externals env1 = .ok env1' →
        r1.extData.extAmount ≠ x → r1.proof.publicAmount ≠ r.proof.publicAmount) ∧
      (0 < x → x ≤ maximumDeposit ∧
        n.Moved token [⟨token, r.sender, n.this, x⟩] env.rest env'.rest) ∧
      (x = 0 → n.Moved token [] env.rest env'.rest) ∧
      (x < 0 → 0 ≤ |x| * feeBps / 10000 ∧ 0 ≤ |x| - |x| * feeBps / 10000 ∧
        n.Moved token ([⟨token, n.this, r.extData.recipient, |x| - |x| * feeBps / 10000⟩,
          ⟨token, n.this, feeRecipient, |x| * feeBps / 10000⟩].filter (0 < ·.amount))
          env.rest env'.rest)) ∧
    (2 ^ 127 ≤ |x| ∨ maximumDeposit < x ∨ (x < 0 ∧ 2 ^ 127 ≤ |x| * feeBps) →
      (∃ e, r.enter n.externals env = .error e) ∧
        run (Request.enter · n.externals) [r] env = env) := by
  intro env x
  obtain ⟨hmax, -, -, -, -, htoken, -, -, hdeposit, hrecipient, hbps⟩ := constructor_ok h0
  have hconfig : Configured token feeRecipient maximumDeposit feeBps env.pool :=
    Configured.run ⟨htoken, hrecipient, hdeposit, hbps⟩ hq
  refine ⟨fun env' hok => ?_, fun hover => ?_⟩
  · have hbounds := Request.bounds n.quiet_externals hconfig hok
    obtain ⟨hfield, hsmall, hcast⟩ := Request.publicAmount hok
    have hmoved := Request.moved hconfig hok
    refine ⟨hbounds.1, ⟨hfield, hcast, fun a ha hax => eq_of_congruent ha hfield hax hcast⟩,
      fun r1 env1 env1' hok1 hne heq => ?_, fun hpos => ?_, fun hzero => ?_, fun hneg => ?_⟩
    · obtain ⟨-, hsmall1, hcast1⟩ := Request.publicAmount hok1
      exact hne (amount_eq_of_cast hsmall1 hsmall (by rw [← hcast1, heq, hcast]))
    · rw [if_pos hpos] at hmoved
      exact ⟨hbounds.2.1, hmoved⟩
    · rw [if_neg (by omega), if_neg (by omega)] at hmoved
      exact hmoved
    · obtain ⟨hfee, hle⟩ := feeOn_bounds (show 0 ≤ -x by omega) hmax
      rw [if_neg (by omega), if_pos hneg] at hmoved
      rw [abs_of_neg hneg]
      exact ⟨hfee, Int.sub_nonneg.mpr hle, hmoved⟩
  · -- an accepted call would meet the bounds
    cases hr : r.enter n.externals env with
    | error e => exact ⟨⟨e, rfl⟩, by rw [run_cons, hr]; rfl⟩
    | ok env' =>
      obtain ⟨hx, hle, hprod⟩ := Request.bounds n.quiet_externals hconfig hr
      rcases hover with h | h | ⟨hneg, h⟩
      · exact absurd hx (not_lt.mpr h)
      · exact absurd hle (not_le.mpr h)
      · exact absurd (hprod hneg) (not_lt.mpr h)

/-- Tokens with balances in one table, an allowlist that answers 0, and a verifier that accepts. -/
def agreeableNeighbours : Neighbours (Address → Nat) where
  this := .contract 6
  digest _ := 0
  token _ := Solvency.tableToken
  getRoot _ _ := some 0
  verify _ _ _ _ := some true

def withdrawal : Request := { fillingCall.request with
  proof := { fillingCall.request.proof with publicAmount := bn256Modulus - 1000 }
  extData := ⟨.account 7, -1000, [], []⟩ }

/-- A withdrawal of 1000 at 30 basis points pays 997 and 3. -/
theorem value_crosses_exactly_withdrawal : ∃ s0 env',
    constructor (.account 1) (.contract 2) (.contract 3) (.contract 4) 1000 (.account 5) 30 1 =
      .ok s0 ∧
    withdrawal.enter agreeableNeighbours.externals ⟨s0, [], ⟨fun _ => 5000, []⟩⟩ = .ok env' ∧
    env'.rest.transfers = [⟨.contract 2, .contract 6, .account 7, 997⟩,
      ⟨.contract 2, .contract 6, .account 5, 3⟩] := by
  have hrun : okAnd (constructor (.account 1) (.contract 2) (.contract 3) (.contract 4) 1000
      (.account 5) 30 1) (fun s0 => (withdrawal.enter agreeableNeighbours.externals
        ⟨s0, [], ⟨fun _ => 5000, []⟩⟩).isOk) = true := by decide +kernel
  obtain ⟨s0, h0, hok⟩ := okAnd_eq_true.mp hrun
  cases hr : withdrawal.enter agreeableNeighbours.externals ⟨s0, [], ⟨fun _ => 5000, []⟩⟩ with
  | error e =>
    rw [hr] at hok
    cases hok
  | ok env' =>
    have hexact := (value_crosses_exactly h0 agreeableNeighbours ⟨fun _ => 5000, []⟩ [] (by simp)
      withdrawal).1 env' hr
    have hmoved := (hexact.2.2.2.2.2 (by decide)).2.2
    exact ⟨s0, env', h0, hr, hmoved.transfers⟩

end Pool

end Veil
