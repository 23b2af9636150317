/-
# The pool's storage over a history of calls

The host does forbid re-entry, so in a real history the callees leave the pool's storage and
events alone (`Quiet`).  Then an accepted call's writes are exactly the ones `settle` makes itself,
and one invariant describes the pool after any history:

* `PoolHolds L leaves s`: the tree is the one over `leaves`, the leaves are distinct, and the
  recorded commitments are these leaves and nothing else.

`PoolHolds.settles` carries it through a call, with or without the insertion.
-/
import Veil.Contract.Reentrancy

namespace Veil

open Tx

namespace Pool

variable {ρ : Type} {ext : Externals ρ} {env env' : Env ρ} {proof : Proof} {extData : ExtData}
  {insertOutputs : Bool} {t : SettleTrace ρ}

/-! ## 1. Quiet callees -/

/-- The pool's storage and events are untouched. -/
def SamePool (env env' : Env ρ) : Prop := env'.pool = env.pool ∧ env'.events = env.events

theorem SamePool.refl (env : Env ρ) : SamePool env env := ⟨rfl, rfl⟩

theorem SamePool.trans {env1 env2 : Env ρ} (h : SamePool env env1) (h1 : SamePool env1 env2) :
    SamePool env env2 := ⟨h1.1.trans h.1, h1.2.trans h.2⟩

/-- Callees that do not touch the pool. -/
abbrev Quiet (ext : Externals ρ) : Prop := Respects ext SamePool

theorem Respects.mono {R S : Env ρ → Env ρ → Prop} (h : Respects ext R)
    (hRS : ∀ {e e'}, R e e' → S e e') : Respects ext S where
  transferIn hok := hRS (h.transferIn hok)
  getRoot hok := hRS (h.getRoot hok)
  verify hok := hRS (h.verify hok)
  transferOut hok := hRS (h.transferOut hok)
  transferFee hok := hRS (h.transferFee hok)

/-- **With quiet callees only `settle` itself writes**: the storage it verified in is the one it
was called on, and the storage it leaves is the one it stored. -/
theorem Settles.quiet (h : Settles ext proof extData insertOutputs env t env') (hq : Quiet ext) :
    t.verified.pool = env.pool ∧ env'.pool = t.stored ∧
      env'.events = env.events ++ proof.inputNullifiers.map .newNullifier ++
        settlementEvents ext.currentContractAddress t.token proof extData extData.extAmount
          (t.payout.map fun _ => extData.recipient) t.inserted := by
  obtain ⟨hp, he⟩ := (hq.getAspMembershipRoot h.memberRoot).trans (hq.verifyProof h.accepted)
  obtain ⟨hp', he'⟩ := hq.payOut SamePool.refl SamePool.trans h.pay
  rw [h.final]
  exact ⟨hp, hp', by rw [he', he]⟩

/-- The configuration is no part of what `settle` writes. -/
theorem Settles.stored_eq (h : Settles ext proof extData insertOutputs env t env') :
    t.stored = { t.verified.pool with
      nullifiers := t.stored.nullifiers
      commitments := t.stored.commitments
      tree := t.stored.tree } := by
  have hs := (spendNullifiersOnce_ok h.spend).2.2.1
  have hi := h.insert
  cases insertOutputs with
  | true =>
    obtain ⟨-, -, -, hi, -⟩ := insertOutputNotes_ok hi
    rw [hi, hs]
  | false =>
    simp only [insertOutputNotes, Bool.false_eq_true, if_false, Except.ok.injEq,
      Prod.mk.injEq] at hi
    rw [← hi.2, hs]

/-- So with quiet callees an accepted call leaves the configuration as it was. -/
theorem Settles.config (h : Settles ext proof extData insertOutputs env t env') (hq : Quiet ext) :
    env'.pool = { env.pool with
      nullifiers := env'.pool.nullifiers
      commitments := env'.pool.commitments
      tree := env'.pool.tree } := by
  obtain ⟨hver, hpool, -⟩ := h.quiet hq
  rw [hpool, ← hver]
  exact h.stored_eq

/-- On the exit path neither the tree nor the commitment map is written. -/
theorem Settles.stored_exit (h : Settles ext proof extData false env t env') :
    t.inserted = none ∧ t.stored.tree = t.verified.pool.tree ∧
      t.stored.commitments = t.verified.pool.commitments := by
  have hs := (spendNullifiersOnce_ok h.spend).2.2.1
  have hi := h.insert
  simp only [insertOutputNotes, Bool.false_eq_true, if_false, Except.ok.injEq,
    Prod.mk.injEq] at hi
  refine ⟨hi.1.symm, ?_, ?_⟩ <;> rw [← hi.2, hs]

/-! ## 2. The invariant -/

/-- **The pool holds the notes `leaves`.** -/
structure PoolHolds (L : Nat) (leaves : List Nat) (s : PoolStorage) : Prop where
  tree : MerkleTreeWithHistory.Holds L leaves s.tree
  nodup : leaves.Nodup
  recorded : ∀ c, s.inserted c = true ↔ c ∈ leaves

/-- The pool's constructor accepts the depths the tree accepts, and leaves an empty pool. -/
theorem constructor_ok {admin token verifier asp feeRecipient : Address}
    {maximumDeposit feeBps L : Nat} {s : PoolStorage}
    (h : constructor admin token verifier asp maximumDeposit feeRecipient feeBps L = .ok s) :
    feeBps ≤ maxFeeBps ∧ 1 ≤ L ∧ L ≤ 32 ∧ PoolHolds L [] s ∧ (∀ n, s.spent n = false) ∧
      s.token = some token ∧ s.verifier = some verifier ∧ s.aspMembership = some asp ∧
      s.maximumDepositAmount = some maximumDeposit ∧ s.feeRecipient = some feeRecipient ∧
      s.feeBps = some feeBps := by
  simp only [constructor, bind_eq_ok, ensure_eq_ok, liftMerkle_eq_ok, Except.ok.injEq] at h
  obtain ⟨-, hfee, tree, htree, rfl⟩ := h
  have hL : L ≠ 0 ∧ L ≤ 32 := by
    obtain ⟨_, hL, -⟩ := bind_eq_ok.mp htree
    exact ensure_eq_ok.mp hL
  obtain ⟨tree', htree', hh⟩ := MerkleTreeWithHistory.holds_init (Nat.pos_of_ne_zero hL.1) hL.2
  obtain rfl : tree' = tree := Except.ok.inj (htree'.symm.trans htree)
  exact ⟨Nat.not_lt.mp hfee, Nat.pos_of_ne_zero hL.1, hL.2,
    ⟨hh, List.nodup_nil, by simp [PoolStorage.inserted]⟩, fun _ => rfl, rfl, rfl, rfl, rfl, rfl,
    rfl⟩

variable {L : Nat} {leaves : List Nat}

/-- **One accepted call.**  The insertion appends the two outputs, at the next two indices. -/
theorem PoolHolds.settles (h : PoolHolds L leaves env.pool) (hq : Quiet ext)
    (hs : Settles ext proof extData insertOutputs env t env') :
    PoolHolds L (leaves ++ Settled.outputs ⟨proof, insertOutputs⟩) env'.pool ∧
      t.inserted = if insertOutputs then some (leaves.length, leaves.length + 1) else none := by
  obtain ⟨hver, hpool, -⟩ := hs.quiet hq
  have hg := hs.grows
  rw [hver] at hg
  have hnodup : (leaves ++ Settled.outputs ⟨proof, insertOutputs⟩).Nodup := by
    refine List.nodup_append.mpr ⟨h.nodup, hg.commitments_nodup, fun a ha b hb hab => ?_⟩
    have hfresh := hg.commitments_fresh b hb
    rw [(h.recorded b).mpr (hab ▸ ha)] at hfresh
    cases hfresh
  have hrec : ∀ c, env'.pool.inserted c = true ↔
      c ∈ leaves ++ Settled.outputs ⟨proof, insertOutputs⟩ := fun c => by
    rw [hpool, hg.inserted c, List.mem_append, ← h.recorded c]
    simp [or_comm]
  cases insertOutputs with
  | true =>
    obtain ⟨idx, hidx, htree, -⟩ := insertOutputNotes_ok hs.insert
    have hspent : t.spent.tree = env.pool.tree := by
      rw [(spendNullifiersOnce_ok hs.spend).2.2.1, ← hver]
    rw [hspent] at htree
    obtain ⟨rfl, hh⟩ := h.tree.of_insertTwoLeaves htree
    exact ⟨⟨by rw [hpool]; exact hh, hnodup, hrec⟩, hidx⟩
  | false =>
    obtain ⟨hnone, htree, -⟩ := hs.stored_exit
    refine ⟨⟨?_, hnodup, hrec⟩, hnone⟩
    rw [hpool, htree, hver, Settled.outputs]
    simpa using h.tree

end Pool

end Veil
