/-
# What a call touches, and what its events say

A refused call leaves the pool as it was.  An accepted `transact` or `exit` writes a few entries
of the storage and announces them:

* `TransactEffect` and `ExitEffect` name everything an accepted call changes, and its events, for
  ANY state of the pool;
* `replay` is an observer who sees the events only.  It knows the spent nullifiers and the leaves,
  and gives up on an event that does not fit what it has seen;
* `Replayable` says that the observer knows the pool.  Every accepted entry point keeps it
  (`Replayable.exec`), so the events of any run from the constructor are the pool
  (`replay_reconstructs_the_pool`).
-/
import Veil.Contract.OneWayOut

namespace Veil

open Tx

namespace Pool

variable {ρ : Type}

/-! ## 1. Entry points -/

/-- A call of the pool.  A settlement comes with what the other contracts do. -/
inductive Entry (ρ : Type) where
  | request (r : Request) (ext : Externals ρ)
  | register (auth : Address → Bool) (account : Account)
  | deposit (sender : Address) (amount : Int) (commitment : Nat)
  | updateAdmin (auth : Address → Bool) (newAdmin : Address)
  | updateVerifier (auth : Address → Bool) (newVerifier : Address)
  | updateAspMembership (auth : Address → Bool) (newAspMembership : Address)

namespace Entry

def exec : Entry ρ → Env ρ → Result (Env ρ)
  | .request r ext => r.enter ext
  | .register auth account => Pool.register auth account
  | .deposit sender amount commitment => Pool.deposit sender amount commitment
  | .updateAdmin auth newAdmin => Pool.updateAdmin auth newAdmin
  | .updateVerifier auth newVerifier => Pool.updateVerifier auth newVerifier
  | .updateAspMembership auth newAspMembership => Pool.updateAspMembership auth newAspMembership

/-- The host forbids re-entry. -/
def Quiet : Entry ρ → Prop
  | .request _ ext => Pool.Quiet ext
  | _ => True

/-- The settlement an accepted call is. -/
def settled : Entry ρ → List Settled
  | .request r _ => [⟨r.proof, !r.isExit⟩]
  | _ => []

/-- What an accepted call other than a settlement may do: change an address it is configured
with, or announce keys. -/
structure Administers (e : Entry ρ) (env env' : Env ρ) : Prop where
  settled : e.settled = []
  rest : env'.rest = env.rest
  pool : env'.pool = { env.pool with
    admin := env'.pool.admin
    verifier := env'.pool.verifier
    aspMembership := env'.pool.aspMembership }
  events : ∃ accounts : List Account, env'.events = env.events ++
    accounts.map fun a => .publicKey a.owner a.encryptionKey a.noteKey

theorem exec_cases {e : Entry ρ} {env env' : Env ρ} (hok : e.exec env = .ok env') :
    (∃ r ext, e = .request r ext ∧ r.enter ext env = .ok env') ∨ Administers e env env' := by
  cases e with
  | request r ext => exact .inl ⟨r, ext, rfl, hok⟩
  | register auth account =>
    simp only [exec, Pool.register, bind_eq_ok, Except.ok.injEq] at hok
    obtain ⟨-, -, rfl⟩ := hok
    exact .inr ⟨rfl, rfl, rfl, [account], rfl⟩
  | deposit sender amount commitment => cases hok
  | updateAdmin auth newAdmin =>
    simp only [exec, Pool.updateAdmin, bind_eq_ok, Except.ok.injEq] at hok
    obtain ⟨-, -, -, -, -, -, rfl⟩ := hok
    exact .inr ⟨rfl, rfl, rfl, [], by simp⟩
  | updateVerifier auth newVerifier =>
    simp only [exec, Pool.updateVerifier, bind_eq_ok, Except.ok.injEq] at hok
    obtain ⟨-, -, -, -, rfl⟩ := hok
    exact .inr ⟨rfl, rfl, rfl, [], by simp⟩
  | updateAspMembership auth newAspMembership =>
    simp only [exec, Pool.updateAspMembership, bind_eq_ok, Except.ok.injEq] at hok
    obtain ⟨-, -, -, -, rfl⟩ := hok
    exact .inr ⟨rfl, rfl, rfl, [], by simp⟩

end Entry

/-- The settlements among some calls. -/
def settlements (log : List (Entry ρ)) : List Settled := log.flatMap Entry.settled

/-! ## 2. Effects -/

/-- From `p` to `p'` exactly the elements of `l` were added, all of them new. -/
structure Adds (l : List Nat) (p p' : Nat → Bool) : Prop where
  distinct : l.Nodup
  fresh : ∀ x ∈ l, p x = false
  added : ∀ x, p' x = true ↔ x ∈ l ∨ p x = true

/-- The recipient a settlement event names: the one of a withdrawal. -/
def withdrawalRecipient (extData : ExtData) : Option Address :=
  if extData.extAmount < 0 then some extData.recipient else none

/-- **Everything an accepted `exit` changes in the pool.** -/
structure ExitEffect (this : Address) (proof : Proof) (extData : ExtData) (env env' : Env ρ) :
    Prop where
  storage : env'.pool = { env.pool with nullifiers := env'.pool.nullifiers }
  spent : Adds proof.inputNullifiers env.pool.spent env'.pool.spent
  events : ∃ token, env.pool.token = some token ∧
    env'.events = env.events ++ proof.inputNullifiers.map .newNullifier ++
      proof.inputNullifiers.map fun n =>
        .exit n this extData.extAmount proof.publicAmount extData.recipient token

/-- **Everything an accepted `transact` changes in the pool.** -/
structure TransactEffect (this : Address) (proof : Proof) (extData : ExtData)
    (env env' : Env ρ) : Prop where
  storage : env'.pool = { env.pool with
    nullifiers := env'.pool.nullifiers
    commitments := env'.pool.commitments
    tree := env'.pool.tree }
  spent : Adds proof.inputNullifiers env.pool.spent env'.pool.spent
  inserted : Adds [proof.outputCommitment0, proof.outputCommitment1] env.pool.inserted
    env'.pool.inserted
  events : ∃ token index, env.pool.token = some token ∧
    MerkleTreeWithHistory.InsertedTwo (index, index + 1) env.pool.tree env'.pool.tree ∧
    env'.events = env.events ++ proof.inputNullifiers.map .newNullifier ++
      [.newCommitment proof.outputCommitment0 index extData.encryptedOutput0,
       .newCommitment proof.outputCommitment1 (index + 1) extData.encryptedOutput1] ++
      proof.inputNullifiers.map fun n =>
        .settlement n this proof.outputCommitment0 proof.outputCommitment1 index (index + 1)
          extData.extAmount proof.publicAmount (withdrawalRecipient extData) token

section Effects

variable {ext : Externals ρ} {env env' : Env ρ} {proof : Proof} {extData : ExtData}
  {insertOutputs : Bool} {t : SettleTrace ρ}

theorem Grows.adds_spent {s s' : PoolStorage} {ns cs is : List Nat} (h : Grows s s' ns cs is) :
    Adds ns s.spent s'.spent where
  distinct := h.nullifiers_nodup
  fresh := h.nullifiers_fresh
  added n := by rw [h.spent n]; simp

theorem Grows.adds_inserted {s s' : PoolStorage} {ns cs is : List Nat}
    (h : Grows s s' ns cs is) : Adds cs s.inserted s'.inserted where
  distinct := h.commitments_nodup
  fresh := h.commitments_fresh
  added c := by rw [h.inserted c]; simp

/-- A payout is worked out for a withdrawal and for nothing else. -/
theorem map_calculatePayout {s : PoolStorage} {payout : Option (Int × Int)}
    (h : calculatePayout extData s = .ok payout) :
    (payout.map fun _ => extData.recipient) = withdrawalRecipient extData := by
  unfold calculatePayout at h
  unfold withdrawalRecipient
  split at h
  · next hneg =>
    simp only [bind_eq_ok, Except.ok.injEq] at h
    obtain ⟨-, -, -, -, -, -, -, -, -, -, rfl⟩ := h
    rw [if_pos hneg]
    rfl
  · next hpos =>
    cases h
    rw [if_neg hpos]
    rfl

/-- The nullifiers, the outputs and the events of an accepted call, on quiet callees. -/
theorem Settles.grows_quiet (h : Settles ext proof extData insertOutputs env t env')
    (hq : Quiet ext) :
    Grows env.pool env'.pool proof.inputNullifiers (Settled.outputs ⟨proof, insertOutputs⟩)
      (insertedIndices t.inserted) := by
  obtain ⟨hver, hpool, -⟩ := h.quiet hq
  have hgrows := h.grows
  rwa [hver, ← hpool] at hgrows

theorem Settles.token_quiet (h : Settles ext proof extData insertOutputs env t env')
    (hq : Quiet ext) : env.pool.token = some t.token := by
  obtain ⟨hver, -, -⟩ := h.quiet hq
  rw [← h.token, (spendNullifiersOnce_ok h.spend).2.2.1, hver]

/-- What lies outside the pool changes through the callees only. -/
theorem Settles.rest_respects (h : Settles ext proof extData insertOutputs env t env')
    {R : ρ → ρ → Prop} (hrefl : ∀ x, R x x) (htrans : ∀ x y z, R x y → R y z → R x z)
    (hext : Respects ext fun e e' => R e.rest e'.rest) : R env.rest env'.rest := by
  have hasked := hext.getAspMembershipRoot h.memberRoot
  have hverified := hext.verifyProof h.accepted
  have hpaid := hext.payOut (fun e => hrefl e.rest) (htrans _ _ _) h.pay
  rw [h.final]
  exact htrans _ _ _ (htrans _ _ _ hasked hverified) hpaid

theorem Settles.exitEffect (h : Settles ext proof extData false env t env') (hq : Quiet ext) :
    ExitEffect ext.currentContractAddress proof extData env env' := by
  obtain ⟨hver, hpool, hevents⟩ := h.quiet hq
  obtain ⟨hnone, htree, hcomm⟩ := h.stored_exit
  refine ⟨?_, (h.grows_quiet hq).adds_spent, t.token, h.token_quiet hq, ?_⟩
  · have hconfig := h.config hq
    rw [hpool, htree, hcomm, hver] at hconfig
    rw [hpool]
    exact hconfig
  · rw [hevents, hnone]
    rfl

theorem Settles.transactEffect (h : Settles ext proof extData true env t env') (hq : Quiet ext) :
    TransactEffect ext.currentContractAddress proof extData env env' := by
  obtain ⟨hver, hpool, hevents⟩ := h.quiet hq
  have hgrows := h.grows_quiet hq
  obtain ⟨idx, hidx, htree, -⟩ := insertOutputNotes_ok h.insert
  have hframe := MerkleTreeWithHistory.insertTwoLeaves_frame htree
  rw [(spendNullifiersOnce_ok h.spend).2.2.1, hver, ← hpool] at hframe
  obtain ⟨index, -, rfl, -⟩ := hframe.nextIndex
  refine ⟨h.config hq, hgrows.adds_spent, hgrows.adds_inserted, t.token, index, h.token_quiet hq,
    hframe, ?_⟩
  rw [hevents, hidx, map_calculatePayout h.payout, settlementEvents, List.append_assoc _ [_, _]]

end Effects

/-- The effect of an accepted settlement. -/
def RequestEffect (this : Address) (r : Request) (env env' : Env ρ) : Prop :=
  if r.isExit then ExitEffect this r.proof r.extData env env'
  else TransactEffect this r.proof r.extData env env'

/-- The deposit comes first, and does not touch the pool. -/
theorem Request.effect {r : Request} {ext : Externals ρ} {env env' : Env ρ} (hq : Quiet ext)
    (hok : r.enter ext env = .ok env') :
    RequestEffect ext.currentContractAddress r env env' := by
  obtain ⟨env1, t, hsame, ht, -⟩ := r.enter_respects hq SamePool.refl hok
  unfold RequestEffect
  cases hexit : r.isExit with
  | true =>
    rw [hexit] at ht
    obtain ⟨h1, h2, h3⟩ := ht.exitEffect hq
    rw [hsame.1, hsame.2] at *
    exact ⟨h1, h2, h3⟩
  | false =>
    rw [hexit] at ht
    obtain ⟨h1, h2, h3, h4⟩ := ht.transactEffect hq
    rw [hsame.1, hsame.2] at *
    exact ⟨h1, h2, h3, h4⟩

theorem Request.rest_respects {r : Request} {ext : Externals ρ} {env env' : Env ρ}
    {R : ρ → ρ → Prop} (hrefl : ∀ x, R x x) (htrans : ∀ x y z, R x y → R y z → R x z)
    (hext : Respects ext fun e e' => R e.rest e'.rest) (hok : r.enter ext env = .ok env') :
    R env.rest env'.rest := by
  obtain ⟨env1, t, hdep, ht, -⟩ := r.enter_respects hext (fun e => hrefl e.rest) hok
  exact htrans _ _ _ hdep (ht.rest_respects hrefl htrans hext)

/-! ## 3. An observer of the events -/

/-- What the events have told so far. -/
structure Replayed where
  nullifiers : List Nat
  leaves : List Nat
  deriving DecidableEq, Repr

/-- One more event.  A nullifier announced twice, or a leaf that is not at the next position, does
not fit. -/
def Replayed.see (r : Replayed) : PoolEvent → Option Replayed
  | .newNullifier n =>
    if n ∈ r.nullifiers then none else some { r with nullifiers := r.nullifiers ++ [n] }
  | .newCommitment commitment index _ =>
    if index = r.leaves.length then some { r with leaves := r.leaves ++ [commitment] } else none
  | _ => some r

/-- Replay events from the empty state. -/
def replay (events : List PoolEvent) : Option Replayed := events.foldlM Replayed.see ⟨[], []⟩

section Observer

variable {r : Replayed}

theorem replay_append {events : List PoolEvent} (h : replay events = some r)
    (more : List PoolEvent) : replay (events ++ more) = more.foldlM Replayed.see r := by
  rw [replay, List.foldlM_append]
  change (replay events).bind _ = _
  rw [h]
  rfl

/-- Events the observer has no use for. -/
theorem Replayed.foldlM_of_see {events : List PoolEvent} (h : ∀ e ∈ events, r.see e = some r) :
    events.foldlM see r = some r := by
  induction events with
  | nil => rfl
  | cons e events ih =>
    rw [List.foldlM_cons, h e List.mem_cons_self]
    exact ih fun e' he' => h e' (List.mem_cons_of_mem _ he')

theorem Replayed.foldlM_newNullifiers : ∀ (ns : List Nat) {r : Replayed},
    (r.nullifiers ++ ns).Nodup →
    (ns.map PoolEvent.newNullifier).foldlM see r =
      some { r with nullifiers := r.nullifiers ++ ns }
  | [], r, _ => by simp
  | n :: ns, r, h => by
    have hn : n ∉ r.nullifiers := fun hmem =>
      (List.nodup_append.mp h).2.2 n hmem n List.mem_cons_self rfl
    rw [List.map_cons, List.foldlM_cons, see, if_neg hn]
    change (ns.map PoolEvent.newNullifier).foldlM see _ = _
    rw [foldlM_newNullifiers ns (by simpa using h)]
    simp

theorem Replayed.foldlM_newCommitments (c0 c1 : Nat) (out0 out1 : List UInt8) :
    [PoolEvent.newCommitment c0 r.leaves.length out0,
      .newCommitment c1 (r.leaves.length + 1) out1].foldlM see r =
      some { r with leaves := r.leaves ++ [c0, c1] } := by
  simp [see]

end Observer

/-! ## 4. Runs -/

/-- **The observer knows the pool.** -/
structure Replayable (L : Nat) (log : List Settled) (env : Env ρ) : Prop where
  replay : replay env.events = some ⟨consumed log, outputs log⟩
  holds : PoolHolds L (outputs log) env.pool
  spent : ∀ n, env.pool.spent n = true ↔ n ∈ consumed log
  nodup : (consumed log).Nodup

section Runs

variable {L : Nat} {log : List Settled} {env env' : Env ρ}

/-- New nullifiers extend the observer's list. -/
theorem Replayable.nodup_append (h : Replayable L log env) {ns : List Nat} {p : Nat → Bool}
    (hns : Adds ns env.pool.spent p) : (consumed log ++ ns).Nodup := by
  refine List.nodup_append.mpr ⟨h.nodup, hns.distinct, fun a ha b hb hab => ?_⟩
  have hfresh := hns.fresh b hb
  rw [(h.spent b).mpr (hab ▸ ha)] at hfresh
  cases hfresh

theorem Replayable.request (h : Replayable L log env) {r : Request} {ext : Externals ρ}
    (hq : Quiet ext) (hok : r.enter ext env = .ok env') :
    Replayable L (log ++ [⟨r.proof, !r.isExit⟩]) env' := by
  obtain ⟨env1, t, hsame, ht, -⟩ := r.enter_respects hq SamePool.refl hok
  obtain ⟨hholds, -⟩ := PoolHolds.settles (hsame.1 ▸ h.holds) hq ht
  have heffect := Request.effect hq hok
  have hcons : consumed (log ++ [⟨r.proof, !r.isExit⟩]) =
      consumed log ++ r.proof.inputNullifiers := by simp [consumed]
  have houts : outputs (log ++ [⟨r.proof, !r.isExit⟩]) =
      outputs log ++ Settled.outputs ⟨r.proof, !r.isExit⟩ := by simp [outputs]
  -- an accepted call adds its nullifiers on either path
  have hspent : Adds r.proof.inputNullifiers env.pool.spent env'.pool.spent := by
    unfold RequestEffect at heffect
    split at heffect
    exacts [heffect.spent, heffect.spent]
  have hnodup := h.nodup_append hspent
  refine ⟨?_, houts ▸ hholds, fun n => ?_, hcons ▸ hnodup⟩
  · rw [hcons, houts]
    unfold RequestEffect at heffect
    cases hexit : r.isExit with
    | true =>
      rw [if_pos hexit] at heffect
      obtain ⟨token, -, hevents⟩ := heffect.events
      rw [hevents, List.append_assoc, replay_append h.replay, List.foldlM_append,
        Replayed.foldlM_newNullifiers _ hnodup]
      refine (Replayed.foldlM_of_see fun e he => ?_).trans (by simp [Settled.outputs])
      obtain ⟨n, -, rfl⟩ := List.mem_map.mp he
      rfl
    | false =>
      rw [if_neg (by simp [hexit])] at heffect
      obtain ⟨token, index, -, htree, hevents⟩ := heffect.events
      -- the position announced is the number of leaves seen
      obtain ⟨n, hn, hidx, -⟩ := htree.nextIndex
      rw [h.holds.tree.nextIndex] at hn
      obtain ⟨rfl, -⟩ := Prod.mk.inj hidx
      obtain rfl := Option.some.inj hn
      rw [hevents, List.append_assoc, List.append_assoc, replay_append h.replay,
        List.foldlM_append, Replayed.foldlM_newNullifiers _ hnodup]
      change List.foldlM Replayed.see _ _ = _
      rw [List.foldlM_append, Replayed.foldlM_newCommitments]
      refine (Replayed.foldlM_of_see fun e he => ?_).trans (by simp [Settled.outputs])
      obtain ⟨n, -, rfl⟩ := List.mem_map.mp he
      rfl
  · rw [hcons, hspent.added n, h.spent n, List.mem_append, or_comm]

theorem Replayable.administers (h : Replayable L log env) {e : Entry ρ}
    (he : e.Administers env env') : Replayable L log env' := by
  obtain ⟨-, -, hpool, accounts, hevents⟩ := he
  have htree : env'.pool.tree = env.pool.tree := by rw [hpool]
  have hins : ∀ c, env'.pool.inserted c = env.pool.inserted c := fun c => by rw [hpool]; rfl
  have hspent : ∀ n, env'.pool.spent n = env.pool.spent n := fun n => by rw [hpool]; rfl
  refine ⟨?_, ⟨htree ▸ h.holds.tree, h.holds.nodup, fun c => by rw [hins, h.holds.recorded]⟩,
    fun n => by rw [hspent, h.spent], h.nodup⟩
  rw [hevents, replay_append h.replay]
  refine Replayed.foldlM_of_see fun e he => ?_
  obtain ⟨a, -, rfl⟩ := List.mem_map.mp he
  rfl

/-- **One accepted entry.** -/
theorem Replayable.exec (h : Replayable L log env) {e : Entry ρ} (hq : e.Quiet)
    (hok : e.exec env = .ok env') : Replayable L (log ++ e.settled) env' := by
  rcases Entry.exec_cases hok with ⟨r, ext, rfl, hok⟩ | he
  · exact h.request hq hok
  · rw [he.settled, List.append_nil]
    exact h.administers he

theorem replayable_constructor {admin token verifier asp feeRecipient : Address}
    {maximumDeposit feeBps : Nat} {s0 : PoolStorage}
    (h0 : constructor admin token verifier asp maximumDeposit feeRecipient feeBps L = .ok s0)
    (rest : ρ) : Replayable L [] ⟨s0, [], rest⟩ := by
  obtain ⟨-, -, -, hempty, hunspent, -⟩ := constructor_ok h0
  exact ⟨rfl, hempty, fun n => by simp [hunspent n, consumed], List.nodup_nil⟩

theorem replayable_run (h : Replayable L [] env) {entries : List (Entry ρ)}
    (hq : ∀ e ∈ entries, e.Quiet) :
    Replayable L (settlements (accepted Entry.exec entries env)) (run Entry.exec entries env) := by
  refine (accepted_induction (P := fun log env => (∀ e ∈ log, e ∈ entries) →
    Replayable L (settlements log) env) (fun log env e env' hP hok hmem => ?_) entries [] env
    (fun _ => h)) (fun e he => (accepted_sublist _ _ _).subset he)
  have hlog : settlements (log ++ [e]) = settlements log ++ e.settled := by simp [settlements]
  rw [hlog]
  exact (hP fun e' he' => hmem e' (List.mem_append_left _ he')).exec
    (hq e (hmem e (List.mem_append_right _ List.mem_cons_self))) hok

end Runs

/-- **The calls touch what they announce, and nothing else.**  For every state of the pool and
every `transact` or `exit`, whatever the other contracts do:

* refused, the call leaves everything as it was;
* accepted, it changes what `RequestEffect` names, and its events say so; outside the pool it
  changes what the callees change.

So an observer who replays the events of any run of a fresh pool, with all its entry points,
knows the spent nullifiers, the leaves in order, and with them the current root. -/
theorem replay_reconstructs_the_pool {admin token verifier asp feeRecipient : Address}
    {maximumDeposit feeBps L : Nat} {s0 : PoolStorage}
    (h0 : constructor admin token verifier asp maximumDeposit feeRecipient feeBps L = .ok s0) :
    (∀ (r : Request) (ext : Externals ρ) (env : Env ρ), Quiet ext →
      (∀ e, r.enter ext env = .error e → run (Request.enter · ext) [r] env = env) ∧
      ∀ env', r.enter ext env = .ok env' →
        RequestEffect ext.currentContractAddress r env env' ∧
        ∀ R : ρ → ρ → Prop, (∀ x, R x x) → (∀ x y z, R x y → R y z → R x z) →
          Respects ext (fun e e' => R e.rest e'.rest) → R env.rest env'.rest) ∧
    ∀ (rest : ρ) (entries : List (Entry ρ)), (∀ e ∈ entries, e.Quiet) →
      let env := run Entry.exec entries ⟨s0, [], rest⟩
      let log := settlements (accepted Entry.exec entries ⟨s0, [], rest⟩)
      replay env.events = some ⟨consumed log, outputs log⟩ ∧
      (∀ n, env.pool.spent n = true ↔ n ∈ consumed log) ∧
      (∀ c, env.pool.inserted c = true ↔ c ∈ outputs log) ∧
      env.pool.tree.nextIndex = some (outputs log).length ∧
      getRoot env.pool = .ok (treeRoot L (outputs log)) := by
  refine ⟨fun r ext env hq => ⟨fun e he => ?_, fun env' hok => ?_⟩,
    fun rest entries hq => ?_⟩
  · rw [run_cons, he]
    rfl
  · exact ⟨Request.effect hq hok, fun R hrefl htrans hext =>
      Request.rest_respects hrefl htrans hext hok⟩
  · intro env log
    have h : Replayable L log env := replayable_run (replayable_constructor h0 rest) hq
    exact ⟨h.replay, h.spent, h.holds.recorded, h.holds.tree.nextIndex, by
      rw [getRoot, h.holds.tree.getLastRoot, liftMerkle_eq_ok.mpr rfl]⟩

/-- One transaction fills a tree of depth 1, and an exit follows. -/
def fillAndExit : List (Entry Unit) :=
  let pay : PoolCall := { fillingCall with
    request := { fillingCall.request with
      proof := { fillingCall.request.proof with inputNullifiers := [5] } } }
  let leave : PoolCall := { fillingCall with
    request := { fillingCall.request with
      isExit := true
      proof := { fillingCall.request.proof with
        inputNullifiers := [6]
        publicAmount := bn256Modulus - 3 }
      extData := ⟨.account 7, -3, [], []⟩ } }
  [.request pay.request (pay.externals (.contract 6) fun _ => 0),
   .request leave.request (leave.externals (.contract 6) fun _ => 0)]

/-- Both are accepted, and their events are the pool. -/
theorem replay_reconstructs_fill_and_exit : ∃ s0,
    constructor (.account 1) (.contract 2) (.contract 3) (.contract 4) 1000 (.account 5) 30 1 =
      .ok s0 ∧
    replay (run Entry.exec fillAndExit ⟨s0, [], ()⟩).events = some ⟨[5, 6], [11, 12]⟩ ∧
    getRoot (run Entry.exec fillAndExit ⟨s0, [], ()⟩).pool = .ok (treeRoot 1 [11, 12]) := by
  have hrun : okAnd (constructor (.account 1) (.contract 2) (.contract 3) (.contract 4) 1000
      (.account 5) 30 1) (fun s0 => (accepted Entry.exec fillAndExit ⟨s0, [], ()⟩).length == 2) =
      true := by decide +kernel
  obtain ⟨s0, h0, hlen⟩ := okAnd_eq_true.mp hrun
  have hall : accepted Entry.exec fillAndExit ⟨s0, [], ()⟩ = fillAndExit :=
    (accepted_sublist _ _ _).eq_of_length (beq_iff_eq.mp hlen)
  have hq : ∀ e ∈ fillAndExit, e.Quiet := by
    intro e he
    rcases List.mem_pair.mp he with rfl | rfl <;> exact PoolCall.quiet _
  have hreplay := (replay_reconstructs_the_pool h0).2 () fillAndExit hq
  rw [hall] at hreplay
  exact ⟨s0, h0, hreplay.1, hreplay.2.2.2.2⟩

end Pool

end Veil
