/-
# The pool under re-entry

Suppose the host did not forbid re-entry: the token, the allowlist or the verifier, when the pool
calls them, may call `transact` and `exit` of the same pool any number of times, to any depth,
before they answer or fail.  A `Frame` is one such call with everything it triggers: the calls
made at each of the five places where `transact` and `exit` leave the contract, and what the
callee answers there.

A frame that fails is undone with all it triggered, and its caller goes on.  So the environment
alone says what survived.  Next to the pool's storage and events it carries the log of the
surviving frames (`Settled`).

The argument is one relation on storages, `Grows`: the consumed nullifiers and the inserted
commitments are new and distinct, the indices handed out are the next ones, and nothing is
removed.  `Grows` composes (`Grows.trans`), one frame's own writes are an instance of it
(`Settles.grows`), and the rest is an induction on the call tree.
-/
import Veil.Contract.Settle

namespace Veil

open Tx

namespace Pool

/-! ## 1. Growth of the storage -/

/-- Consuming `ns`, inserting `cs` at the indices `is`: everything is new, distinct and
contiguous, and nothing that was there is gone. -/
structure Grows (s s' : PoolStorage) (ns cs is : List Nat) : Prop where
  nullifiers_nodup : ns.Nodup
  nullifiers_fresh : ∀ n ∈ ns, s.spent n = false
  spent : ∀ n, s'.spent n = (decide (n ∈ ns) || s.spent n)
  commitments_nodup : cs.Nodup
  commitments_fresh : ∀ c ∈ cs, s.inserted c = false
  inserted : ∀ c, s'.inserted c = (decide (c ∈ cs) || s.inserted c)
  indices : is.Perm (List.range' (s.tree.nextIndex.getD 0) cs.length)
  nextIndex : s'.tree.nextIndex = s.tree.nextIndex.map (· + cs.length)
  unindexed : s.tree.nextIndex = none → cs = []

theorem Grows.refl (s : PoolStorage) : Grows s s [] [] [] where
  nullifiers_nodup := List.nodup_nil
  nullifiers_fresh := by simp
  spent := by simp
  commitments_nodup := List.nodup_nil
  commitments_fresh := by simp
  inserted := by simp
  indices := by simp
  nextIndex := by simp
  unindexed := fun _ => rfl

variable {s s1 s2 : PoolStorage} {ns ns1 ns2 cs cs1 cs2 is is1 is2 : List Nat}

/-- Two lists of new values, the second new after the first, are new together. -/
theorem nodup_append_of_fresh {p p1 : Nat → Bool} {l l1 : List Nat} (h : l.Nodup) (h1 : l1.Nodup)
    (hp : ∀ n, p1 n = (decide (n ∈ l) || p n)) (hf : ∀ n ∈ l, p n = false)
    (hf1 : ∀ n ∈ l1, p1 n = false) :
    (l ++ l1).Nodup ∧ ∀ n ∈ l ++ l1, p n = false := by
  have hnew : ∀ n ∈ l1, n ∉ l ∧ p n = false := fun n hn => by
    have := hf1 n hn
    rw [hp n] at this
    simpa using this
  refine ⟨List.nodup_append.mpr ⟨h, h1, fun a ha b hb hab => (hnew b hb).1 (hab ▸ ha)⟩, ?_⟩
  intro n hn
  rcases List.mem_append.mp hn with hn | hn
  exacts [hf n hn, (hnew n hn).2]

theorem Grows.trans (h : Grows s s1 ns cs is) (h1 : Grows s1 s2 ns1 cs1 is1) :
    Grows s s2 (ns ++ ns1) (cs ++ cs1) (is ++ is1) := by
  obtain ⟨hnd, hfresh⟩ := nodup_append_of_fresh h.nullifiers_nodup h1.nullifiers_nodup h.spent
    h.nullifiers_fresh h1.nullifiers_fresh
  obtain ⟨hcnd, hcfresh⟩ := nodup_append_of_fresh h.commitments_nodup h1.commitments_nodup
    h.inserted h.commitments_fresh h1.commitments_fresh
  refine ⟨hnd, hfresh, fun n => ?_, hcnd, hcfresh, fun c => ?_, ?_, ?_, fun hnone => ?_⟩
  · rw [h1.spent, h.spent]
    simp [Bool.or_left_comm, Bool.or_assoc]
  · rw [h1.inserted, h.inserted]
    simp [Bool.or_left_comm, Bool.or_assoc]
  · cases hn : s.tree.nextIndex with
    | none =>
      have hi := h.indices
      have hi1 := h1.indices
      rw [h.unindexed hn] at hi ⊢
      have hn1 : s1.tree.nextIndex = none := by rw [h.nextIndex, hn]; rfl
      rw [h1.unindexed hn1] at hi1 ⊢
      simp only [List.length_nil, List.range'_zero, List.perm_nil] at hi hi1
      simp [hi, hi1]
    | some n =>
      have hi := h.indices
      have hi1 := h1.indices
      rw [h.nextIndex, hn] at hi1
      rw [hn] at hi
      simp only [Option.map_some, Option.getD_some] at hi hi1
      rw [Option.getD_some, List.length_append, ← List.range'_append_1]
      exact hi.append hi1
  · rw [h1.nextIndex, h.nextIndex, List.length_append]
    cases s.tree.nextIndex <;> simp [Nat.add_assoc]
  · have hn1 : s1.tree.nextIndex = none := by rw [h.nextIndex, hnone]; rfl
    rw [h.unindexed hnone, h1.unindexed hn1]
    rfl

theorem Grows.perm (h : Grows s s1 ns cs is) (hn : ns.Perm ns1) (hc : cs.Perm cs1)
    (hi : is.Perm is1) : Grows s s1 ns1 cs1 is1 where
  nullifiers_nodup := hn.nodup_iff.mp h.nullifiers_nodup
  nullifiers_fresh n hm := h.nullifiers_fresh n (hn.mem_iff.mpr hm)
  spent n := by rw [h.spent n, decide_eq_decide.mpr hn.mem_iff]
  commitments_nodup := hc.nodup_iff.mp h.commitments_nodup
  commitments_fresh c hm := h.commitments_fresh c (hc.mem_iff.mpr hm)
  inserted c := by rw [h.inserted c, decide_eq_decide.mpr hc.mem_iff]
  indices := hi.symm.trans (hc.length_eq ▸ h.indices)
  nextIndex := hc.length_eq ▸ h.nextIndex
  unindexed hnone := by
    have := h.unindexed hnone
    rw [this] at hc
    simpa using hc.symm

/-! ## 2. One frame's own writes -/

/-- A call whose effects survive: its proof, and whether it inserted the outputs. -/
structure Settled where
  proof : Proof
  insertOutputs : Bool

def Settled.outputs (f : Settled) : List Nat :=
  if f.insertOutputs then [f.proof.outputCommitment0, f.proof.outputCommitment1] else []

/-- The nullifiers the surviving calls consumed. -/
def consumed (log : List Settled) : List Nat := log.flatMap (·.proof.inputNullifiers)

/-- The commitments the surviving calls inserted. -/
def outputs (log : List Settled) : List Nat := log.flatMap Settled.outputs

/-- The leaf index a call announced. -/
def PoolEvent.leafIndex? : PoolEvent → Option Nat
  | .newCommitment _ index _ => some index
  | _ => none

def leafIndices (events : List PoolEvent) : List Nat := events.filterMap PoolEvent.leafIndex?

@[simp] theorem consumed_append (l m : List Settled) :
    consumed (l ++ m) = consumed l ++ consumed m := List.flatMap_append

@[simp] theorem outputs_append (l m : List Settled) :
    outputs (l ++ m) = outputs l ++ outputs m := List.flatMap_append

@[simp] theorem leafIndices_append (l m : List PoolEvent) :
    leafIndices (l ++ m) = leafIndices l ++ leafIndices m := List.filterMap_append

@[simp] theorem leafIndices_newNullifiers (ns : List Nat) :
    leafIndices (ns.map .newNullifier) = [] := by
  simp [leafIndices, List.filterMap_map, Function.comp_def, PoolEvent.leafIndex?]

/-- The indices of the two new leaves, if any. -/
def insertedIndices : Option (Nat × Nat) → List Nat
  | none => []
  | some (idx0, idx1) => [idx0, idx1]

theorem leafIndices_settlementEvents (this token : Address) (proof : Proof) (extData : ExtData)
    (amount : Int) (recipient : Option Address) (inserted : Option (Nat × Nat)) :
    leafIndices (settlementEvents this token proof extData amount recipient inserted) =
      insertedIndices inserted := by
  cases inserted with
  | none =>
    simp [settlementEvents, leafIndices, insertedIndices, List.filterMap_map, Function.comp_def,
      PoolEvent.leafIndex?]
  | some idx =>
    simp [settlementEvents, leafIndices, insertedIndices, List.filterMap_map, Function.comp_def,
      PoolEvent.leafIndex?]

theorem grows_spend (h : spendNullifiersOnce s ns = .ok s1) : Grows s s1 ns [] [] := by
  obtain ⟨hnd, hfresh, heq, hspent⟩ := spendNullifiersOnce_ok h
  have hins : ∀ c, s1.inserted c = s.inserted c := fun c => by rw [heq]; rfl
  have hnext : s1.tree = s.tree := by rw [heq]
  exact {
    nullifiers_nodup := hnd
    nullifiers_fresh := hfresh
    spent := hspent
    commitments_nodup := List.nodup_nil
    commitments_fresh := by simp
    inserted := by simpa using hins
    indices := by simp
    nextIndex := by simp [hnext]
    unindexed := fun _ => rfl }

theorem grows_insert {proof : Proof} {inserted : Option (Nat × Nat)}
    (hunused : ensureOutputsUnused true proof s = .ok ())
    (h : insertOutputNotes true proof s = .ok (inserted, s1)) :
    Grows s s1 [] [proof.outputCommitment0, proof.outputCommitment1]
      (insertedIndices inserted) := by
  obtain ⟨h0, h1, hne⟩ := ensureOutputsUnused_ok hunused
  obtain ⟨idx, rfl, htree, heq, hins⟩ := insertOutputNotes_ok h
  obtain ⟨n, hn, rfl, hn'⟩ := (MerkleTreeWithHistory.insertTwoLeaves_frame htree).nextIndex
  have hspent : ∀ n, s1.spent n = s.spent n := fun n => by rw [heq]; rfl
  exact {
    nullifiers_nodup := List.nodup_nil
    nullifiers_fresh := by simp
    spent := by simpa using hspent
    commitments_nodup := by simpa using hne
    commitments_fresh := by simp [h0, h1]
    inserted := by simpa using hins
    indices := by simp [insertedIndices, hn, List.range']
    nextIndex := by simp [hn, hn']
    unindexed := by simp [hn] }

/-- **One frame's own writes grow the storage** by its nullifiers and its outputs. -/
theorem Settles.grows {ρ : Type} {ext : Externals ρ} {proof : Proof} {extData : ExtData}
    {insertOutputs : Bool} {env env' : Env ρ} {t : SettleTrace ρ}
    (h : Settles ext proof extData insertOutputs env t env') :
    Grows t.verified.pool t.stored proof.inputNullifiers (Settled.outputs ⟨proof, insertOutputs⟩)
      (insertedIndices t.inserted) := by
  have hspend := grows_spend h.spend
  cases insertOutputs with
  | true =>
    -- spending leaves the commitment map alone, so the guard still speaks of the storage
    -- the insertion starts from
    have hguard : ensureOutputsUnused true proof t.spent = .ok () := by
      rw [← h.outputsUnused, (spendNullifiersOnce_ok h.spend).2.2.1]
      rfl
    simpa [Settled.outputs] using hspend.trans (grows_insert hguard h.insert)
  | false =>
    have hins := h.insert
    simp only [insertOutputNotes, Bool.false_eq_true, if_false, Except.ok.injEq,
      Prod.mk.injEq] at hins
    obtain ⟨hnone, hstored⟩ := hins
    rw [← hnone, ← hstored]
    simpa [Settled.outputs, insertedIndices] using hspend

/-! ## 3. Call trees -/

/-- What the callees answer at the five places a call leaves the contract; `none` and `false`
are failures. -/
structure Answers where
  transferIn : Bool
  getRoot : Option Nat
  verify : Option Bool
  transferOut : Bool
  transferFee : Bool

/-- The arguments of a call. -/
structure Request where
  /-- `exit` rather than `transact`. -/
  isExit : Bool
  auth : Address → Bool
  proof : Proof
  extData : ExtData
  sender : Address

/-- A call with the calls made at each place it leaves the contract, before the answer. -/
inductive Frame where
  | mk (request : Request) (answers : Answers)
      (atTransferIn atGetRoot atVerify atTransferOut atTransferFee : List Frame)

/-- An accepted call logs itself. -/
def record (r : Request) (env : Env (List Settled)) : Env (List Settled) :=
  { env with rest := env.rest ++ [⟨r.proof, !r.isExit⟩] }

/-- The entry point a request names. -/
def Request.enter {ρ : Type} (r : Request) (ext : Externals ρ) (env : Env ρ) : Result (Env ρ) :=
  if r.isExit then exit ext r.auth r.proof r.extData r.sender env
  else transact ext r.auth r.proof r.extData r.sender env

/-- **An accepted call settled**: an exit at once, a transaction after its deposit. -/
theorem Request.enter_ok {ρ : Type} {r : Request} {ext : Externals ρ} {env env' : Env ρ}
    (hok : r.enter ext env = .ok env') :
    ∃ env1 t, Settles ext r.proof r.extData (!r.isExit) env1 t env' ∧
      (r.isExit = true → env1 = env ∧ r.extData.extAmount < 0 ∧
        MerkleTreeWithHistory.isFull env.pool.tree = .ok true) ∧
      (r.isExit = false → ∃ token, env.pool.token = some token ∧
        takeDeposit ext token r.extData r.sender env = .ok env1) := by
  unfold Request.enter at hok
  by_cases he : r.isExit = true
  · rw [if_pos he] at hok
    obtain ⟨-, hfull, hneg, t, ht⟩ := exit_ok hok
    rw [he]
    exact ⟨env, t, ht, fun _ => ⟨rfl, hneg, hfull⟩, by simp⟩
  · rw [if_neg he] at hok
    obtain ⟨-, token, env1, htoken, hdep, t, ht⟩ := transact_ok hok
    rw [Bool.not_eq_true] at he
    rw [he]
    exact ⟨env1, t, ht, by simp, fun _ => ⟨token, htoken, hdep⟩⟩

/-- The same, with what the callees respect carried over the deposit. -/
theorem Request.enter_respects {ρ : Type} {r : Request} {ext : Externals ρ} {env env' : Env ρ}
    {R : Env ρ → Env ρ → Prop} (hext : Respects ext R) (hrefl : ∀ e, R e e)
    (hok : r.enter ext env = .ok env') :
    ∃ env1 t, R env env1 ∧ Settles ext r.proof r.extData (!r.isExit) env1 t env' ∧
      (r.isExit = true → MerkleTreeWithHistory.isFull env.pool.tree = .ok true) := by
  obtain ⟨env1, t, ht, hexit, hdep⟩ := r.enter_ok hok
  refine ⟨env1, t, ?_, ht, fun he => (hexit he).2.2⟩
  cases he : r.isExit with
  | true => exact (hexit he).1 ▸ hrefl env
  | false =>
    obtain ⟨token, -, hdep⟩ := hdep he
    exact hext.takeDeposit hrefl hdep

/-- The callees of a frame: each runs a forest of calls and then answers. -/
def Answers.externals {ρ : Type} (this : Address) (digest : ExtData → Nat) (a : Answers)
    (onTransferIn onGetRoot onVerify onTransferOut onTransferFee : Env ρ → Env ρ) :
    Externals ρ where
  currentContractAddress := this
  keccak256Xdr := digest
  transferIn _ _ _ _ env := if a.transferIn then some (onTransferIn env) else none
  getRoot _ env := a.getRoot.map fun r => (r, onGetRoot env)
  verify _ _ _ env := a.verify.map fun b => (b, onVerify env)
  transferOut _ _ _ _ env := if a.transferOut then some (onTransferOut env) else none
  transferFee _ _ _ _ env := if a.transferFee then some (onTransferFee env) else none

section Trees

variable (this : Address) (digest : ExtData → Nat)

mutual

/-- Run one frame.  On failure nothing of it, or of what it triggered, is left. -/
def Frame.exec : Frame → Env (List Settled) → Result (Env (List Settled))
  | .mk request answers atTransferIn atGetRoot atVerify atTransferOut atTransferFee, env => do
    let env ← request.enter (answers.externals this digest (execAll atTransferIn)
      (execAll atGetRoot) (execAll atVerify) (execAll atTransferOut) (execAll atTransferFee)) env
    .ok (record request env)

/-- Run calls one after the other; the callee that makes them survives their failures. -/
def execAll : List Frame → Env (List Settled) → Env (List Settled)
  | [], env => env
  | f :: fs, env => execAll fs (commit (f.exec env) env)

end

variable {this digest}

/-! ## 4. Every tree grows the storage -/

/-- From `env` to `env'` some events and some surviving calls were added, and the storage grew by
exactly what they say. -/
def Evolves (env env' : Env (List Settled)) : Prop :=
  ∃ events log, env'.events = env.events ++ events ∧ env'.rest = env.rest ++ log ∧
    Grows env.pool env'.pool (consumed log) (outputs log) (leafIndices events)

theorem Evolves.refl (env : Env (List Settled)) : Evolves env env :=
  ⟨[], [], by simp, by simp, Grows.refl env.pool⟩

theorem Evolves.trans {env env1 env2 : Env (List Settled)} (h : Evolves env env1)
    (h1 : Evolves env1 env2) : Evolves env env2 := by
  obtain ⟨es, log, he, hl, hg⟩ := h
  obtain ⟨es1, log1, he1, hl1, hg1⟩ := h1
  exact ⟨es ++ es1, log ++ log1, by rw [he1, he, List.append_assoc],
    by rw [hl1, hl, List.append_assoc], by simpa using hg.trans hg1⟩

variable {ext : Externals (List Settled)} {env env' : Env (List Settled)}

/-- **One frame.**  Its own writes lie between what happened before it verified the proof and
what its payout triggered. -/
theorem Settles.evolves (hext : Respects ext Evolves) {proof : Proof} {extData : ExtData}
    {insertOutputs : Bool} {t : SettleTrace (List Settled)}
    (h : Settles ext proof extData insertOutputs env t env') :
    Evolves env { env' with rest := env'.rest ++ [⟨proof, insertOutputs⟩] } := by
  obtain ⟨es1, log1, he1, hl1, hg1⟩ :=
    (hext.getAspMembershipRoot h.memberRoot).trans (hext.verifyProof h.accepted)
  obtain ⟨es2, log2, he2, hl2, hg2⟩ := hext.payOut Evolves.refl Evolves.trans h.pay
  refine ⟨es1 ++ proof.inputNullifiers.map .newNullifier ++ es2 ++
      settlementEvents ext.currentContractAddress t.token proof extData extData.extAmount
        (t.payout.map fun _ => extData.recipient) t.inserted,
    log1 ++ log2 ++ [⟨proof, insertOutputs⟩], ?_, ?_, ?_⟩
  · rw [h.final]
    simp only [he2, he1, List.append_assoc]
  · rw [h.final]
    simp only [hl2, hl1, List.append_assoc]
  · rw [h.final]
    -- in storage order the frame's own effects come before those of its payout
    have hg := (hg1.trans h.grows).trans hg2
    refine hg.perm ?_ ?_ ?_
    · simpa [consumed, List.append_assoc] using List.perm_append_comm.append_left (consumed log1)
    · simpa [outputs, List.append_assoc] using List.perm_append_comm.append_left (outputs log1)
    · rw [leafIndices_append, leafIndices_append, leafIndices_append, leafIndices_newNullifiers,
        leafIndices_settlementEvents, List.append_nil, List.append_assoc, List.append_assoc]
      exact List.perm_append_comm.append_left _

theorem Request.enter_evolves (hext : Respects ext Evolves) {r : Request}
    (hok : r.enter ext env = .ok env') : Evolves env (record r env') := by
  obtain ⟨env1, t, hdep, ht, -⟩ := r.enter_respects hext Evolves.refl hok
  exact hdep.trans (ht.evolves hext)

/-- The callees of a frame do whatever the calls made from them do. -/
theorem respects_externals {ρ : Type} {R : Env ρ → Env ρ → Prop} (answers : Answers)
    {f1 f2 f3 f4 f5 : Env ρ → Env ρ} (h1 : ∀ e, R e (f1 e)) (h2 : ∀ e, R e (f2 e))
    (h3 : ∀ e, R e (f3 e)) (h4 : ∀ e, R e (f4 e)) (h5 : ∀ e, R e (f5 e)) :
    Respects (answers.externals this digest f1 f2 f3 f4 f5) R where
  transferIn h := by
    simp only [Answers.externals, Option.ite_none_right_eq_some, Option.some.injEq] at h
    exact h.2 ▸ h1 _
  getRoot h := by
    simp only [Answers.externals, Option.map_eq_some_iff, Prod.mk.injEq] at h
    obtain ⟨_, -, -, rfl⟩ := h
    exact h2 _
  verify h := by
    simp only [Answers.externals, Option.map_eq_some_iff, Prod.mk.injEq] at h
    obtain ⟨_, -, -, rfl⟩ := h
    exact h3 _
  transferOut h := by
    simp only [Answers.externals, Option.ite_none_right_eq_some, Option.some.injEq] at h
    exact h.2 ▸ h4 _
  transferFee h := by
    simp only [Answers.externals, Option.ite_none_right_eq_some, Option.some.injEq] at h
    exact h.2 ▸ h5 _

mutual

theorem Frame.exec_evolves : ∀ (f : Frame) {env env' : Env (List Settled)},
    f.exec this digest env = .ok env' → Evolves env env'
  | .mk request answers c1 c2 c3 c4 c5, env, env', hok => by
    rw [Frame.exec] at hok
    obtain ⟨env1, h1, h2⟩ := bind_eq_ok.mp hok
    cases h2
    exact Request.enter_evolves (respects_externals answers (execAll_evolves c1)
      (execAll_evolves c2) (execAll_evolves c3) (execAll_evolves c4) (execAll_evolves c5)) h1

theorem execAll_evolves : ∀ (fs : List Frame) (env : Env (List Settled)),
    Evolves env (execAll this digest fs env)
  | [], env => by
    rw [execAll]
    exact .refl env
  | f :: fs, env => by
    rw [execAll]
    refine Evolves.trans ?_ (execAll_evolves fs _)
    cases hr : f.exec this digest env with
    | error e => exact .refl env
    | ok env1 => exact f.exec_evolves hr

end

/-- **No double spend, even under re-entry.**  Take any pool storage and any sequence of calls,
each with any tree of further calls made from its callees, and let `env` be what is left in the
end.  Over all surviving frames the consumed nullifiers are distinct and were unspent, the
inserted commitments are distinct and were unknown, and the indices handed out are contiguous
from the starting one.  What is spent or recorded in the end is exactly what was before, and
these. -/
theorem reentrant_calls_never_double_spend (this : Address) (digest : ExtData → Nat)
    (pool : PoolStorage) (calls : List Frame) :
    let env := execAll this digest calls ⟨pool, [], []⟩
    (consumed env.rest).Nodup ∧ (∀ n ∈ consumed env.rest, pool.spent n = false) ∧
      (outputs env.rest).Nodup ∧ (∀ c ∈ outputs env.rest, pool.inserted c = false) ∧
      (leafIndices env.events).Nodup ∧
      (leafIndices env.events).Perm
        (List.range' (pool.tree.nextIndex.getD 0) (outputs env.rest).length) ∧
      env.pool.tree.nextIndex = pool.tree.nextIndex.map (· + (outputs env.rest).length) ∧
      (∀ n, env.pool.spent n = true ↔ n ∈ consumed env.rest ∨ pool.spent n = true) ∧
      (∀ c, env.pool.inserted c = true ↔ c ∈ outputs env.rest ∨ pool.inserted c = true) := by
  intro env
  obtain ⟨events, log, he, hl, hg⟩ : Evolves ⟨pool, [], []⟩ env := execAll_evolves calls _
  rw [List.nil_append] at he hl
  rw [← he, ← hl] at hg
  refine ⟨hg.nullifiers_nodup, hg.nullifiers_fresh, hg.commitments_nodup, hg.commitments_fresh,
    hg.indices.nodup_iff.mpr List.nodup_range', hg.indices, hg.nextIndex, fun n => ?_, fun c => ?_⟩
  · rw [hg.spent n]
    simp
  · rw [hg.inserted c]
    simp

end Trees

end Pool

end Veil
