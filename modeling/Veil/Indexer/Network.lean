/-
# The two contracts on one network

A run of the network interleaves calls of the pool and of the allowlist, each in a ledger, some
accepted and some refused.  An accepted call appends its events to the network's log, under its
ledger; the network then gives each event a position in that ledger (`Places`).

`Announces` relates the log to the contracts:

* the events of either contract are its part of the log;
* every number in the log fits its type, and an event that names a pool names the one that emitted
  it, so the indexer decodes the event and takes it for what it is (`Emission.Fits`);
* the observer of `Replay.lean` knows the pool, and the allowlist is in one of its two phases.

Every accepted call keeps it (`Announces.exec`).  Section 5 is what the index then holds of a placed
log: the typed tables, as functions of what the contracts announced.
-/
import Veil.Contract.Allowlist
import Veil.Contract.Replay
import Veil.Indexer.Confluence
import Veil.Indexer.Source

namespace Veil

open Tx

/-! ## 1. Emissions -/

/-- An event of either contract. -/
inductive Emission where
  | pool (event : PoolEvent)
  | allowlist (event : AspEvent)
  deriving DecidableEq

/-- The nullifier an event announces. -/
def PoolEvent.nullifier? : PoolEvent → Option Nat
  | .newNullifier nullifier => some nullifier
  | _ => none

/-- The leaf an event announces, with its position. -/
def PoolEvent.leaf? : PoolEvent → Option (Nat × Nat)
  | .newCommitment commitment index _ => some (index, commitment)
  | _ => none

/-- The index an addition announces. -/
def AspEvent.index? : AspEvent → Option Nat
  | .leafAdded _ index _ => some index
  | .leafRevoked _ _ => none

namespace Emission

def encode : Emission → RawEvent
  | .pool event => event.encode
  | .allowlist event => event.encode

def toVeil : Emission → VeilEvent
  | .pool event => event.toVeil
  | .allowlist event => event.toVeil

def emitter (c : Contracts) : Emission → Address
  | .pool _ => c.pool
  | .allowlist _ => c.allowlist

def pool? : Emission → Option PoolEvent
  | .pool event => some event
  | .allowlist _ => none

def allowlist? : Emission → Option AspEvent
  | .pool _ => none
  | .allowlist event => some event

/-- The index of an allowlist addition. -/
def index? : Emission → Option Nat
  | .pool _ => none
  | .allowlist event => event.index?

/-- Every number fits its type, and the pool is named rightly. -/
def Fits (c : Contracts) : Emission → Prop
  | .pool event => event.Typed ∧ ∀ a ∈ Contracts.namedPool event.toVeil, a = c.pool
  | .allowlist event => event.Typed

variable {c : Contracts} {x : Emission}

/-- **The indexer reads back what was emitted.** -/
theorem Fits.decode (h : x.Fits c) : x.encode.decode = .ok (.event x.toVeil) := by
  cases x with
  | pool event => exact PoolEvent.decode_encode h.1
  | allowlist event => exact AspEvent.decode_encode h

theorem expected_toVeil (c : Contracts) (x : Emission) : c.expected x.toVeil = x.emitter c := by
  cases x with
  | pool event => cases event <;> rfl
  | allowlist event => cases event <;> rfl

theorem Fits.namedPool (h : x.Fits c) : ∀ a ∈ Contracts.namedPool x.toVeil, a = c.pool := by
  cases x with
  | pool event => exact h.2
  | allowlist event =>
    intro a ha
    cases event <;> cases ha

end Emission

/-! ## 2. Runs -/

/-- Both contracts, and their events so far with the ledgers they were emitted in. -/
structure Network (ρ : Type) where
  pool : Env ρ
  allowlist : AspState
  log : List (Nat × Emission)

namespace Network

/-- A call of either contract. -/
inductive Call (ρ : Type) where
  | pool (entry : Pool.Entry ρ)
  | allowlist (i : ASPMembership.Invocation)

/-- A call, and the ledger that includes it. -/
structure Sent (ρ : Type) where
  ledger : Nat
  call : Call ρ

abbrev NetworkFault := Fault ContractError ⊕ Fault AspError

variable {ρ : Type}

/-- The events a call appended to a contract's own, in the call's ledger. -/
def emitted {α : Type} (ledger : Nat) (wrap : α → Emission) (before after : List α) :
    List (Nat × Emission) :=
  (after.drop before.length).map fun event => (ledger, wrap event)

def exec (sent : Sent ρ) (n : Network ρ) : Except NetworkFault (Network ρ) :=
  match sent.call with
  | .pool entry =>
    match entry.exec n.pool with
    | .ok env => .ok { n with
        pool := env
        log := n.log ++ emitted sent.ledger .pool n.pool.events env.events }
    | .error e => .error (.inl e)
  | .allowlist i =>
    match ASPMembership.exec i n.allowlist with
    | .ok s => .ok { n with
        allowlist := s
        log := n.log ++ emitted sent.ledger .allowlist n.allowlist.events s.events }
    | .error e => .error (.inr e)

/-- What the host sees to: no re-entry, the pool's own address, and a 64-bit index. -/
def Call.Hosted (c : Contracts) : Call ρ → Prop
  | .pool (.request _ ext) => Pool.Quiet ext ∧ ext.currentContractAddress = c.pool
  | .allowlist ⟨.publishLeaf _ index _, _⟩ => index < 2 ^ 64
  | _ => True

theorem Call.Hosted.quiet {c : Contracts} {entry : Pool.Entry ρ}
    (h : (Call.pool entry).Hosted c) : entry.Quiet := by
  cases entry with
  | request r ext => exact h.1
  | _ => trivial

/-- The index an operator publishes. -/
def Call.published? : Call ρ → Option Nat
  | .allowlist ⟨.publishLeaf _ index _, _⟩ => some index
  | _ => none

/-- **What an accepted call does**: one of the contracts moves on, and its new events join the
log. -/
theorem exec_cases {sent : Sent ρ} {n n' : Network ρ} (h : exec sent n = .ok n') :
    (∃ entry env, sent.call = .pool entry ∧ entry.exec n.pool = .ok env ∧
      n' = ⟨env, n.allowlist,
        n.log ++ emitted sent.ledger .pool n.pool.events env.events⟩) ∨
    (∃ i s, sent.call = .allowlist i ∧ ASPMembership.exec i n.allowlist = .ok s ∧
      n' = ⟨n.pool, s, n.log ++ emitted sent.ledger .allowlist n.allowlist.events s.events⟩) := by
  unfold exec at h
  split at h
  · next entry hcall =>
    split at h
    · next env henv => exact .inl ⟨entry, env, hcall, henv, (Except.ok.inj h).symm⟩
    · cases h
  · next i hcall =>
    split at h
    · next s hs => exact .inr ⟨i, s, hcall, hs, (Except.ok.inj h).symm⟩
    · cases h

theorem emitted_append {α : Type} (ledger : Nat) (wrap : α → Emission) (before new : List α) :
    emitted ledger wrap before (before ++ new) = new.map fun event => (ledger, wrap event) := by
  rw [emitted, List.drop_left]

/-! ## 3. New events -/

section NewEvents

variable {c : Contracts} {L : Nat}

theorem lt_two_pow_of_lt {v : Nat} (h : v < bn256Modulus) : IsU256 v :=
  h.trans (bn256Modulus_lt.trans (by norm_num))

theorem treeRoot_lt {leaves : List Nat} (h : ∀ x ∈ leaves, x < bn256Modulus) :
    treeRoot L leaves < bn256Modulus := by
  rw [treeRoot_eq_val h]
  exact ZMod.val_lt _

/-- **The events of an accepted pool call fit.** -/
theorem pool_events {entry : Pool.Entry ρ} {env env' : Env ρ} {log : List Pool.Settled}
    (h : Pool.Replayable L log env) (hosted : (Call.pool entry).Hosted c)
    (hok : entry.exec env = .ok env') :
    ∃ new, env'.events = env.events ++ new ∧ ∀ e ∈ new, (Emission.pool e).Fits c := by
  have hafter := h.exec hosted.quiet hok
  rcases Pool.Entry.exec_cases hok with ⟨r, ext, rfl, hok⟩ | hadmin
  · obtain ⟨hq, hthis⟩ := hosted
    obtain ⟨_, t, -, ht, -⟩ := r.enter_respects hq Pool.SamePool.refl hok
    have hf := ht.fieldElements
    have hnull : ∀ n ∈ r.proof.inputNullifiers, IsU256 n := fun n hn =>
      lt_two_pow_of_lt (hf.inputNullifiers n hn)
    have heffect := Pool.Request.effect hq hok
    unfold Pool.RequestEffect at heffect
    split at heffect
    · obtain ⟨token, -, hevents⟩ := heffect.events
      refine ⟨_, by rw [hevents, List.append_assoc], fun e he => ?_⟩
      rcases List.mem_append.mp he with he | he <;> obtain ⟨n, hn, rfl⟩ := List.mem_map.mp he
      · exact ⟨hnull n hn, by simp [PoolEvent.toVeil, Contracts.namedPool]⟩
      · refine ⟨⟨hnull n hn, ht.amount, lt_two_pow_of_lt hf.publicAmount⟩, ?_⟩
        intro a ha
        rw [← hthis]
        exact (Option.some.inj ha).symm
    · obtain ⟨token, index, -, htree, hevents⟩ := heffect.events
      -- the tree still fits after the two leaves, so their positions fit 32 bits
      have hindex : index + 1 < 2 ^ 32 := by
        obtain ⟨n, -, hidx, hnext⟩ := htree.nextIndex
        have hholds := hafter.holds.tree
        rw [hholds.nextIndex] at hnext
        have hlen := Option.some.inj hnext
        have hfits := hholds.fits
        have hpow : 2 ^ L ≤ 2 ^ 32 := Nat.pow_le_pow_right (by omega) hholds.depth.2
        have := (Prod.mk.inj hidx).1
        omega
      refine ⟨_, by rw [hevents, List.append_assoc, List.append_assoc], fun e he => ?_⟩
      have h0 := lt_two_pow_of_lt hf.outputCommitment0
      have h1 := lt_two_pow_of_lt hf.outputCommitment1
      rcases List.mem_append.mp he with he | he
      · obtain ⟨n, hn, rfl⟩ := List.mem_map.mp he
        exact ⟨hnull n hn, by simp [PoolEvent.toVeil, Contracts.namedPool]⟩
      rcases List.mem_append.mp he with he | he
      · rcases List.mem_pair.mp he with rfl | rfl
        · exact ⟨⟨h0, by omega⟩, by simp [PoolEvent.toVeil, Contracts.namedPool]⟩
        · exact ⟨⟨h1, hindex⟩, by simp [PoolEvent.toVeil, Contracts.namedPool]⟩
      · obtain ⟨n, hn, rfl⟩ := List.mem_map.mp he
        refine ⟨⟨hnull n hn, h0, h1, by omega, hindex, ht.amount,
          lt_two_pow_of_lt hf.publicAmount⟩, ?_⟩
        intro a ha
        rw [← hthis]
        exact (Option.some.inj ha).symm
  · obtain ⟨accounts, hevents⟩ := hadmin.events
    refine ⟨_, hevents, fun e he => ?_⟩
    obtain ⟨a, -, rfl⟩ := List.mem_map.mp he
    exact ⟨trivial, by simp [PoolEvent.toVeil, Contracts.namedPool]⟩

/-- **The events of an accepted allowlist call fit**, and an index beyond the signed range is one
the operator published. -/
theorem allowlist_events {i : ASPMembership.Invocation} {s s' : AspState}
    {log : List ASPMembership.Invocation} (h : ASPMembership.Phases L log s)
    (hosted : (Call.allowlist i : Call ρ).Hosted c) (hok : ASPMembership.exec i s = .ok s') :
    ∃ new, s'.events = s.events ++ new ∧ (∀ e ∈ new, e.Typed) ∧
      ∀ index ≥ 2 ^ 63, (∃ e ∈ new, e.index? = some index) ↔
        (Call.allowlist i : Call ρ).published? = some index := by
  obtain ⟨call, auth⟩ := i
  cases call with
  | insertLeaf leaf =>
    obtain ⟨hleaf, hopen, -⟩ := ASPMembership.insertLeaf_ok hok
    have hnot : ¬ASPMembership.HandedOver log := fun hy => by
      simp [(h.after hy).operator] at hopen
    obtain ⟨hroom, hm, hevents⟩ := (h.before hnot).maintains.of_insertLeaf hok
    have hpow : 2 ^ L ≤ 2 ^ 32 := Nat.pow_le_pow_right (by omega) hm.depth.2
    refine ⟨_, hevents, fun e he => ?_, fun index hindex => ?_⟩
    · obtain rfl := List.mem_singleton.mp he
      exact ⟨lt_two_pow_of_lt hleaf, by omega, lt_two_pow_of_lt (treeRoot_lt hm.field)⟩
    · simp only [List.mem_singleton, exists_eq_left, AspEvent.index?, Call.published?,
        Option.some.injEq, reduceCtorEq, iff_false]
      omega
  | revokeLeaf leaf newRoot =>
    obtain ⟨hleaf, hroot, rfl⟩ := ASPMembership.revokeLeaf_ok hok
    refine ⟨_, rfl, fun e he => ?_, fun index _ => ?_⟩
    · obtain rfl := List.mem_singleton.mp he
      exact ⟨lt_two_pow_of_lt hleaf, lt_two_pow_of_lt hroot⟩
    · simp [AspEvent.index?, Call.published?]
  | publishLeaf leaf index newRoot =>
    obtain ⟨hleaf, hroot, -, rfl⟩ := ASPMembership.publishLeaf_ok hok
    refine ⟨_, rfl, fun e he => ?_, fun index' _ => ?_⟩
    · obtain rfl := List.mem_singleton.mp he
      exact ⟨lt_two_pow_of_lt hleaf, hosted, lt_two_pow_of_lt hroot⟩
    · simp [AspEvent.index?, Call.published?]
  | setAdminInsertOnly adminOnly =>
    rw [ASPMembership.setAdminInsertOnly_ok hok]
    exact ⟨[], by simp, by simp, by simp [Call.published?]⟩
  | updateAdmin newAdmin =>
    rw [ASPMembership.updateAdmin_ok hok]
    exact ⟨[], by simp, by simp, by simp [Call.published?]⟩

end NewEvents

/-! ## 4. The invariant -/

/-- **The log is what the contracts announced**, after the accepted calls `sent`. -/
structure Announces (c : Contracts) (L M : Nat) (sent : List (Sent ρ)) (n : Network ρ) : Prop where
  pool : n.log.filterMap (·.2.pool?) = n.pool.events
  allowlist : n.log.filterMap (·.2.allowlist?) = n.allowlist.events
  fits : ∀ x ∈ n.log, x.2.Fits c
  replayable : ∃ settled, Pool.Replayable L settled n.pool
  phases : ∃ calls, ASPMembership.Phases M calls n.allowlist
  announced : ASPMembership.Announced M n.allowlist
  /-- An index beyond the signed range was published. -/
  indices : ∀ index ≥ 2 ^ 63, (∃ x ∈ n.log, x.2.index? = some index) ↔
    ∃ x ∈ sent, x.call.published? = some index

section Invariant

variable {c : Contracts} {L M : Nat} {log : List (Sent ρ)} {n n' : Network ρ} {sent : Sent ρ}

/-- New events of one call join the log. -/
theorem Announces.append (h : Announces c L M log n) (new : List Emission)
    (hlog : n'.log = n.log ++ new.map (Prod.mk sent.ledger))
    (hpool : n'.pool.events = n.pool.events ++ new.filterMap Emission.pool?)
    (hallowlist : n'.allowlist.events = n.allowlist.events ++ new.filterMap Emission.allowlist?)
    (hfits : ∀ x ∈ new, x.Fits c) (hreplayable : ∃ settled, Pool.Replayable L settled n'.pool)
    (hphases : ∃ calls, ASPMembership.Phases M calls n'.allowlist)
    (hannounced : ASPMembership.Announced M n'.allowlist)
    (hindices : ∀ index ≥ 2 ^ 63, (∃ x ∈ new, x.index? = some index) ↔
      sent.call.published? = some index) : Announces c L M (log ++ [sent]) n' where
  pool := by rw [hlog, hpool, List.filterMap_append, h.pool, List.filterMap_map]; rfl
  allowlist := by
    rw [hlog, hallowlist, List.filterMap_append, h.allowlist, List.filterMap_map]; rfl
  fits := by
    rw [hlog]
    intro x hx
    rcases List.mem_append.mp hx with hx | hx
    · exact h.fits x hx
    · obtain ⟨e, he, rfl⟩ := List.mem_map.mp hx
      exact hfits e he
  replayable := hreplayable
  phases := hphases
  announced := hannounced
  indices := by
    intro index hindex
    simp only [hlog, List.mem_append, or_and_right, exists_or, h.indices index hindex]
    simp [← hindices index hindex]

/-- **One accepted call.** -/
theorem Announces.exec (h : Announces c L M log n) (hosted : sent.call.Hosted c)
    (hok : exec sent n = .ok n') : Announces c L M (log ++ [sent]) n' := by
  obtain ⟨settled, hreplay⟩ := h.replayable
  obtain ⟨calls, hphases⟩ := h.phases
  rcases exec_cases hok with ⟨entry, env, hcall, henv, rfl⟩ | ⟨i, s, hcall, hs, rfl⟩
  · rw [hcall] at hosted
    obtain ⟨new, hevents, hfits⟩ := pool_events hreplay hosted henv
    refine h.append (new.map .pool) ?_ ?_ ?_ ?_ ⟨_, hreplay.exec hosted.quiet henv⟩ h.phases
      h.announced ?_
    · simp [hevents, emitted_append]
    · simp [hevents, List.filterMap_map, Function.comp_def, Emission.pool?]
    · simp [List.filterMap_map, Emission.allowlist?]
    · simpa using hfits
    · simp [hcall, Call.published?, Emission.index?]
  · rw [hcall] at hosted
    obtain ⟨new, hevents, htyped, hindices⟩ := allowlist_events hphases hosted hs
    refine h.append (new.map .allowlist) ?_ ?_ ?_ ?_ h.replayable ⟨_, hphases.step hs⟩
      (h.announced.step hphases hs) ?_
    · simp [hevents, emitted_append]
    · simp [List.filterMap_map, Emission.pool?]
    · simp [hevents, List.filterMap_map, Function.comp_def, Emission.allowlist?]
    · simpa [Emission.Fits] using htyped
    · intro index hindex
      rw [hcall, ← hindices index hindex]
      simp [Emission.index?]

/-- Both contracts right after their deployment. -/
structure Fresh (L M : Nat) (n : Network ρ) : Prop where
  pool : ∃ admin token verifier asp maximumDeposit feeRecipient feeBps,
    Pool.constructor admin token verifier asp maximumDeposit feeRecipient feeBps L =
      .ok n.pool.pool
  events : n.pool.events = []
  allowlist : ∃ admin, ASPMembership.constructor admin M = .ok n.allowlist
  log : n.log = []

/-- The depths the allowlist's constructor accepts. -/
theorem Fresh.depth (h : Fresh L M n) : 1 ≤ M ∧ M ≤ 32 := by
  obtain ⟨owner, hok⟩ := h.allowlist
  simp only [ASPMembership.constructor, bind_eq_ok, ensure_eq_ok] at hok
  obtain ⟨-, hM, -⟩ := hok
  omega

theorem Fresh.announces (h : Fresh L M n) : Announces c L M [] n := by
  obtain ⟨admin, token, verifier, asp, maximumDeposit, feeRecipient, feeBps, hpool⟩ := h.pool
  obtain ⟨owner, hallowlist⟩ := h.allowlist
  obtain ⟨s, hs, hm, hevents, -⟩ := ASPMembership.maintains_constructor owner h.depth.1 h.depth.2
  obtain rfl : s = n.allowlist := Except.ok.inj (hs.symm.trans hallowlist)
  have hphases := ASPMembership.phases_nil hm hevents
  have hreplay := Pool.replayable_constructor hpool n.pool.rest
  rw [← h.events] at hreplay
  exact {
    pool := by rw [h.log, h.events]; rfl
    allowlist := by rw [h.log, hevents]; rfl
    fits := by simp [h.log]
    replayable := ⟨[], hreplay⟩
    phases := ⟨[], hphases⟩
    announced := (hphases.before (by simp [ASPMembership.HandedOver])).announced
    indices := by simp [h.log] }

/-- **Every run.** -/
theorem Fresh.announces_run (h : Fresh L M n) {calls : List (Sent ρ)}
    (hosted : ∀ x ∈ calls, x.call.Hosted c) :
    Announces c L M (accepted Network.exec calls n) (run Network.exec calls n) := by
  refine (accepted_induction (P := fun log n => (∀ x ∈ log, x ∈ calls) → Announces c L M log n)
    (fun log m x m' hP hok hmem => ?_) calls [] n (fun _ => h.announces))
    (fun x hx => (accepted_sublist _ _ _).subset hx)
  exact (hP fun y hy => hmem y (List.mem_append_left _ hy)).exec
    (hosted x (hmem x (List.mem_append_right _ List.mem_cons_self))) hok

end Invariant

/-! ## 5. What was announced -/

/-- A replay that does not give up has seen distinct nullifiers, and the leaves at consecutive
positions. -/
theorem foldlM_see : ∀ {events : List PoolEvent} {r r' : Pool.Replayed},
    events.foldlM Pool.Replayed.see r = some r' → r.nullifiers.Nodup →
    r'.nullifiers = r.nullifiers ++ events.filterMap PoolEvent.nullifier? ∧ r'.nullifiers.Nodup ∧
      ∃ new, r'.leaves = r.leaves ++ new ∧
        events.filterMap PoolEvent.leaf? = (new.zipIdx r.leaves.length).map Prod.swap
  | [], r, r', h, hnd => by
    obtain rfl := Option.some.inj h
    exact ⟨by simp, hnd, [], by simp, rfl⟩
  | event :: events, r, r', h, hnd => by
    rw [List.foldlM_cons] at h
    obtain ⟨r1, hsee, h⟩ := Option.bind_eq_some_iff.mp h
    cases event with
    | newNullifier n =>
      simp only [Pool.Replayed.see, Option.ite_none_left_eq_some, Option.some.injEq] at hsee
      obtain ⟨hfresh, rfl⟩ := hsee
      obtain ⟨h1, h2, h3⟩ := foldlM_see h (List.nodup_append.mpr ⟨hnd, List.nodup_singleton n,
        fun a ha b hb hab => hfresh (List.mem_singleton.mp hb ▸ hab ▸ ha)⟩)
      exact ⟨by rw [h1]; simp [PoolEvent.nullifier?], h2, h3⟩
    | newCommitment commitment index out =>
      simp only [Pool.Replayed.see, Option.ite_none_right_eq_some, Option.some.injEq] at hsee
      obtain ⟨rfl, rfl⟩ := hsee
      obtain ⟨h1, h2, new, h3, h4⟩ := foldlM_see h hnd
      refine ⟨by rw [h1]; rfl, h2, commitment :: new, by rw [h3]; simp, ?_⟩
      have hcons : (PoolEvent.newCommitment commitment r.leaves.length out :: events).filterMap
          PoolEvent.leaf? = (r.leaves.length, commitment) :: events.filterMap PoolEvent.leaf? := rfl
      rw [hcons, h4]
      simp [List.zipIdx_cons]
    | _ =>
      obtain rfl := Option.some.inj hsee
      obtain ⟨h1, h2, new, h3, h4⟩ := foldlM_see h hnd
      exact ⟨by rw [h1]; rfl, h2, new, h3, h4⟩

/-- The pool's events announce its nullifiers, each once, and its leaves in order. -/
theorem announced_pool {ρ : Type} {L : Nat} {settled : List Pool.Settled} {env : Env ρ}
    (h : Pool.Replayable L settled env) :
    (env.events.filterMap PoolEvent.nullifier?).Nodup ∧
      env.events.filterMap PoolEvent.leaf? = (Pool.outputs settled).zipIdx.map Prod.swap := by
  obtain ⟨h1, h2, new, h3, h4⟩ := foldlM_see h.replay List.nodup_nil
  rw [List.nil_append] at h1 h3
  exact ⟨h1 ▸ h2, by rw [h4, ← h3]; rfl⟩

/-- The commitments the pool has announced, in order. -/
def leaves (n : Network ρ) : List Nat := (n.pool.events.filterMap PoolEvent.leaf?).map Prod.snd

theorem leaves_eq {L : Nat} {settled : List Pool.Settled} {n : Network ρ}
    (h : Pool.Replayable L settled n.pool) : n.leaves = Pool.outputs settled := by
  rw [leaves, (announced_pool h).2, List.map_map]
  simp [Function.comp_def, List.zipIdx_map_fst]

/-- What the pool holds are the leaves it announced. -/
theorem Announces.holds {c : Contracts} {L M : Nat} {sent : List (Sent ρ)} {n : Network ρ}
    (h : Announces c L M sent n) : MerkleTreeWithHistory.Holds L n.leaves n.pool.pool.tree := by
  obtain ⟨settled, hreplay⟩ := h.replayable
  rw [leaves_eq hreplay]
  exact hreplay.holds.tree

/-- The leaves were announced at consecutive positions. -/
theorem Announces.leaf_events {c : Contracts} {L M : Nat} {sent : List (Sent ρ)} {n : Network ρ}
    (h : Announces c L M sent n) :
    n.pool.events.filterMap PoolEvent.leaf? = n.leaves.zipIdx.map Prod.swap := by
  obtain ⟨settled, hreplay⟩ := h.replayable
  rw [leaves_eq hreplay, (announced_pool hreplay).2]

/-! ## 6. The index of a placed log -/

/-- The position the network gave an emission lies in its ledger. -/
def PlacedAt (c : Contracts) (x : Nat × Emission) (e : EmittedEvent) : Prop :=
  e.position.ledger = x.1 ∧ e.contract = x.2.emitter c ∧ e.raw = x.2.encode

/-- The events of a log, each at a position of its own ledger. -/
abbrev Places (c : Contracts) (log : List (Nat × Emission)) (events : List EmittedEvent) : Prop :=
  List.Forall₂ (PlacedAt c) log events

section Placed

variable {c : Contracts} {L M : Nat} {x : Nat × Emission} {e : EmittedEvent}
  {log : List (Nat × Emission)} {events : List EmittedEvent}

theorem PlacedAt.decode (h : PlacedAt c x e) (hf : x.2.Fits c) :
    e.raw.decode = .ok (.event x.2.toVeil) := by
  rw [h.2.2, hf.decode]

theorem PlacedAt.rows (h : PlacedAt c x e) (hf : x.2.Fits c) : e.rows = x.2.toVeil.rows e := by
  rw [EmittedEvent.rows, h.decode hf]
  rfl

/-- A column of the tables, read off the log emission by emission. -/
theorem columns_of_places {α β : Type} {rows : EmittedEvent → List α} {column : α → β}
    (read : Nat × Emission → Option β)
    (hread : ∀ x e, PlacedAt c x e → x.2.Fits c → (rows e).map column = (read x).toList)
    (hfits : ∀ x ∈ log, x.2.Fits c) (h : Places c log events) :
    (events.flatMap rows).map column = log.filterMap read := by
  induction h with
  | nil => rfl
  | cons hx _ ih =>
    rw [List.flatMap_cons, List.map_append, hread _ _ hx (hfits _ List.mem_cons_self),
      ih fun y hy => hfits y (List.mem_cons_of_mem _ hy), List.filterMap_cons]
    cases read _ <;> rfl

/-- A column that does not show the ledger. -/
theorem map_flatMap_of_places {α β : Type} {rows : EmittedEvent → List α} {column : α → β}
    (read : Emission → Option β)
    (hread : ∀ x e, PlacedAt c x e → x.2.Fits c → (rows e).map column = (read x.2).toList)
    (hfits : ∀ x ∈ log, x.2.Fits c) (h : Places c log events) :
    (events.flatMap rows).map column = log.filterMap fun x => read x.2 :=
  columns_of_places (fun x => read x.2) hread hfits h

/-- The columns of `pool_nullifiers`. -/
theorem Places.nullifiers (h : Places c log events) (hfits : ∀ x ∈ log, x.2.Fits c) :
    (Tables.of events).nullifiers.map (fun r => (r.pool, r.nullifier)) =
      ((log.filterMap (·.2.pool?)).filterMap PoolEvent.nullifier?).map (Prod.mk c.pool) := by
  rw [List.filterMap_filterMap, List.map_filterMap]
  refine map_flatMap_of_places
    (fun x => (x.pool?.bind PoolEvent.nullifier?).map (Prod.mk c.pool)) ?_ hfits h
  rintro ⟨_, x⟩ e hx hf
  rw [hx.rows hf]
  obtain ⟨-, hc, -⟩ := hx
  cases x with
  | pool event =>
    cases event <;> simp [Emission.toVeil, PoolEvent.toVeil, VeilEvent.rows, Tables.empty,
      Emission.pool?, PoolEvent.nullifier?, hc, Emission.emitter]
  | allowlist event =>
    cases event <;> simp [Emission.toVeil, AspEvent.toVeil, VeilEvent.rows, Tables.empty,
      Emission.pool?]

/-- The columns of `pool_commitments`. -/
theorem Places.commitments (h : Places c log events) (hfits : ∀ x ∈ log, x.2.Fits c) :
    (Tables.of events).commitments.map (fun r => (r.pool, r.origin, r.leafIndex, r.commitment)) =
      ((log.filterMap (·.2.pool?)).filterMap PoolEvent.leaf?).map
        fun leaf => (c.pool, .transact, leaf) := by
  rw [List.filterMap_filterMap, List.map_filterMap]
  refine map_flatMap_of_places (fun x =>
    (x.pool?.bind PoolEvent.leaf?).map fun leaf => (c.pool, Origin.transact, leaf)) ?_ hfits h
  rintro ⟨_, x⟩ e hx hf
  rw [hx.rows hf]
  obtain ⟨-, hc, -⟩ := hx
  cases x with
  | pool event =>
    cases event <;> simp [Emission.toVeil, PoolEvent.toVeil, VeilEvent.rows, Tables.empty,
      Emission.pool?, PoolEvent.leaf?, hc, Emission.emitter]
  | allowlist event =>
    cases event <;> simp [Emission.toVeil, AspEvent.toVeil, VeilEvent.rows, Tables.empty,
      Emission.pool?]

/-- Rows of `transact` for `leaves`, in any order, each at its position. -/
def StoresLeaves (pool : Address) (leaves : List Nat) (rows : List CommitmentRow) : Prop :=
  (rows.map fun r => (r.pool, r.origin, r.leafIndex, r.commitment)).Perm
    ((leaves.zipIdx.map Prod.swap).map fun leaf => (pool, .transact, leaf))

theorem StoresLeaves.of_perm {pool : Address} {leaves : List Nat} {rows rows' : List CommitmentRow}
    (h : StoresLeaves pool leaves rows) (hperm : rows'.Perm rows) :
    StoresLeaves pool leaves rows' :=
  (hperm.map _).trans h

theorem StoresLeaves.mem {pool : Address} {leaves : List Nat} {rows : List CommitmentRow}
    (h : StoresLeaves pool leaves rows) {r : CommitmentRow} (hr : r ∈ rows) :
    r.pool = pool ∧ r.origin = .transact ∧ r.commitment ∈ leaves := by
  obtain ⟨leaf, hleaf, heq⟩ := List.mem_map.mp (h.subset (List.mem_map_of_mem hr))
  obtain ⟨⟨x, i⟩, hx, rfl⟩ := List.mem_map.mp hleaf
  obtain ⟨hpool, horigin, -, hcommitment⟩ := by simpa using heq
  exact ⟨hpool.symm, horigin.symm, hcommitment ▸ List.fst_mem_of_mem_zipIdx hx⟩

/-- The leaves as the tree functions take them. -/
theorem StoresLeaves.indexed {pool : Address} {leaves : List Nat} {rows : List CommitmentRow}
    (h : StoresLeaves pool leaves rows) :
    (rows.map fun r => (r.leafIndex, (r.commitment : F))).Perm
      (Tree.indexed (leaves.map Nat.cast)) := by
  have hcolumns := h.map fun p : Address × Origin × Nat × Nat => (p.2.2.1, (p.2.2.2 : F))
  simp only [List.map_map, Function.comp_def] at hcolumns
  rw [Tree.indexed, List.zipIdx_map, List.map_map]
  exact hcolumns

theorem StoresLeaves.leafIndices {pool : Address} {leaves : List Nat} {rows : List CommitmentRow}
    (h : StoresLeaves pool leaves rows) :
    (rows.map (·.leafIndex)).Perm (List.range leaves.length) := by
  have hfst := h.indexed.map Prod.fst
  rwa [Tree.map_fst_indexed, List.length_map, List.map_map] at hfst

theorem Announces.storesLeaves {ρ : Type} {sent : List (Sent ρ)} {n : Network ρ}
    (h : Announces c L M sent n) (hplaces : Places c n.log events) :
    StoresLeaves c.pool n.leaves (Tables.of events).commitments := by
  have hcolumns := Places.commitments hplaces h.fits
  rw [h.pool, h.leaf_events] at hcolumns
  exact List.Perm.of_eq hcolumns

/-- The columns an allowlist event fills. -/
def aspColumns : AspEvent → AllowlistKind × Nat × Option Nat × Nat
  | .leafAdded leaf index root => (.added, leaf, some index, root)
  | .leafRevoked leaf root => (.revoked, leaf, none, root)

/-- The columns of `allowlist_events`. -/
theorem Places.allowlist (h : Places c log events) (hfits : ∀ x ∈ log, x.2.Fits c) :
    (Tables.of events).allowlist.map (fun r => (r.allowlist, r.kind, r.leaf, r.leafIndex, r.root)) =
      (log.filterMap (·.2.allowlist?)).map fun event => (c.allowlist, aspColumns event) := by
  rw [List.map_filterMap]
  refine map_flatMap_of_places (fun x =>
    x.allowlist?.map fun event => (c.allowlist, aspColumns event)) ?_ hfits h
  rintro ⟨_, x⟩ e hx hf
  rw [hx.rows hf]
  obtain ⟨-, hc, -⟩ := hx
  cases x with
  | pool event =>
    cases event <;> simp [Emission.toVeil, PoolEvent.toVeil, VeilEvent.rows, Tables.empty,
      Emission.allowlist?]
  | allowlist event =>
    cases event <;> simp [Emission.toVeil, AspEvent.toVeil, VeilEvent.rows, Tables.empty,
      Emission.allowlist?, aspColumns, hc, Emission.emitter]

/-- Every placed event decodes, and passes for what it is. -/
theorem Places.check (h : Places c log events) (hfits : ∀ x ∈ log, x.2.Fits c)
    (he : e ∈ events) : ∃ x ∈ log, PlacedAt c x e ∧ e.raw.decode = .ok (.event x.2.toVeil) ∧
      c.check e (.event x.2.toVeil) = .ok () := by
  obtain ⟨k, hk, rfl⟩ := List.mem_iff_getElem.mp he
  have hlog : k < log.length := h.length_eq ▸ hk
  have hx : PlacedAt c log[k] events[k] := h.get hlog hk
  have hf := hfits _ (List.getElem_mem hlog)
  refine ⟨log[k], List.getElem_mem hlog, hx, hx.decode hf, ensure_pos ?_ _⟩
  rw [hx.2.1, Emission.expected_toVeil]
  simp only [ne_eq, not_true_eq_false, false_or, Option.any_eq_true, decide_eq_true_eq, not_exists,
    not_and, not_not]
  intro a ha
  exact hf.namedPool a ha

end Placed

/-- **The events of a run make an index**, unless the operator published an index beyond the signed
range. -/
theorem Announces.eventSet {ρ : Type} {c : Contracts} {L M : Nat} {sent : List (Sent ρ)}
    {n : Network ρ} {history : History} (h : Announces c L M sent n)
    (hplaces : Places c n.log history.events)
    (hindex : ∀ x ∈ sent, ∀ index ∈ x.call.published?, index < 2 ^ 63) :
    EventSet history.events where
  sorted := history.sorted
  storing := by
    intro e he
    obtain ⟨x, hx, hplaced, hdecode, -⟩ := Places.check hplaces h.fits he
    refine ⟨history.storable e he, ⟨_, hdecode⟩, ?_⟩
    rw [hplaced.rows (h.fits x hx)]
    intro r hr i hi
    -- only an addition carries an index, and a large one was published
    have hxi : x.2.index? = some i := by
      obtain ⟨_, x⟩ := x
      cases x with
      | pool event =>
        cases event <;> simp [Emission.toVeil, PoolEvent.toVeil, VeilEvent.rows,
          Tables.empty] at hr
      | allowlist event =>
        cases event <;> simp only [Emission.toVeil, AspEvent.toVeil, VeilEvent.rows,
          List.mem_singleton] at hr <;> subst hr
        · exact hi
        · cases hi
    refine not_le.mp fun hlarge => ?_
    obtain ⟨y, hy, hpub⟩ := (h.indices i hlarge).mp ⟨x, hx, hxi⟩
    exact absurd (hindex y hy i hpub) (not_lt.mpr hlarge)
  leaves := by
    have hstored := h.storesLeaves hplaces
    have hpool : (Tables.of history.events).commitments.map (fun r => (r.pool, r.leafIndex)) =
        ((Tables.of history.events).commitments.map (·.leafIndex)).map (Prod.mk c.pool) := by
      rw [List.map_map]
      exact List.map_congr_left fun r hr => Prod.ext (hstored.mem hr).1 rfl
    rw [hpool]
    exact (hstored.leafIndices.nodup_iff.mpr List.nodup_range).map
      (Prod.mk_right_injective c.pool)
  nullifiers := by
    obtain ⟨settled, hreplay⟩ := h.replayable
    rw [Places.nullifiers hplaces h.fits, h.pool]
    exact (announced_pool hreplay).1.map (Prod.mk_right_injective c.pool)

end Network

end Veil
