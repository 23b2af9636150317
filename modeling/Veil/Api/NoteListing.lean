/-
# The notes the API lists of a run

`GET /v1/notes`, followed from the pool: an accepted `transact` announces its two outputs with their
encryptions, the indexer stores a row for each, and the handler lists the rows in the order of the
tree.

A wallet reads the listing page by page while the indexer goes on.  `Feed` is what the requests
meet: stores that each hold a beginning of one list of events, later ones no less.  An RPC follower
that started before the first event is such a feed, whatever happens to it in between
(`Passes.feed`).  Over a feed the listing only grows at its end, so that the pages fit together
(`Feed.serves`).
-/
import Veil.Api.Lookups

namespace Veil

open Tx

namespace Network

variable {ρ : Type} {c : Contracts} {L M : Nat} {n n' : Network ρ} {calls : List (Sent ρ)}
  {log : List (Nat × Emission)} {events : List EmittedEvent}

/-! ## 1. Outputs -/

/-- An output as the listing has it: leaf index, commitment, encryption and ledger. -/
def output? (x : Nat × Emission) : Option (Nat × Nat × List UInt8 × Nat) :=
  match x.2 with
  | .pool (.newCommitment commitment index encrypted) => some (index, commitment, encrypted, x.1)
  | _ => none

/-- The columns of `pool_commitments`. -/
theorem Places.outputs (h : Places c log events) (hfits : ∀ x ∈ log, x.2.Fits c) :
    (Tables.of events).commitments.map (fun r =>
        (r.pool, r.origin, r.leafIndex, r.commitment, r.encryptedOutput, r.ledger)) =
      (log.filterMap output?).map fun o =>
        (c.pool, .transact, o.1, o.2.1, some o.2.2.1, o.2.2.2) := by
  rw [List.map_filterMap]
  refine columns_of_places (fun x => (output? x).map fun o =>
    (c.pool, Origin.transact, o.1, o.2.1, some o.2.2.1, o.2.2.2)) ?_ hfits h
  rintro ⟨ledger, x⟩ e hx hf
  rw [hx.rows hf]
  obtain ⟨hledger, hc, -⟩ := hx
  cases x with
  | pool event =>
    cases event <;> simp [Emission.toVeil, PoolEvent.toVeil, VeilEvent.rows, Tables.empty, output?,
      hc, hledger, Emission.emitter]
  | allowlist event =>
    cases event <;> simp [Emission.toVeil, AspEvent.toVeil, VeilEvent.rows, Tables.empty, output?]

/-- The leaf of an output. -/
theorem leaf?_of_output (x : Nat × Emission) :
    (output? x).map (fun o => (o.1, o.2.1)) = x.2.pool?.bind PoolEvent.leaf? := by
  obtain ⟨ledger, x⟩ := x
  cases x with
  | pool event => cases event <;> rfl
  | allowlist event => rfl

/-- **The outputs stand at consecutive leaves.** -/
theorem Announces.outputs {sent : List (Sent ρ)} (h : Announces c L M sent n) :
    (n.log.filterMap output?).map (fun o => (o.1, o.2.1)) = n.leaves.zipIdx.map Prod.swap := by
  rw [← h.leaf_events, ← h.pool, List.filterMap_filterMap, List.map_filterMap]
  exact List.filterMap_congr fun x _ => leaf?_of_output x

theorem Announces.leaf_of_output {sent : List (Sent ρ)} (h : Announces c L M sent n)
    {o : Nat × Nat × List UInt8 × Nat} (ho : o ∈ n.log.filterMap output?) :
    n.leaves[o.1]? = some o.2.1 := by
  have hmem := List.mem_map_of_mem (f := fun o => (o.1, o.2.1)) ho
  rw [h.outputs] at hmem
  obtain ⟨⟨v, i⟩, hzip, heq⟩ := List.mem_map.mp hmem
  obtain ⟨hi, hv⟩ := Prod.mk.inj heq
  dsimp only at hi hv
  rw [← hi, ← hv]
  exact List.mem_zipIdx_iff_getElem?.mp hzip

/-- **One accepted `transact`** announces both outputs. -/
theorem exec_outputs {sent : Sent ρ} {r : Pool.Request} {ext : Externals ρ}
    (hosted : sent.call.Hosted c) (hcall : sent.call = .pool (.request r ext))
    (hexit : r.isExit = false) (hok : exec sent n = .ok n') :
    ∃ index,
      (index, r.proof.outputCommitment0, r.extData.encryptedOutput0, sent.ledger) ∈
        n'.log.filterMap output? ∧
      (index + 1, r.proof.outputCommitment1, r.extData.encryptedOutput1, sent.ledger) ∈
        n'.log.filterMap output? := by
  obtain ⟨ledger, call⟩ := sent
  subst hcall
  rcases exec_cases hok with ⟨entry, env, hentry, henv, rfl⟩ | ⟨i, s, hcall, -, -⟩
  · obtain rfl := Call.pool.inj hentry
    have heffect := Pool.Request.effect hosted.1 henv
    unfold Pool.RequestEffect at heffect
    rw [hexit, if_neg Bool.false_ne_true] at heffect
    obtain ⟨token, index, -, -, hevents⟩ := heffect.events
    refine ⟨index, ?_, ?_⟩
    all_goals
      rw [hevents, List.append_assoc, List.append_assoc, emitted_append, List.filterMap_append]
      refine List.mem_append_right _ (List.mem_filterMap.mpr ?_)
    · exact ⟨(ledger, .pool (.newCommitment _ index _)), by simp, rfl⟩
    · exact ⟨(ledger, .pool (.newCommitment _ (index + 1) _)), by simp, rfl⟩
  · cases hcall

/-- An accepted call leaves the log as it was, and adds to it. -/
theorem log_exec {sent : Sent ρ} (hok : exec sent n = .ok n') : n.log <+: n'.log := by
  rcases exec_cases hok with ⟨entry, env, -, -, rfl⟩ | ⟨i, s, -, -, rfl⟩
  · exact List.prefix_append _ _
  · exact List.prefix_append _ _

/-- **Every run** announces the outputs of the `transact` calls it accepted. -/
theorem outputs_run (hosted : ∀ x ∈ calls, x.call.Hosted c) {sent : Sent ρ} {r : Pool.Request}
    {ext : Externals ρ} (hsent : sent ∈ accepted exec calls n)
    (hcall : sent.call = .pool (.request r ext)) (hexit : r.isExit = false) :
    ∃ index,
      (index, r.proof.outputCommitment0, r.extData.encryptedOutput0, sent.ledger) ∈
        (run exec calls n).log.filterMap output? ∧
      (index + 1, r.proof.outputCommitment1, r.extData.encryptedOutput1, sent.ledger) ∈
        (run exec calls n).log.filterMap output? := by
  refine (accepted_induction (P := fun done m => (∀ x ∈ done, x ∈ calls) → sent ∈ done →
    ∃ index,
      (index, r.proof.outputCommitment0, r.extData.encryptedOutput0, sent.ledger) ∈
        m.log.filterMap output? ∧
      (index + 1, r.proof.outputCommitment1, r.extData.encryptedOutput1, sent.ledger) ∈
        m.log.filterMap output?) (fun done m x m' hP hok hmem hin => ?_) calls [] n
    (fun _ hin => ?_)) (fun x hx => (accepted_sublist _ _ _).subset hx) hsent
  · rcases List.mem_append.mp hin with hin | hin
    · -- announced before, and the log has only grown
      obtain ⟨index, h0, h1⟩ := hP (fun y hy => hmem y (List.mem_append_left _ hy)) hin
      have hgrown := (log_exec hok).filterMap output?
      exact ⟨index, hgrown.subset h0, hgrown.subset h1⟩
    · obtain rfl := List.mem_singleton.mp hin
      exact exec_outputs (hosted sent (hmem sent (by simp))) hcall hexit hok
  · cases hin

/-! ## 2. A feed -/

/-- **Stores that follow one list of events**: the store request `i` meets holds its first `k i`
events. -/
structure Feed (c : Contracts) (log : List (Nat × Emission)) (events : List EmittedEvent)
    (k : Nat → Nat) (stores : Nat → Store) : Prop where
  placed : Places c log events
  sorted : events.Pairwise fun a b => a.position < b.position
  grows : ∀ i, k i ≤ k (i + 1)
  sound : ∀ i, (stores i).Sound
  stored : ∀ i, (stores i).stored.Perm (events.take (k i))
  /-- Nothing up to `indexed_ledger` is missing. -/
  indexed : ∀ i, ∀ e ∈ events, e.position.ledger ≤ Verify.indexedLedger (stores i) →
    e ∈ events.take (k i)

end Network

namespace Api

/-- Rows of `transact` at consecutive positions fill them without a gap. -/
theorem contiguous_of_range : ∀ {rows : List CommitmentRow} {n : Nat},
    (∀ r ∈ rows, r.origin = .transact) → rows.map (·.leafIndex) = List.range' n rows.length →
    Contiguous n rows
  | [], _, _, _ => trivial
  | row :: rows, n, horigin, hrange => by
    rw [List.map_cons, List.length_cons, List.range'_succ, List.cons.injEq] at hrange
    have hleaves : (rowLeaves row).length = 1 := by
      rw [rowLeaves, horigin row List.mem_cons_self, if_neg (by decide), List.length_singleton]
    refine ⟨hrange.1, ?_⟩
    rw [hleaves]
    exact contiguous_of_range (fun r hr => horigin r (List.mem_cons_of_mem _ hr)) hrange.2

end Api

namespace Network

variable {ρ : Type} {c : Contracts} {L M : Nat} {n : Network ρ} {sent : List (Sent ρ)}
  {events : List EmittedEvent} {k : Nat → Nat} {stores : Nat → Store}

section Feeds

/-- The outputs a store knows. -/
def knownOutputs (log : List (Nat × Emission)) (k : Nat) : List (Nat × Nat × List UInt8 × Nat) :=
  (log.take k).filterMap output?

/-- What happened up to `indexed_ledger` is among the events stored. -/
theorem Feed.mem_take {log : List (Nat × Emission)} (h : Feed c log events k stores) {i : Nat}
    {x : Nat × Emission} (hx : x ∈ log) (hle : x.1 ≤ Verify.indexedLedger (stores i)) :
    x ∈ log.take (k i) := by
  obtain ⟨j, hj, rfl⟩ := List.mem_iff_getElem.mp hx
  have hj' : j < events.length := h.placed.length_eq ▸ hj
  have hplaced : PlacedAt c log[j] events[j] := h.placed.get hj hj'
  have hstored : events[j] ∈ events.take (k i) := by
    refine h.indexed i _ (List.getElem_mem hj') ?_
    rw [hplaced.1]
    exact hle
  -- positions are distinct, so the event is stored as number `j`
  obtain ⟨m, hm, heq⟩ := List.mem_iff_getElem.mp hstored
  rw [List.getElem_take] at heq
  have hnodup : events.Nodup := by
    refine h.sorted.imp ?_
    rintro a _ hlt rfl
    exact lt_irrefl _ hlt
  obtain rfl := (hnodup.getElem_inj_iff).mp heq
  rw [List.length_take] at hm
  rw [List.mem_take_iff_getElem]
  exact ⟨m, by omega, rfl⟩

/-- An output up to the first `indexed_ledger` is known to every request. -/
theorem Feed.known {log : List (Nat × Emission)} (h : Feed c log events k stores)
    {o : Nat × Nat × List UInt8 × Nat} (ho : o ∈ log.filterMap output?)
    (hle : o.2.2.2 ≤ Verify.indexedLedger (stores 0)) (j : Nat) : o ∈ knownOutputs log (k j) := by
  obtain ⟨x, hx, houtput⟩ := List.mem_filterMap.mp ho
  have hledger : x.1 = o.2.2.2 := by
    unfold output? at houtput
    split at houtput
    · obtain rfl := Option.some.inj houtput
      rfl
    · cases houtput
  have hfirst : x ∈ log.take (k 0) := h.mem_take hx (hledger.trans_le hle)
  have hlater : log.take (k 0) <+: log.take (k j) :=
    List.take_prefix_take_left (monotone_nat_of_le_succ h.grows (Nat.zero_le j))
  exact List.mem_filterMap.mpr ⟨x, hlater.subset hfirst, houtput⟩

variable (h : Feed c n.log events k stores) (hann : Announces c L M sent n)

include h hann

/-- The store shows its events. -/
theorem Feed.shows (i : Nat) :
    Shows c (n.log.take (k i)) n.log (n.log.take (k i)) (stores i) where
  begins := List.prefix_rfl
  within := List.take_sublist _ _
  fits := hann.fits
  sound := h.sound i
  stored := ⟨events.take (k i), List.forall₂_take _ h.placed, h.stored i,
    h.sorted.sublist (List.take_sublist _ _)⟩

/-- The rows of a store, column by column. -/
theorem Feed.columns (i : Nat) :
    (Tables.of (events.take (k i))).commitments.map (fun r =>
        (r.pool, r.origin, r.leafIndex, r.commitment, r.encryptedOutput, r.ledger)) =
      (knownOutputs n.log (k i)).map fun o =>
        (c.pool, .transact, o.1, o.2.1, some o.2.2.1, o.2.2.2) :=
  Places.outputs (List.forall₂_take (k i) h.placed) fun x hx =>
    hann.fits x (List.mem_of_mem_take hx)

/-- **The store holds the pool's first leaves**, row by row. -/
theorem Feed.storesPool (i : Nat) (verified : Address → Option VerifiedState) :
    Api.StoresPool ⟨stores i, verified⟩ c.pool (Tables.of (events.take (k i))).commitments := by
  set rows := (Tables.of (events.take (k i))).commitments with hrows
  have hcolumns := h.columns hann i
  rw [← hrows] at hcolumns
  have hrow : ∀ r ∈ rows, r.pool = c.pool ∧ r.origin = .transact := by
    intro r hr
    obtain ⟨o, -, heq⟩ := List.mem_map.mp (hcolumns ▸ List.mem_map_of_mem hr)
    simp only [Prod.mk.injEq] at heq
    exact ⟨heq.1.symm, heq.2.1.symm⟩
  have hindices : rows.map (·.leafIndex) = (knownOutputs n.log (k i)).map Prod.fst := by
    have := congrArg (List.map fun t : Address × Origin × Nat × Nat × Option (List UInt8) × Nat =>
      t.2.2.1) hcolumns
    simpa only [List.map_map, Function.comp_def] using this
  -- a beginning of the outputs has a beginning of the positions
  have hrange : rows.map (·.leafIndex) = List.range' 0 rows.length := by
    have hbegin : rows.map (·.leafIndex) <+: List.range' 0 n.leaves.length := by
      have hall := congrArg (List.map Prod.fst) hann.outputs
      rw [List.map_map, List.map_map] at hall
      have hpositions : n.leaves.zipIdx.map (Prod.fst ∘ Prod.swap) =
          List.range' 0 n.leaves.length := List.zipIdx_map_snd ..
      rw [hpositions] at hall
      rw [hindices, ← hall]
      exact ((List.take_prefix _ _).filterMap _).map _
    refine List.ext_getElem (by simp) fun j h1 h2 => ?_
    rw [hbegin.getElem h1, List.getElem_range', List.getElem_range']
  refine ⟨?_, Api.contiguous_of_range (fun r hr => (hrow r hr).2) hrange, fun r hr => ?_⟩
  · have hsame : (stores i).tables.commitments.Perm rows := by
      rw [(h.sound i).tables]
      exact (Tables.same_of_perm (h.stored i)).commitments
    refine (List.Perm.of_eq (List.filter_eq_self.mpr fun r hr => ?_)).trans hsame
    simpa using (hrow r (hsame.subset hr)).1
  · have hmem := List.mem_map_of_mem (f := (·.leafIndex)) hr
    rw [hrange, List.mem_range'_1] at hmem
    have hlen : rows.length ≤ 2 ^ L := by
      have hbound := congrArg List.length hindices
      have htotal := congrArg List.length hann.outputs
      have hpart : (knownOutputs n.log (k i)).length ≤ (n.log.filterMap output?).length :=
        ((List.take_prefix _ _).filterMap _).length_le
      simp only [List.length_map, List.length_zipIdx] at hbound htotal
      have := hann.holds.fits
      omega
    have hpow : 2 ^ L ≤ 2 ^ 32 := Nat.pow_le_pow_right (by omega) hann.holds.depth.2
    unfold Api.i64Max
    omega

/-- What the store lists. -/
theorem Feed.notesOf (i : Nat) :
    Api.notesOf (Tables.of (events.take (k i))).commitments =
      (knownOutputs n.log (k i)).map Api.toNote := by
  set rows := (Tables.of (events.take (k i))).commitments with hrows
  have hcolumns := h.columns hann i
  rw [← hrows] at hcolumns
  have hall : rows.filter (fun r => r.origin = .transact) = rows := by
    rw [List.filter_eq_self]
    intro r hr
    obtain ⟨o, -, heq⟩ := List.mem_map.mp (hcolumns ▸ List.mem_map_of_mem hr)
    simp only [Prod.mk.injEq] at heq
    simpa using heq.2.1.symm
  have hread := congrArg (List.map
    fun t : Address × Origin × Nat × Nat × Option (List UInt8) × Nat =>
      (t.2.2.1, t.2.2.2.1, t.2.2.2.2.1.getD [], t.2.2.2.2.2)) hcolumns
  simp only [List.map_map, Function.comp_def, Option.getD_some] at hread
  rw [Api.notesOf, hall, hread]
  simp

/-- **A spend the store knows is one of the pool.** -/
theorem Feed.spent_of_nullifier {i : Nat} {verified : Address → Option VerifiedState} {v : Nat}
    {spend : Nat × String} (hspend : Api.nullifier ⟨stores i, verified⟩ c.pool v = some spend) :
    n.pool.pool.spent v = true := by
  have hknown := ((h.shows hann i).nullifier verified v).1 spend hspend
  have hall := ((List.take_sublist (k i) n.log).filterMap spend?).subset hknown
  exact (hann.spent_iff v).mpr ⟨spend.1, hall⟩

/-- **The pages of the listing fit together.** -/
theorem Feed.serves (verified : Nat → Address → Option VerifiedState) :
    Paging.Serves (fun note : Api.Note => note.leafIndex + 1)
      (fun i => (knownOutputs n.log (k i)).map Api.toNote) (fun _ => 1000)
      (Api.noteRequest (fun i => ⟨stores i, verified i⟩) c.pool fun _ => some 1000) := by
  have hgrows : ∀ i, (Tables.of (events.take (k i))).commitments <+:
      (Tables.of (events.take (k (i + 1)))).commitments := fun i =>
    List.IsPrefix.flatMap (List.take_prefix_take_left (h.grows i)) _
  have hlimit : ∀ _ : Nat, ∀ l ∈ some 1000, 1 ≤ l ∧ l ≤ Api.maxPage := by
    rintro - l hl
    obtain rfl := Option.some.inj hl
    exact ⟨by decide, by decide⟩
  have hserves := Api.serves_notes (fun i => h.storesPool hann i (verified i)) hgrows hlimit
  simp only [h.notesOf hann] at hserves
  exact hserves

end Feeds

/-- **A spend up to `indexed_ledger` is known.** -/
theorem Feed.nullifier_of_spent {calls : List (Sent ρ)} (hfresh : Fresh L M n)
    (hosted : ∀ x ∈ calls, x.call.Hosted c)
    (hordered : calls.Pairwise fun x y => x.ledger ≤ y.ledger)
    (h : Feed c (run exec calls n).log events k stores) {i v : Nat}
    (hspent : (run exec (upTo (Verify.indexedLedger (stores i)) calls) n).pool.pool.spent v = true)
    (verified : Address → Option VerifiedState) :
    ∃ spend, Api.nullifier ⟨stores i, verified⟩ c.pool v = some spend := by
  have hpast : Announces c L M _ (run exec (upTo (Verify.indexedLedger (stores i)) calls) n) :=
    hfresh.announces_run fun x hx => hosted x (List.mem_filter.mp hx).1
  obtain ⟨ledger, hspend⟩ := (hpast.spent_iff v).mp hspent
  obtain ⟨x, hx, hspend⟩ := List.mem_filterMap.mp hspend
  rw [log_asOf hfresh.log hordered] at hx
  obtain ⟨hx, hle⟩ := List.mem_filter.mp hx
  have hknown : x ∈ (run exec calls n).log.take (k i) := h.mem_take hx (of_decide_eq_true hle)
  exact ((h.shows (hfresh.announces_run hosted) i).nullifier verified v).2 ledger
    (List.mem_filterMap.mpr ⟨x, hknown, hspend⟩)

end Network

/-! ## 3. A follower is a feed -/

namespace Following

open Network

variable {c : Contracts} {pageSize s : Nat} {w w' : World}

/-- The source's list only grows, and by events in ledgers it had not reported. -/
theorem grows_run {f : Follower} (hrun : Reaches f s w w') :
    w.history.Grows w'.history w.reported ∧ w.reported ≤ w'.reported := by
  induction hrun with
  | refl => exact ⟨⟨List.prefix_rfl, fun e he => .inl he⟩, le_refl _⟩
  | tail _ hstep ih =>
    obtain ⟨hgrows, hreported⟩ := ih
    cases hstep with
    | grow grows =>
      refine ⟨⟨hgrows.kept.trans grows.kept, fun e he => ?_⟩, hreported⟩
      rcases grows.later e he with hold | hnew
      · exact hgrows.later e hold
      · exact .inr (hreported.trans_lt hnew)
    | begin idle arg began => exact ⟨hgrows, hreported⟩
    | answer asking honest => exact ⟨hgrows, hreported.trans (le_max_left _ _)⟩
    | commit holding synced => exact ⟨hgrows, hreported⟩
    | kill => exact ⟨hgrows, hreported⟩

/-- What is covered stays covered. -/
theorem CursorLe.covered (h : CursorLe w w') {e : EmittedEvent}
    (he : Following.covered s w e = true) : Following.covered s w' e = true := by
  cases hc : w.store.checkpoint .rpc with
  | none =>
    rw [covered_of_none hc] at he
    cases he
  | some checkpoint =>
    obtain ⟨hs, hle⟩ := (covered_of_some hc e).mp he
    obtain ⟨checkpoint', hc', hcursor⟩ := h checkpoint hc
    exact (covered_of_some hc' e).mpr ⟨hs, hle.trans hcursor⟩

/-- **The store holds the first events of the source**, also as the source is later. -/
theorem Inv.stored_first (h : Inv s w) {history : History}
    (hgrows : w.history.Grows history w.reported)
    (hstart : ∀ e ∈ history.events, s ≤ e.position.ledger) :
    history.events.filter (Following.covered s w) <+: history.events ∧
      w.store.stored.Perm (history.events.filter (Following.covered s w)) := by
  have hgrown : Inv s { w with history := history } := h.grow hgrows
  have hinitial := covered_initial (w := { w with history := history }) (s := s) hstart
  exact ⟨hinitial, hgrown.perm⟩

/-- **Moments of a follower's run**, in order, over a source that comes to place `log`. -/
structure Passes (c : Contracts) (pageSize s : Nat) (log : List (Nat × Emission))
    (moment : Nat → World) : Prop where
  first : ∃ history, Reaches ⟨c, .rpc, pageSize⟩ s (.fresh history) (moment 0)
  next : ∀ i, Reaches ⟨c, .rpc, pageSize⟩ s (moment i) (moment (i + 1))
  /-- The follower starts at or before the first event. -/
  last : ∃ last, (∀ i, Reaches ⟨c, .rpc, pageSize⟩ s (moment i) last) ∧
    Places c log last.history.events ∧ ∀ e ∈ last.history.events, s ≤ e.position.ledger

/-- **The moments of a follower's run are a feed.** -/
theorem Passes.feed {moment : Nat → World} {log : List (Nat × Emission)}
    (h : Passes c pageSize s log moment) :
    ∃ events k, Feed c log events k fun i => (moment i).store := by
  obtain ⟨history, hfirst⟩ := h.first
  obtain ⟨last, hlast, hplaces, hstart⟩ := h.last
  have hinv : ∀ i, Inv s (moment i) := by
    intro i
    induction i with
    | zero => exact (inv_fresh s history).run hfirst
    | succ i ih => exact ih.run (h.next i)
  have hgrows : ∀ i, (moment i).history.Grows last.history (moment i).reported := fun i =>
    (grows_run (hlast i)).1
  have hpart : ∀ i, last.history.events.take
      (last.history.events.filter (Following.covered s (moment i))).length =
      last.history.events.filter (Following.covered s (moment i)) := fun i =>
    (List.prefix_iff_eq_take.mp ((hinv i).stored_first (hgrows i) hstart).1).symm
  refine ⟨last.history.events,
    fun i => (last.history.events.filter (Following.covered s (moment i))).length, hplaces,
    last.history.sorted, fun i => ?_, fun i => (hinv i).sound, fun i => ?_, fun i e he hle => ?_⟩
  · refine (List.monotone_filter_right _ fun e he => ?_).length_le
    exact ((hinv i).cursor_run (h.next i)).covered he
  · rw [hpart i]
    exact ((hinv i).stored_first (hgrows i) hstart).2
  · rw [hpart i]
    have hstored : e ∈ (moment i).store.stored :=
      ((hinv i).grow (hgrows i)).indexed he (hstart e he) hle
    exact (((hinv i).stored_first (hgrows i) hstart).2.subset hstored)

end Following

end Veil
