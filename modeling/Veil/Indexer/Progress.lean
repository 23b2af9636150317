/-
# What can stop ingestion

`sync_to_tip` returns at the first event it cannot decode, place or store, and asks for the same
page again when it is next called.  So an event that no store accepts stops it for good.

The contracts check less than the tables do, and the two are compared here over whole runs.  The
pool's nullifiers and tree positions are new each time, its numbers fit, and the events name the
contract that emitted them.  What does not fit is one argument of the allowlist: the operator
publishes an index of 64 bits, the column that takes it is signed (`Store.Indexed`).

`no_call_stops_ingestion_iff` says that this is all.
-/
import Veil.Indexer.Network

namespace Veil

open Tx

/-! ## 1. Pages that are read -/

namespace Follower

theorem decodeEvent_of_decode {event : ContractEvent} {decoded : Decoded}
    (h : event.raw.decode = .ok decoded) :
    ∃ st, decodeEvent event = .ok st ∧ st.decoded = decoded := by
  unfold decodeEvent
  split
  · next d hd => exact ⟨_, rfl, Except.ok.inj (hd.symm.trans h)⟩
  · next error herror =>
    rw [herror] at h
    cases h

/-- A page in order, of events that decode and pass for what they are, is read. -/
theorem readEvents_accepts {contracts : Contracts} : ∀ {events : List ContractEvent}
    {previous : Option EventPosition},
    events.Pairwise (fun a b => a.position < b.position) →
    (∀ p ∈ previous, ∀ e ∈ events, p < e.position) →
    (∀ e ∈ events, ∃ decoded, e.raw.decode = .ok decoded ∧
      contracts.check e.toEmittedEvent decoded = .ok ()) →
    ∃ batch last, readEvents contracts previous events = .ok (batch, last) ∧
      ∀ l ∈ last, l ∈ previous ∨ ∃ e ∈ events, e.position = l
  | [], previous, _, _, _ => ⟨[], previous, rfl, fun l hl => .inl hl⟩
  | event :: events, previous, hsorted, hprevious, hread => by
    rw [List.pairwise_cons] at hsorted
    have horder : checkOrder event.position previous = .ok () := by
      cases previous with
      | none => rfl
      | some p => exact ensure_pos (not_le.mpr (hprevious p rfl event List.mem_cons_self)) _
    obtain ⟨decoded, hdecode, hcheck⟩ := hread event List.mem_cons_self
    obtain ⟨st, hst, rfl⟩ := decodeEvent_of_decode hdecode
    have hnext : ∀ p ∈ some event.position, ∀ e ∈ events, p < e.position :=
      fun p hp e he => Option.some.inj hp ▸ hsorted.1 e he
    obtain ⟨batch, last, hrest, hlast⟩ := readEvents_accepts hsorted.2 hnext
      (fun e he => hread e (List.mem_cons_of_mem _ he))
    refine ⟨st :: batch, last, bind_eq_ok.mpr ⟨(), horder, bind_eq_ok.mpr ⟨st, hst,
      bind_eq_ok.mpr ⟨(), hcheck, bind_eq_ok.mpr ⟨_, hrest, rfl⟩⟩⟩⟩, fun l hl => .inr ?_⟩
    rcases hlast l hl with hl | ⟨e, he, hl⟩
    · exact ⟨event, List.mem_cons_self, Option.some.inj hl⟩
    · exact ⟨e, List.mem_cons_of_mem _ he, hl⟩

end Follower

/-! ## 2. Stores hold signed indices only -/

namespace Store

/-- The allowlist indices of the stored events fit their column. -/
def Indexed (s : Store) : Prop := ∀ e ∈ s.stored, e.rows.Indexed

variable {s s' : Store} {st : StoredEvent}

theorem insertTyped_indexed {event : EmittedEvent} {veil : VeilEvent} {t t' : Tables}
    (h : insertTyped event veil t = .ok t') : (veil.rows event).Indexed := by
  intro r hr i hi
  cases veil with
  | leafAdded leaf index root =>
    obtain ⟨_, hindex, -⟩ := bind_eq_ok.mp h
    obtain rfl := List.mem_singleton.mp hr
    exact Option.some.inj hi ▸ ensure_eq_ok.mp hindex
  | leafRevoked leaf root =>
    obtain rfl := List.mem_singleton.mp hr
    cases hi
  | _ => cases hr

theorem insertEvent_indexed {inserted : Bool} (hs : s.Indexed)
    (h : insertEvent st s = .ok (inserted, s')) : s'.Indexed := by
  obtain ⟨_, hcols, hrest⟩ := bind_eq_ok.mp h
  cases hfound : s.events.find? fun row => row.position = st.event.position with
  | some row =>
    rw [hfound] at hrest
    obtain ⟨_, -, hrest⟩ := bind_eq_ok.mp hrest
    obtain ⟨-, rfl⟩ := Prod.mk.inj (Except.ok.inj hrest)
    exact hs
  | none =>
    rw [hfound] at hrest
    obtain ⟨tables, htables, hrest⟩ := bind_eq_ok.mp hrest
    obtain ⟨-, rfl⟩ := Prod.mk.inj (Except.ok.inj hrest)
    intro e he
    rw [stored_append, List.mem_append, List.mem_singleton] at he
    rcases he with he | rfl
    · exact hs e he
    · show st.event.toEmittedEvent.rows.Indexed
      rw [EmittedEvent.rows, st.decodes]
      cases hd : st.decoded with
      | ignored name =>
        intro r hr
        cases hr
      | event veil =>
        rw [hd] at htables
        exact insertTyped_indexed htables

theorem insertEvents_indexed : ∀ {events : List StoredEvent} {o o' : BatchOutcome} {s s' : Store},
    s.Indexed → insertEvents events o s = .ok (o', s') → s'.Indexed
  | [], _, _, s, s', hs, h => by
    obtain ⟨-, rfl⟩ := Prod.mk.inj (Except.ok.inj h)
    exact hs
  | st :: events, _, _, s, s', hs, h => by
    obtain ⟨⟨inserted, s1⟩, h1, h⟩ := bind_eq_ok.mp h
    exact insertEvents_indexed (insertEvent_indexed hs h1) h

theorem writeBatch_indexed {stream : Stream} {events : List StoredEvent} {checkpoint : Checkpoint}
    {o : BatchOutcome} (hs : s.Indexed) (h : writeBatch stream events checkpoint s = .ok (o, s')) :
    s'.Indexed := by
  obtain ⟨_, -, h⟩ := bind_eq_ok.mp h
  obtain ⟨⟨o1, s1⟩, h1, h⟩ := bind_eq_ok.mp h
  obtain ⟨-, -, h⟩ := bind_eq_ok.mp h
  obtain ⟨-, -, h⟩ := bind_eq_ok.mp h
  obtain ⟨-, rfl⟩ := Prod.mk.inj (Except.ok.inj h)
  have hindexed := insertEvents_indexed hs h1
  exact hindexed

end Store

theorem Follower.syncPage_indexed {f : Follower} {start : Start} {page : EventsPage}
    {report report' : SyncReport} {next : Option Start} {s s' : Store} (hs : s.Indexed)
    (h : f.syncPage start page report s = .ok (next, report', s')) : s'.Indexed := by
  obtain ⟨⟨batch, last⟩, -, h⟩ := bind_eq_ok.mp h
  obtain ⟨_, -, h⟩ := bind_eq_ok.mp h
  obtain ⟨⟨report1, s1⟩, hcommit, h⟩ := bind_eq_ok.mp h
  simp only [Except.ok.injEq, Prod.mk.injEq] at h
  obtain ⟨-, -, rfl⟩ := h
  unfold commitPage at hcommit
  split at hcommit
  · obtain ⟨⟨outcome, s2⟩, hwrite, hcommit⟩ := bind_eq_ok.mp hcommit
    obtain ⟨-, rfl⟩ := Prod.mk.inj (Except.ok.inj hcommit)
    exact Store.writeBatch_indexed hs (liftStore_eq_ok.mp hwrite)
  · obtain ⟨-, rfl⟩ := Prod.mk.inj (Except.ok.inj hcommit)
    exact hs

/-! ## 3. Pages of a run -/

namespace Network

/-- **`sync_to_tip` moves past these events**: whatever the stream and the page size, a page of
them, read from the store's cursor or before it, is decoded, checked and committed. -/
def Passes (c : Contracts) (s : Store) (events : List EmittedEvent) : Prop :=
  ∀ (stream : Stream) (pageSize : Nat) (start : Start) (page : EventsPage) (report : SyncReport),
    page.events.map (·.toEmittedEvent) = events →
    (∀ p ∈ start.previous, p ≤ page.cursor ∧ ∀ e ∈ events, p < e.position) →
    (∀ e ∈ events, e.position ≤ page.cursor) →
    (∀ stored, s.checkpoint stream = some stored → stored.cursor ≤ page.cursor) →
    (Checkpoint.mk page.cursor page.latestLedger).Fits →
    ∃ next report' s', (Follower.mk c stream pageSize).syncPage start page report s =
        .ok (next, report', s') ∧ ∀ e ∈ events, e ∈ s'.stored

instance : Std.Symm Store.Compatible where
  symm := by
    rintro a b ⟨hposition, hleaves, hnullifiers⟩
    exact ⟨hposition.symm, fun r hr x hx h => hleaves x hx r hr ⟨h.1.symm, h.2.symm⟩,
      fun r hr x hx h => hnullifiers x hx r hr ⟨h.1.symm, h.2.symm⟩⟩

/-- Events of a set that are stored, and later ones, are compatible in any order. -/
theorem compatible_of_stored {before page after : List EmittedEvent} {s : Store}
    (hset : EventSet (before ++ page ++ after)) (hs : s.Sound)
    (hbefore : ∀ e ∈ s.stored, e ∈ before) :
    (s.stored ++ page).Pairwise Store.Compatible := by
  have hnodup := (List.nodup_append.mp hset.nodup).1
  obtain ⟨-, hpage, hdisjoint⟩ := List.nodup_append.mp hnodup
  have hmem : ∀ e ∈ s.stored ++ page, e ∈ before ++ page ++ after := by
    intro e he
    rcases List.mem_append.mp he with he | he
    · exact List.mem_append_left _ (List.mem_append_left _ (hbefore e he))
    · exact List.mem_append_left _ (List.mem_append_right _ he)
  refine List.Nodup.pairwise_of_forall_ne ?_ fun a ha b hb hne =>
    hset.compatible.forall (hmem a ha) (hmem b hb) hne
  exact List.nodup_append.mpr ⟨hs.once.of_map, hpage,
    fun a ha b hb hab => hdisjoint a (hbefore a ha) b hb hab⟩

/-- **Events that make an index are stored page by page.** -/
theorem passes_of_eventSet {c : Contracts} {before page after : List EmittedEvent} {s : Store}
    (hset : EventSet (before ++ page ++ after))
    (hcheck : ∀ e ∈ page, ∃ decoded, e.raw.decode = .ok decoded ∧ c.check e decoded = .ok ())
    (hs : s.Sound) (hbefore : ∀ e ∈ s.stored, e ∈ before) : Passes c s page := by
  intro stream pageSize start answer report hevents hprevious hcursor hforward hfits
  subst hevents
  have hsorted : answer.events.Pairwise fun a b => a.position < b.position := by
    have hpage := (List.pairwise_append.mp (List.pairwise_append.mp hset.sorted).1).2.1
    exact (List.pairwise_map (R := fun a b : EmittedEvent => a.position < b.position)).mp hpage
  obtain ⟨batch, last, hread, hlast⟩ := Follower.readEvents_accepts hsorted
    (fun p hp e he => (hprevious p hp).2 _ (List.mem_map_of_mem he))
    (fun e he => hcheck _ (List.mem_map_of_mem he))
  have hmap := (Follower.readEvents_ok hread).1
  have hlastCursor : Follower.checkCursor answer.cursor last = .ok () := by
    cases hl : last with
    | none => rfl
    | some l =>
      refine ensure_pos (not_lt.mpr ?_) _
      rcases hlast l hl with hp | ⟨e, he, rfl⟩
      · exact (hprevious l hp).1
      · exact hcursor _ (List.mem_map_of_mem he)
  have hbatch : batch.map (·.event.toEmittedEvent) = answer.events.map (·.toEmittedEvent) := by
    rw [← hmap, List.map_map]
    rfl
  -- the write succeeds, and is skipped for an empty page only
  have hcommit : ∀ unchanged report, ∃ report' s',
      (Follower.mk c stream pageSize).commitPage batch ⟨answer.cursor, answer.latestLedger⟩
        unchanged report s = .ok (report', s') ∧
      ∀ e ∈ answer.events.map (·.toEmittedEvent), e ∈ s'.stored := by
    intro unchanged report
    obtain ⟨o, s', hwrite, hstored⟩ := Store.writeBatch_fresh hs hfits hforward
      (fun st hst => hset.storing _ (List.mem_append_left _ (List.mem_append_right _
        (hbatch ▸ List.mem_map_of_mem hst))))
      (by rw [hbatch]; exact compatible_of_stored hset hs hbefore)
    unfold Follower.commitPage
    split
    · refine ⟨_, s', bind_eq_ok.mpr ⟨_, Follower.liftStore_eq_ok.mpr hwrite, rfl⟩, fun e he => ?_⟩
      rw [hstored, hbatch]
      exact List.mem_append_right _ he
    · next hskip =>
      refine ⟨_, _, rfl, fun e he => ?_⟩
      simp only [not_or, Bool.not_eq_false, List.isEmpty_iff] at hskip
      rw [← hbatch, hskip.2] at he
      cases he
  obtain ⟨report', s', hwrote, hall⟩ := hcommit (decide (start = .after answer.cursor)) _
  exact ⟨_, report', s', bind_eq_ok.mpr ⟨_, hread, bind_eq_ok.mpr ⟨(), hlastCursor,
    bind_eq_ok.mpr ⟨_, hwrote, rfl⟩⟩⟩, hall⟩

/-- An index beyond the signed range stays where it is: no store ever holds it. -/
theorem not_passes_of_index {c : Contracts} {x : Nat × Emission} {e : EmittedEvent} {index : Nat}
    (hx : PlacedAt c x e) (hf : x.2.Fits c) (he : e.Storable) (hindex : x.2.index? = some index)
    (hlarge : 2 ^ 63 ≤ index) : ¬Passes c .empty [e] := by
  intro hpasses
  obtain ⟨_, _, s', hsync, hstored⟩ := hpasses .rpc 1 (.ledger 0)
    ⟨[{ e with source := .rpc }], e.position, 0, 0⟩ {} rfl (by simp [Start.previous])
    (by simp) (by simp [Store.empty]) ⟨he.toid, (by decide : 0 < 2 ^ 31)⟩
  have hindexed : s'.Indexed := Follower.syncPage_indexed
    (by simp [Store.Indexed, Store.stored, Store.empty]) hsync
  have hrows := hindexed e (hstored e List.mem_cons_self)
  rw [hx.rows hf] at hrows
  obtain ⟨_, x⟩ := x
  cases x with
  | pool event => cases hindex
  | allowlist event =>
    cases event with
    | leafRevoked leaf root => cases hindex
    | leafAdded leaf index' root =>
      obtain rfl := Option.some.inj hindex
      exact absurd (hrows _ List.mem_cons_self _ rfl) (not_lt.mpr hlarge)

/-- **No call stops ingestion, but for an index the signed column does not take.**  For every run of
both contracts from their deployment, wherever the network places the events, every page of events
passes on every store that holds earlier events only, if and only if no accepted `publish_leaf`
carries an index of `2 ^ 63` or more. -/
theorem no_call_stops_ingestion_iff {ρ : Type} {c : Contracts} {L M : Nat} {n : Network ρ}
    (hfresh : Fresh L M n) {calls : List (Sent ρ)} (hosted : ∀ x ∈ calls, x.call.Hosted c)
    {history : History} (hplaces : Places c (run exec calls n).log history.events) :
    (∀ before page after, history.events = before ++ page ++ after → ∀ s : Store, s.Sound →
      (∀ e ∈ s.stored, e ∈ before) → Passes c s page) ↔
    ∀ x ∈ accepted exec calls n, ∀ index ∈ x.call.published?, index < 2 ^ 63 := by
  have h : Announces c L M _ _ := hfresh.announces_run hosted
  constructor
  · intro hpasses x hx index hindex
    by_contra hlarge
    obtain ⟨y, hy, hyi⟩ := (h.indices index (not_lt.mp hlarge)).mpr ⟨x, hx, hindex⟩
    obtain ⟨k, hk, rfl⟩ := List.mem_iff_getElem.mp hy
    have hk' : k < history.events.length := hplaces.length_eq ▸ hk
    have hplaced : PlacedAt c _ history.events[k] := hplaces.get hk hk'
    have hsplit : history.events =
        history.events.take k ++ [history.events[k]] ++ history.events.drop (k + 1) := by
      rw [List.append_assoc, List.singleton_append, List.cons_getElem_drop_succ,
        List.take_append_drop]
    refine not_passes_of_index hplaced (h.fits _ hy) (history.storable _ (List.getElem_mem hk'))
      hyi (not_lt.mp hlarge) (hpasses _ _ _ hsplit .empty Store.sound_empty ?_)
    simp [Store.stored, Store.empty]
  · intro hindex before page after hhistory s hs hbefore
    have hset := h.eventSet hplaces hindex
    refine passes_of_eventSet (hhistory ▸ hset) (fun e he => ?_) hs hbefore
    have hmem : e ∈ history.events := by
      rw [hhistory]
      exact List.mem_append_left _ (List.mem_append_right _ he)
    obtain ⟨x, -, -, hdecode, hcheck⟩ := Places.check hplaces h.fits hmem
    exact ⟨_, hdecode, hcheck⟩

/-! ### A published index -/

/-- The operator takes the tree over and publishes a leaf. -/
def operatorCalls (index : Nat) : List (Sent Unit) :=
  [⟨5, .allowlist ⟨.revokeLeaf 11 12, fun _ => true⟩⟩,
   ⟨6, .allowlist ⟨.publishLeaf 11 index 13, fun _ => true⟩⟩]

def operatorContracts : Contracts := ⟨.contract 1, .contract 2⟩

def operatorLog (index : Nat) : List (Nat × Emission) :=
  [(5, .allowlist (.leafRevoked 11 12)), (6, .allowlist (.leafAdded 11 index 13))]

def revokedAt : EventPosition := .firstOperation 5 0

def publishedAt : EventPosition := .firstOperation 6 0

def operatorHistory (index : Nat) : History where
  events := [⟨revokedAt, .contract 2, (AspEvent.leafRevoked 11 12).encode⟩,
    ⟨publishedAt, .contract 2, (AspEvent.leafAdded 11 index 13).encode⟩]
  sorted := List.pairwise_pair.mpr (by decide : revokedAt < publishedAt)
  storable := by
    intro e he
    rcases List.mem_pair.mp he with rfl | rfl
    · exact ⟨(by decide : revokedAt.toid < 2 ^ 63), (by decide : revokedAt.eventIndex < 2 ^ 31),
        (by decide : 0 < revokedAt.ledger), rfl⟩
    · exact ⟨(by decide : publishedAt.toid < 2 ^ 63), (by decide : publishedAt.eventIndex < 2 ^ 31),
        (by decide : 0 < publishedAt.ledger), rfl⟩

theorem places_operatorHistory (index : Nat) :
    Places operatorContracts (operatorLog index) (operatorHistory index).events :=
  .cons ⟨(by decide : revokedAt.ledger = 5), rfl, rfl⟩
    (.cons ⟨(by decide : publishedAt.ledger = 6), rfl, rfl⟩ .nil)

theorem hosted_operatorCalls {index : Nat} (h : index < 2 ^ 64) :
    ∀ x ∈ operatorCalls index, x.call.Hosted operatorContracts := by
  intro x hx
  rcases List.mem_pair.mp hx with rfl | rfl
  · trivial
  · exact h

/-- Freshly deployed, with trees of depth 1. -/
def deployed : Option (Network Unit) :=
  match Pool.constructor (.account 1) (.contract 3) (.contract 4) (.contract 2) 1000 (.account 5)
      30 1, ASPMembership.constructor (.account 1) 1 with
  | .ok pool, .ok allowlist => some ⟨⟨pool, [], ()⟩, allowlist, []⟩
  | _, _ => none

theorem fresh_deployed {n : Network Unit} (h : deployed = some n) : Fresh 1 1 n := by
  unfold deployed at h
  split at h
  · next pool allowlist hpool hallowlist =>
    obtain rfl := Option.some.inj h
    exact ⟨⟨_, _, _, _, _, _, _, hpool⟩, rfl, ⟨_, hallowlist⟩, rfl⟩
  · cases h

/-- A deployment on which a check evaluates to `true`. -/
theorem deployed_of_any {p : Network Unit → Bool} (h : deployed.any p = true) :
    ∃ n, Fresh 1 1 n ∧ p n = true := by
  cases hn : deployed with
  | none =>
    rw [hn] at h
    cases h
  | some n =>
    rw [hn] at h
    exact ⟨n, fresh_deployed hn, h⟩

/-- The largest index the column takes: both events pass on every empty store. -/
theorem no_call_stops_ingestion_operator : ∃ n, Fresh 1 1 n ∧
    (run exec (operatorCalls (2 ^ 63 - 1)) n).log = operatorLog (2 ^ 63 - 1) ∧
    ∀ s : Store, s.Sound → s.stored = [] →
      Passes operatorContracts s (operatorHistory (2 ^ 63 - 1)).events := by
  have hrun : (deployed.any fun n => (run exec (operatorCalls (2 ^ 63 - 1)) n).log =
      operatorLog (2 ^ 63 - 1)) = true := by decide +kernel
  obtain ⟨n, hfresh, hlog⟩ := deployed_of_any hrun
  have hlog := of_decide_eq_true hlog
  have hplaces := places_operatorHistory (2 ^ 63 - 1)
  rw [← hlog] at hplaces
  have hiff := no_call_stops_ingestion_iff hfresh (hosted_operatorCalls (by norm_num)) hplaces
  have hindex : ∀ x ∈ accepted exec (operatorCalls (2 ^ 63 - 1)) n,
      ∀ index ∈ x.call.published?, index < 2 ^ 63 := by
    intro x hx index hi
    rcases List.mem_pair.mp ((accepted_sublist _ _ _).subset hx) with rfl | rfl
    · cases hi
    · obtain rfl := Option.some.inj hi
      norm_num
  refine ⟨n, hfresh, hlog, fun s hs hempty => ?_⟩
  exact hiff.mpr hindex [] _ [] (by simp) s hs (by simp [hempty])

/-- One more, and the page with the published leaf is refused, on the empty store too. -/
theorem published_index_stops_ingestion : ∃ n, Fresh 1 1 n ∧
    (run exec (operatorCalls (2 ^ 63)) n).log = operatorLog (2 ^ 63) ∧
    Places operatorContracts (operatorLog (2 ^ 63)) (operatorHistory (2 ^ 63)).events ∧
    ∀ report, (Follower.mk operatorContracts .rpc 2).syncPage (.ledger 1)
      ⟨(operatorHistory (2 ^ 63)).events.map fun e => { e with source := .rpc }, publishedAt, 7, 1⟩
      report .empty = .error (.store (.outOfRange "allowlist leaf index" (2 ^ 63))) := by
  have hrun : (deployed.any fun n => (run exec (operatorCalls (2 ^ 63)) n).log =
      operatorLog (2 ^ 63)) = true := by decide +kernel
  obtain ⟨n, hfresh, hlog⟩ := deployed_of_any hrun
  refine ⟨n, hfresh, of_decide_eq_true hlog, places_operatorHistory _, fun report => ?_⟩
  rfl

end Network

end Veil
