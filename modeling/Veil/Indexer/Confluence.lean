/-
# The index is a function of the set of events

Any sequence of `write_batch` calls, on any streams, from either source, in any order, with any
overlap and any failures in between, leaves the tables that storing the events once in order of
emission would have left.  The order of insertion is the only trace a sequence leaves in a table,
and a table has no order, so tables are compared up to permutation (`Store.SameIndex`).

The invariant is `Store.Sound` with the columns of the raw rows (`Store.Columns`).  A store that has
both is determined by the events it holds (`sameIndex_of_perm`), whatever led to it.
-/
import Mathlib.Data.List.Perm.Basic
import Mathlib.Data.List.Nodup
import Veil.Indexer.Accepts

namespace Veil

open Tx

/-- One call of `write_batch`. -/
structure WriteCall where
  stream : Stream
  events : List StoredEvent
  checkpoint : Checkpoint

namespace WriteCall

def exec (c : WriteCall) (s : Store) : Except StoreError Store := do
  let (_, s) ← s.writeBatch c.stream c.events c.checkpoint
  .ok s

def emitted (c : WriteCall) : List EmittedEvent := c.events.map (·.event.toEmittedEvent)

end WriteCall

/-- The `inserted` counts of the successful calls, summed. -/
def inserted : List WriteCall → Store → Nat
  | [], _ => 0
  | c :: calls, s =>
    match s.writeBatch c.stream c.events c.checkpoint with
    | .ok (outcome, s') => outcome.inserted + inserted calls s'
    | .error _ => inserted calls s

/-! ## 1. Tables up to order -/

/-- The columns of a raw row that do not depend on who read it, or when. -/
def EventRow.unsourced (r : EventRow) : EmittedEvent × Nat × String :=
  (r.toEmittedEvent, r.ledger, r.name)

/-- The same columns, computed from the event. -/
def EmittedEvent.columns (e : EmittedEvent) : EmittedEvent × Nat × String :=
  (e, e.position.ledger, match e.raw.decode with
    | .ok decoded => Store.Decoded.name decoded
    | .error _ => "")

structure Tables.Same (a b : Tables) : Prop where
  commitments : a.commitments.Perm b.commitments
  nullifiers : a.nullifiers.Perm b.nullifiers
  settlements : a.settlements.Perm b.settlements
  exits : a.exits.Perm b.exits
  legacyDeposits : a.legacyDeposits.Perm b.legacyDeposits
  publicKeys : a.publicKeys.Perm b.publicKeys
  allowlist : a.allowlist.Perm b.allowlist

/-- **The same rows in every table but the checkpoints.** -/
structure Store.SameIndex (s s' : Store) : Prop where
  events : (s.events.map (·.unsourced)).Perm (s'.events.map (·.unsourced))
  tables : s.tables.Same s'.tables

theorem Tables.same_of_perm {a b : List EmittedEvent} (h : a.Perm b) :
    (Tables.of a).Same (Tables.of b) where
  commitments := h.flatMap_right _
  nullifiers := h.flatMap_right _
  settlements := h.flatMap_right _
  exits := h.flatMap_right _
  legacyDeposits := h.flatMap_right _
  publicKeys := h.flatMap_right _
  allowlist := h.flatMap_right _

/-- The raw rows are computed from their events. -/
def Store.Columns (s : Store) : Prop := ∀ row ∈ s.events, row.unsourced = row.columns

theorem StoredEvent.row_unsourced (st : StoredEvent) : st.row.unsourced = st.row.columns := by
  simp only [EventRow.unsourced, EmittedEvent.columns, StoredEvent.row, st.decodes]

/-- **A store is determined by the events it holds.** -/
theorem sameIndex_of_perm {s s' : Store} (hs : s.Sound) (hs' : s'.Sound) (hc : s.Columns)
    (hc' : s'.Columns) (h : s.stored.Perm s'.stored) : s.SameIndex s' where
  events := by
    have hcolumns : ∀ {t : Store}, t.Columns →
        t.events.map (·.unsourced) = t.stored.map (·.columns) := by
      intro t ht
      rw [Store.stored, List.map_map]
      exact List.map_congr_left ht
    rw [hcolumns hc, hcolumns hc']
    exact h.map _
  tables := by
    rw [hs.tables, hs'.tables]
    exact Tables.same_of_perm h

/-! ## 2. Runs -/

namespace Store

variable {s s' : Store}

theorem insertEvent_columns {st : StoredEvent} {inserted : Bool} (hc : s.Columns)
    (h : insertEvent st s = .ok (inserted, s')) :
    s'.Columns ∧ s'.stored.length = s.stored.length + inserted.toNat := by
  rcases insertEvent_cases h with ⟨rfl, rfl, -⟩ | ⟨rfl, -, -, rfl⟩
  · exact ⟨hc, rfl⟩
  · refine ⟨fun row hrow => ?_, by simp [stored]⟩
    rcases List.mem_append.mp hrow with hrow | hrow
    · exact hc row hrow
    · obtain rfl := List.mem_singleton.mp hrow
      exact st.row_unsourced

/-- The count of a batch is the number of rows it added. -/
theorem insertEvents_columns : ∀ {events : List StoredEvent} {o o' : BatchOutcome} {s s' : Store},
    s.Columns → insertEvents events o s = .ok (o', s') →
    s'.Columns ∧ o'.inserted + s.stored.length = o.inserted + s'.stored.length
  | [], o, o', s, s', hc, h => by
    obtain ⟨rfl, rfl⟩ := Prod.mk.inj (Except.ok.inj h)
    exact ⟨hc, rfl⟩
  | st :: events, o, o', s, s', hc, h => by
    obtain ⟨⟨inserted, s1⟩, h1, h⟩ := bind_eq_ok.mp h
    obtain ⟨hc1, hlen1⟩ := insertEvent_columns hc h1
    obtain ⟨hc2, hlen2⟩ := insertEvents_columns hc1 h
    refine ⟨hc2, ?_⟩
    cases inserted with
    | false =>
      have hcount : (o.count false).inserted = o.inserted := rfl
      rw [hcount] at hlen2
      simp only [Bool.toNat_false] at hlen1
      omega
    | true =>
      have hcount : (o.count true).inserted = o.inserted + 1 := rfl
      rw [hcount] at hlen2
      simp only [Bool.toNat_true] at hlen1
      omega

theorem writeBatch_columns {stream : Stream} {events : List StoredEvent} {checkpoint : Checkpoint}
    {o : BatchOutcome} (hc : s.Columns) (h : writeBatch stream events checkpoint s = .ok (o, s')) :
    s'.Columns ∧ o.inserted + s.stored.length = s'.stored.length := by
  obtain ⟨_, -, h⟩ := bind_eq_ok.mp h
  obtain ⟨⟨o1, s1⟩, h1, h⟩ := bind_eq_ok.mp h
  obtain ⟨-, -, h⟩ := bind_eq_ok.mp h
  obtain ⟨-, -, h⟩ := bind_eq_ok.mp h
  obtain ⟨rfl, rfl⟩ := Prod.mk.inj (Except.ok.inj h)
  obtain ⟨hc1, hlen⟩ := insertEvents_columns hc h1
  refine ⟨hc1, ?_⟩
  rw [Nat.zero_add] at hlen
  exact hlen

end Store

/-- What a sequence of calls keeps: a determined store that holds what the accepted calls wrote. -/
structure Written (log : List WriteCall) (s : Store) : Prop where
  sound : s.Sound
  columns : s.Columns
  stored : ∀ e, e ∈ s.stored ↔ ∃ c ∈ log, e ∈ c.emitted

theorem Written.call {log : List WriteCall} {c : WriteCall} {s s' : Store} (h : Written log s)
    (hok : c.exec s = .ok s') : Written (log ++ [c]) s' := by
  obtain ⟨⟨o, s1⟩, hwrite, hok⟩ := bind_eq_ok.mp hok
  obtain rfl := Except.ok.inj hok
  have hw := Store.writeBatch_ok h.sound hwrite
  refine ⟨hw.sound, (Store.writeBatch_columns h.columns hwrite).1, fun e => ?_⟩
  rw [hw.stored e, h.stored e]
  constructor
  · rintro (⟨d, hd, he⟩ | he)
    · exact ⟨d, List.mem_append_left _ hd, he⟩
    · exact ⟨c, List.mem_append_right _ List.mem_cons_self, he⟩
  · rintro ⟨d, hd, he⟩
    rcases List.mem_append.mp hd with hd | hd
    · exact .inl ⟨d, hd, he⟩
    · obtain rfl := List.mem_singleton.mp hd
      exact .inr he

theorem written_run {calls : List WriteCall} {s : Store} (h : Written [] s) :
    Written (accepted WriteCall.exec calls s) (run WriteCall.exec calls s) :=
  accepted_induction (P := Written) (fun _ _ _ _ => Written.call) calls [] s h

theorem inserted_run : ∀ {calls : List WriteCall} {s : Store}, s.Columns →
    inserted calls s + s.stored.length = (run WriteCall.exec calls s).stored.length
  | [], s, _ => by rw [inserted, run_nil, Nat.zero_add]
  | c :: calls, s, hc => by
    rw [inserted, run_cons, WriteCall.exec]
    cases hwrite : s.writeBatch c.stream c.events c.checkpoint with
    | error e => exact inserted_run hc
    | ok r =>
      obtain ⟨o, s'⟩ := r
      obtain ⟨hc', hlen⟩ := Store.writeBatch_columns hc hwrite
      have hrest := @inserted_run calls s' hc'
      show o.inserted + inserted calls s' + s.stored.length =
      (run WriteCall.exec calls s').stored.length
      omega

/-! ## 3. Refusals -/

/-- **A contradiction stops the batch.**  If the position of one of its events holds another event,
the call fails. -/
theorem Store.writeBatch_conflict {s : Store} {stream : Stream} {batch : List StoredEvent}
    {checkpoint : Checkpoint} {st : StoredEvent} {row : EventRow} (hs : s.Sound) (hst : st ∈ batch)
    (hrow : row ∈ s.events) (hposition : row.position = st.event.position)
    (hother : row.contract ≠ st.event.contract ∨ row.raw ≠ st.event.raw) :
    ∃ error, s.writeBatch stream batch checkpoint = .error error := by
  cases hwrite : s.writeBatch stream batch checkpoint with
  | error error => exact ⟨error, rfl⟩
  | ok r =>
    obtain ⟨o, s'⟩ := r
    have hw := Store.writeBatch_ok hs hwrite
    have hold : row.toEmittedEvent ∈ s'.stored :=
      (hw.stored _).mpr (.inl (mem_stored.mpr ⟨row, hrow, rfl⟩))
    have hnew : st.event.toEmittedEvent ∈ s'.stored :=
      (hw.stored _).mpr (.inr (List.mem_map_of_mem hst))
    have hsame : row.toEmittedEvent = st.event.toEmittedEvent :=
      List.inj_on_of_nodup_map hw.sound.once hold hnew hposition
    rcases hother with hother | hother
    · exact absurd (congrArg EmittedEvent.contract hsame) hother
    · exact absurd (congrArg EmittedEvent.raw hsame) hother

/-! ## 4. Confluence -/

/-- A checkpoint that fits its columns. -/
structure Checkpoint.Fits (c : Checkpoint) : Prop where
  toid : c.cursor.toid < 2 ^ 63
  ledger : c.latestLedger < 2 ^ 31

theorem Store.writeBatch_fresh {s : Store} {stream : Stream} {batch : List StoredEvent}
    {checkpoint : Checkpoint} (hs : s.Sound) (hfits : checkpoint.Fits)
    (hforward : ∀ c, s.checkpoint stream = some c → c.cursor ≤ checkpoint.cursor)
    (hstoring : ∀ st ∈ batch, st.event.toEmittedEvent.Storing)
    (hpair : (s.stored ++ batch.map (·.event.toEmittedEvent)).Pairwise Compatible) :
    ∃ o s', s.writeBatch stream batch checkpoint = .ok (o, s') ∧
      s'.stored = s.stored ++ batch.map (·.event.toEmittedEvent) := by
  obtain ⟨o, s', hinsert, hstored⟩ := insertEvents_fresh (o := ⟨0, 0⟩) hs hstoring hpair
  have hregression : checkRegression stream checkpoint s = .ok () := by
    unfold checkRegression
    cases hc : s.checkpoint stream with
    | none => rfl
    | some c => exact ensure_pos (not_lt.mpr (hforward c hc)) _
  exact ⟨o, _, bind_eq_ok.mpr ⟨(), hregression, bind_eq_ok.mpr ⟨_, hinsert,
    bind_eq_ok.mpr ⟨(), ensure_pos hfits.toid _,
      bind_eq_ok.mpr ⟨(), ensure_pos hfits.ledger _, rfl⟩⟩⟩⟩, hstored⟩

/-- Distinct keys over all rows are distinct between any two events. -/
theorem pairwise_of_nodup_keys {α κ : Type} {rows : EmittedEvent → List α} {key : α → κ}
    {events : List EmittedEvent} (h : ((events.flatMap rows).map key).Nodup) :
    events.Pairwise fun a b => ∀ r ∈ rows b, ∀ x ∈ rows a, key x ≠ key r := by
  rw [List.map_flatMap, List.nodup_flatMap] at h
  refine h.2.imp fun {a b} hdisjoint r hr x hx hkey => ?_
  exact hdisjoint (List.mem_map_of_mem hx) (hkey ▸ List.mem_map_of_mem hr)

/-- **The events of a set**, in order of emission, that a store can hold together: each fits, and no
two claim the same tree index or nullifier. -/
structure EventSet (events : List EmittedEvent) : Prop where
  sorted : events.Pairwise fun a b => a.position < b.position
  storing : ∀ e ∈ events, e.Storing
  leaves : ((Tables.of events).commitments.map fun r => (r.pool, r.leafIndex)).Nodup
  nullifiers : ((Tables.of events).nullifiers.map fun r => (r.pool, r.nullifier)).Nodup

theorem EventSet.compatible {events : List EmittedEvent} (h : EventSet events) :
    events.Pairwise Store.Compatible := by
  have hleaves := pairwise_of_nodup_keys h.leaves
  have hnullifiers := pairwise_of_nodup_keys h.nullifiers
  refine ((h.sorted.and hleaves).and hnullifiers).imp ?_
  rintro a b ⟨⟨hlt, hleaf⟩, hnullifier⟩
  refine ⟨hlt.ne, fun r hr x hx hsame => hleaf r hr x hx ?_,
    fun r hr x hx hsame => hnullifier r hr x hx ?_⟩
  · rw [hsame.1, hsame.2]
  · rw [hsame.1, hsame.2]

theorem EventSet.nodup {events : List EmittedEvent} (h : EventSet events) : events.Nodup :=
  h.sorted.imp fun hlt hab => absurd (hab ▸ hlt) (lt_irrefl _)

/-- **The index is a function of the set of events.**  Start from empty tables with any checkpoints,
and make any calls of `write_batch` whose successful ones together wrote exactly the events of a
set.  Then:

* every table holds what one call with the events in order of emission would have stored, which
  succeeds, from either source and on any stream;
* the typed tables are the decode image of the raw table;
* the `inserted` counts sum to the number of events;
* a call with an event whose position holds a different one fails and changes nothing. -/
theorem index_is_a_function_of_the_events {events : List EmittedEvent} (hset : EventSet events)
    {s0 : Store} (hevents : s0.events = []) (htables : s0.tables = .empty) (calls : List WriteCall)
    (hwrote : ∀ e, e ∈ events ↔ ∃ c ∈ accepted WriteCall.exec calls s0, e ∈ c.emitted) :
    (∀ once : List StoredEvent, once.map (·.event.toEmittedEvent) = events →
      ∀ stream checkpoint, checkpoint.Fits → ∃ o s1,
        Store.empty.writeBatch stream once checkpoint = .ok (o, s1) ∧
          (run WriteCall.exec calls s0).SameIndex s1) ∧
      (run WriteCall.exec calls s0).tables = Tables.of (run WriteCall.exec calls s0).stored ∧
      inserted calls s0 = events.length ∧
      ∀ stream batch checkpoint, ∀ st ∈ batch, ∀ row ∈ (run WriteCall.exec calls s0).events,
        row.position = st.event.position →
        row.contract ≠ st.event.contract ∨ row.raw ≠ st.event.raw →
        (∃ error, (run WriteCall.exec calls s0).writeBatch stream batch checkpoint = .error error) ∧
          run WriteCall.exec (calls ++ [⟨stream, batch, checkpoint⟩]) s0 =
            run WriteCall.exec calls s0 := by
  have hstored0 : s0.stored = [] := by rw [Store.stored, hevents]; rfl
  have h0 : Written [] s0 := by
    refine ⟨⟨?_, ?_, ?_⟩, ?_, ?_⟩
    · rw [hstored0]
      exact List.nodup_nil
    · simp [hstored0]
    · rw [htables, hstored0]
      rfl
    · simp [Store.Columns, hevents]
    · simp [hstored0]
  have hrun : Written (accepted WriteCall.exec calls s0) (run WriteCall.exec calls s0) :=
    written_run h0
  have hperm : (run WriteCall.exec calls s0).stored.Perm events := by
    rw [List.perm_ext_iff_of_nodup (List.Nodup.of_map _ hrun.sound.once) hset.nodup]
    intro e
    rw [hrun.stored e, hwrote e]
  refine ⟨?_, hrun.sound.tables, ?_, ?_⟩
  · rintro once rfl stream checkpoint hfits
    have hstoring : ∀ st ∈ once, st.event.toEmittedEvent.Storing := fun st hst =>
      hset.storing _ (List.mem_map_of_mem hst)
    obtain ⟨o, s1, hwrite, hstored⟩ := @Store.writeBatch_fresh _ stream _ _ Store.sound_empty hfits
      (fun c hc => by cases hc) hstoring hset.compatible
    have hcolumns : Store.empty.Columns := by simp [Store.Columns, Store.empty]
    refine ⟨o, s1, hwrite, sameIndex_of_perm hrun.sound
      (Store.writeBatch_ok Store.sound_empty hwrite).sound hrun.columns
      (Store.writeBatch_columns hcolumns hwrite).1 ?_⟩
    rw [hstored]
    exact hperm
  · have hcount := @inserted_run calls s0 h0.columns
    rw [hstored0, hperm.length_eq] at hcount
    exact hcount
  · intro stream batch checkpoint st hst row hrow hposition hother
    obtain ⟨error, herror⟩ := @Store.writeBatch_conflict _ stream _ checkpoint _ _ hrun.sound hst
      hrow hposition hother
    refine ⟨⟨error, herror⟩, ?_⟩
    rw [run_concat, WriteCall.exec, herror, error_bind, commit_error]

/-! ### Two sources, one event twice -/

/-- The nullifier `n`, event `i` of one operation in ledger 5. -/
def nullifierEvent (i n : Fin 16) (source : Source) : StoredEvent where
  event :=
    { position :=
        { toid := 5 * 2 ^ 32 + 1
          eventIndex := i
          eventIndex_lt := i.isLt.trans (by decide) }
      contract := .contract 1
      raw := (PoolEvent.newNullifier n).encode
      source := source }
  decoded := .event (.newNullifier n)
  decodes := PoolEvent.decode_encode (n.isLt.trans (by decide))

theorem nullifierEvent_storing (i n : Fin 16) (source : Source) :
    (nullifierEvent i n source).event.toEmittedEvent.Storing where
  storable := ⟨(by decide : 5 * 2 ^ 32 + 1 < 2 ^ 63), i.isLt.trans (by decide),
    (by decide : 0 < (5 * 2 ^ 32 + 1) / 2 ^ 32), rfl⟩
  decodes := ⟨_, (nullifierEvent i n source).decodes⟩
  indexed := by
    have hrows : (nullifierEvent i n source).event.toEmittedEvent.rows.allowlist = [] := by
      rw [EmittedEvent.rows, (nullifierEvent i n source).decodes]
      rfl
    simp [Tables.Indexed, hrows]

/-- The seed has read the second nullifier. -/
def seedCall : WriteCall :=
  ⟨.seedOf (.contract 1), [nullifierEvent 1 8 .stellarExpert], ⟨.endOfLedger 5, 6⟩⟩

/-- RPC then reads both. -/
def rpcCall : WriteCall :=
  ⟨.rpc, [nullifierEvent 0 7 .rpc, nullifierEvent 1 8 .rpc], ⟨.endOfLedger 6, 6⟩⟩

def twoNullifierEvents : List EmittedEvent := rpcCall.emitted

theorem eventSet_twoNullifiers : EventSet twoNullifierEvents where
  sorted := by decide +kernel
  storing := by
    intro e he
    obtain ⟨st, hst, rfl⟩ := List.mem_map.mp he
    rcases List.mem_cons.mp hst with rfl | hst
    · exact nullifierEvent_storing 0 7 .rpc
    · obtain rfl := List.mem_singleton.mp hst
      exact nullifierEvent_storing 1 8 .rpc
  leaves := by decide +kernel
  nullifiers := by decide +kernel

theorem accepted_twoCalls :
    accepted WriteCall.exec [seedCall, rpcCall] .empty = [seedCall, rpcCall] := by
  have hcalls : okAnd (seedCall.exec .empty) (fun s => (rpcCall.exec s).isOk) = true := by
    decide +kernel
  obtain ⟨s1, hseed, hrpc⟩ := okAnd_eq_true.mp hcalls
  rw [accepted, hseed]
  exact congrArg _ (accepted_singleton hrpc)

theorem index_is_a_function_of_two_nullifiers :
    inserted [seedCall, rpcCall] .empty = 2 ∧
      (run WriteCall.exec [seedCall, rpcCall] .empty).tables =
        Tables.of (run WriteCall.exec [seedCall, rpcCall] .empty).stored := by
  have hwrote : ∀ e, e ∈ twoNullifierEvents ↔
      ∃ c ∈ accepted WriteCall.exec [seedCall, rpcCall] .empty, e ∈ c.emitted := by
    intro e
    rw [accepted_twoCalls]
    constructor
    · intro he
      exact ⟨rpcCall, List.mem_cons_of_mem _ List.mem_cons_self, he⟩
    · rintro ⟨c, hc, he⟩
      rcases List.mem_cons.mp hc with rfl | hc
      · exact List.mem_cons_of_mem _ he
      · rwa [List.mem_singleton.mp hc] at he
  have h := index_is_a_function_of_the_events eventSet_twoNullifiers rfl rfl _ hwrote
  exact ⟨h.2.2.1, h.2.1⟩

end Veil
