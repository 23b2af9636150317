/-
# A source that may answer anything

`Follower::sync_to_tip` of `ingest.rs` as one loop, against a source that need not be honest.  The
source is a function of the number of the request and its start: pages with any events, any cursor
and any ledgers, or errors.

What protects the store is checked before anything is written.  Events have to lie after the
request and after each other, a page's cursor may not lie before its last event nor before the
request, and an event that does not decode or that another contract should have emitted stops the
page.  So a committed page appends events in order and at or before the cursor it commits
(`Accepted`), and the next request, if there is one, starts at a cursor that is strictly higher.
There are finitely many positions, so the loop ends.
-/
import Veil.Core.Loop
import Veil.Indexer.Ingest

namespace Veil

open Tx

/-! ## 1. The loop -/

/-- What the loop has at the head of a round. -/
structure SyncState where
  /-- How many requests have been answered. -/
  round : Nat
  start : Start
  report : SyncReport
  store : Store

/-- A source answers the `n`-th request of a call. -/
abbrev Answers := Nat → Start → Except RpcError EventsPage

namespace Follower

/-- One round.  A call that returns or fails leaves the store as its last commit left it. -/
def syncRound (f : Follower) (events : Answers) (st : SyncState) :
    SyncState ⊕ (Except IngestError SyncReport × Store) :=
  match events st.round st.start with
  | .error error => .inr (.error (.rpc error), st.store)
  | .ok page =>
    match f.syncPage st.start page st.report st.store with
    | .error error => .inr (.error error, st.store)
    | .ok (none, report, store) => .inr (.ok report, store)
    | .ok (some start, report, store) => .inl ⟨st.round + 1, start, report, store⟩

/-- `sync_to_tip`, for at most `fuel` requests: the rounds it went through and, if it has returned
by then, what it returned and the store it leaves. -/
def syncToTip (f : Follower) (events : Answers) (startLedger : Option Nat) (fuel : Nat)
    (s : Store) :
    List SyncState × Option (Except IngestError SyncReport × Store) :=
  match f.beginSync startLedger s with
  | .error error => ([], some (.error error, s))
  | .ok (start, report) => Loop.run (f.syncRound events) fuel ⟨0, start, report, s⟩

/-- The store after a round. -/
def storeAfter (f : Follower) (events : Answers) (st : SyncState) : Store :=
  match f.syncRound events st with
  | .inl next => next.store
  | .inr (_, store) => store

/-! ## 2. What an accepted page did -/

/-- The events of a page that was read lie in order, after the position before them. -/
theorem readEvents_sorted {contracts : Contracts} : ∀ {events : List ContractEvent}
    {previous last : Option EventPosition} {batch : List StoredEvent},
    readEvents contracts previous events = .ok (batch, last) →
    events.Pairwise (fun a b => a.position < b.position) ∧
      ∀ p ∈ previous, ∀ e ∈ events, p < e.position
  | [], _, _, _, _ => ⟨List.Pairwise.nil, by simp⟩
  | event :: events, previous, last, batch, h => by
    obtain ⟨_, horder, h⟩ := bind_eq_ok.mp h
    obtain ⟨st, -, h⟩ := bind_eq_ok.mp h
    obtain ⟨-, -, h⟩ := bind_eq_ok.mp h
    obtain ⟨⟨batch1, last1⟩, h1, -⟩ := bind_eq_ok.mp h
    obtain ⟨hsorted, hafter⟩ := readEvents_sorted h1
    have hrest := hafter event.position rfl
    refine ⟨List.pairwise_cons.mpr ⟨hrest, hsorted⟩, ?_⟩
    intro p hp e he
    obtain rfl := Option.mem_def.mp hp
    have hlt : p < event.position := not_le.mp (ensure_eq_ok.mp horder)
    rcases List.mem_cons.mp he with rfl | he
    · exact hlt
    · exact hlt.trans (hrest e he)

/-- Every event of a page that was read decodes, and came from the contract that emits it. -/
theorem readEvents_checked {contracts : Contracts} : ∀ {events : List ContractEvent}
    {previous last : Option EventPosition} {batch : List StoredEvent},
    readEvents contracts previous events = .ok (batch, last) →
    ∀ e ∈ events, ∃ decoded, e.raw.decode = .ok decoded ∧
      contracts.check e.toEmittedEvent decoded = .ok ()
  | [], _, _, _, _ => by simp
  | event :: events, previous, last, batch, h => by
    obtain ⟨-, -, h⟩ := bind_eq_ok.mp h
    obtain ⟨st, hst, h⟩ := bind_eq_ok.mp h
    obtain ⟨_, hcheck, h⟩ := bind_eq_ok.mp h
    obtain ⟨⟨batch1, last1⟩, h1, -⟩ := bind_eq_ok.mp h
    intro e he
    rcases List.mem_cons.mp he with rfl | he
    · exact ⟨st.decoded, decodeEvent_ok hst ▸ st.decodes, hcheck⟩
    · exact readEvents_checked h1 e he

end Follower

/-- A store holds a batch, and has appended what it did not hold before, in the order of the
batch. -/
def Store.Appends (batch : List EmittedEvent) (s s' : Store) : Prop :=
  (∃ new, new.Sublist batch ∧ s'.stored = s.stored ++ new) ∧ ∀ e ∈ batch, e ∈ s'.stored

theorem Store.insertEvents_append : ∀ {events : List StoredEvent} {o o' : BatchOutcome}
    {s s' : Store}, Store.insertEvents events o s = .ok (o', s') →
    s'.checkpoint = s.checkpoint ∧ Store.Appends (events.map (·.event.toEmittedEvent)) s s'
  | [], _, _, s, s', h => by
    obtain ⟨-, rfl⟩ := Prod.mk.inj (Except.ok.inj h)
    exact ⟨rfl, ⟨[], List.Sublist.refl _, (List.append_nil _).symm⟩, by simp⟩
  | st :: events, o, o', s, s', h => by
    obtain ⟨⟨inserted, s1⟩, h1, h⟩ := bind_eq_ok.mp h
    obtain ⟨hcheckpoint, ⟨new, hnew, hstored⟩, hall⟩ := Store.insertEvents_append h
    rw [List.map_cons]
    rcases Store.insertEvent_cases h1 with ⟨-, rfl, hmem⟩ | ⟨-, -, -, rfl⟩
    · refine ⟨hcheckpoint, ⟨new, hnew.cons _, hstored⟩, List.forall_mem_cons.mpr ⟨?_, hall⟩⟩
      rw [hstored]
      exact List.mem_append_left _ hmem
    · rw [Store.stored_append, List.append_assoc] at hstored
      refine ⟨hcheckpoint, ⟨_, hnew.cons_cons _, hstored⟩, List.forall_mem_cons.mpr ⟨?_, hall⟩⟩
      rw [hstored]
      exact List.mem_append_right _ List.mem_cons_self

theorem Store.writeBatch_append {stream : Stream} {events : List StoredEvent}
    {checkpoint : Checkpoint} {o : BatchOutcome} {s s' : Store}
    (h : Store.writeBatch stream events checkpoint s = .ok (o, s')) :
    s'.checkpoint = Function.update s.checkpoint stream (some checkpoint) ∧
      (∀ c, s.checkpoint stream = some c → c.cursor ≤ checkpoint.cursor) ∧
      Store.Appends (events.map (·.event.toEmittedEvent)) s s' := by
  obtain ⟨hforward, o1, s1, h1, rfl⟩ := Store.writeBatch_parts h
  obtain ⟨hcheckpoint, happends⟩ := Store.insertEvents_append h1
  exact ⟨by rw [hcheckpoint], hforward, happends⟩

namespace Follower

variable {f : Follower} {events : Answers} {st next : SyncState}

/-- **A page that was not refused**, whatever the store.  Its events lie in order, after the
request and at or before its cursor; the store has some of them appended in that order; and the
stored cursor is the page's, or was so before. -/
structure Accepted (f : Follower) (start : Start) (page : EventsPage) (next : Option Start)
    (s s' : Store) : Prop where
  sorted : page.events.Pairwise fun a b => a.position < b.position
  later : ∀ c, start = .after c → ∀ e ∈ page.events, c < e.position
  upTo : ∀ e ∈ page.events, e.position ≤ page.cursor
  forward : ∀ c, start = .after c → c ≤ page.cursor
  checked : ∀ e ∈ page.events, ∃ decoded, e.raw.decode = .ok decoded ∧
    f.contracts.check e.toEmittedEvent decoded = .ok ()
  appends : Store.Appends (page.events.map (·.toEmittedEvent)) s s'
  moved : (s'.checkpoint = Function.update s.checkpoint f.stream
      (some ⟨page.cursor, page.latestLedger⟩) ∧
        ∀ c, s.checkpoint f.stream = some c → c.cursor ≤ page.cursor) ∨
    (start = .after page.cursor ∧ page.events = [] ∧ s' = s)
  asks : ∀ n ∈ next, n = .after page.cursor ∧ start ≠ n
  returns : next = none → (page.atTip = true ∧ page.events.length < f.pageSize) ∨
    start = .after page.cursor

theorem syncPage_accepted {start : Start} {page : EventsPage} {report report' : SyncReport}
    {next : Option Start} {s s' : Store}
    (h : f.syncPage start page report s = .ok (next, report', s')) :
    Accepted f start page next s s' := by
  obtain ⟨batch, last, hread, hlast, hcommit, rfl⟩ := syncPage_parts h
  have hmap := (readEvents_ok hread).1
  obtain ⟨hsorted, hafter⟩ := readEvents_sorted hread
  obtain ⟨hevents, hprevious⟩ := readEvents_upTo hread hlast
  have hwrote : Store.Appends (page.events.map (·.toEmittedEvent)) s s' ∧
      ((s'.checkpoint = Function.update s.checkpoint f.stream
        (some ⟨page.cursor, page.latestLedger⟩) ∧
          ∀ c, s.checkpoint f.stream = some c → c.cursor ≤ page.cursor) ∨
        (start = .after page.cursor ∧ page.events = [] ∧ s' = s)) := by
    rw [← hmap, List.map_map]
    rcases hcommit with ⟨outcome, hwrite⟩ | ⟨hsame, rfl, rfl⟩
    · obtain ⟨hcheckpoint, hforward, happends⟩ := Store.writeBatch_append hwrite
      exact ⟨happends, .inl ⟨hcheckpoint, hforward⟩⟩
    · exact ⟨⟨⟨[], List.nil_sublist _, (List.append_nil _).symm⟩, by simp⟩,
        .inr ⟨hsame, rfl, rfl⟩⟩
  refine ⟨hsorted, ?_, hevents, ?_, readEvents_checked hread, hwrote.1, hwrote.2, ?_, ?_⟩
  · rintro c rfl
    exact hafter c rfl
  · rintro c rfl
    exact hprevious c rfl
  · intro n hn
    split at hn
    · cases hn
    · rename_i hgo
      obtain rfl := (Option.some.inj hn).symm
      simp only [Bool.or_eq_true, decide_eq_true_eq, not_or] at hgo
      exact ⟨rfl, hgo.2⟩
  · intro hnone
    rw [ite_eq_left_iff, Bool.not_eq_true, imp_iff_not_or, Bool.not_eq_false] at hnone
    simpa [imp_iff_not_or] using hnone

/-- **What a round can do**: fail and leave the store, return after an accepted page, or ask again
after one. -/
theorem syncRound_cases (f : Follower) (events : Answers) (st : SyncState) :
    (∃ error, f.syncRound events st = .inr (.error error, st.store)) ∨
    ∃ page, events st.round st.start = .ok page ∧
      ((∃ report store, f.syncRound events st = .inr (.ok report, store) ∧
        Accepted f st.start page none st.store store) ∨
      ∃ start report store, f.syncRound events st = .inl ⟨st.round + 1, start, report, store⟩ ∧
        Accepted f st.start page (some start) st.store store) := by
  unfold syncRound
  cases hpage : events st.round st.start with
  | error error => exact .inl ⟨_, rfl⟩
  | ok page =>
    dsimp only
    cases hsync : f.syncPage st.start page st.report st.store with
    | error error => exact .inl ⟨_, rfl⟩
    | ok result =>
      obtain ⟨_ | start, report, store⟩ := result
      · exact .inr ⟨page, rfl, .inl ⟨report, store, rfl, syncPage_accepted hsync⟩⟩
      · exact .inr ⟨page, rfl, .inr ⟨start, report, store, rfl, syncPage_accepted hsync⟩⟩

/-- The round that asks again. -/
theorem syncRound_inl (h : f.syncRound events st = .inl next) :
    next.round = st.round + 1 ∧ ∃ page, events st.round st.start = .ok page ∧
      Accepted f st.start page (some next.start) st.store next.store := by
  rcases syncRound_cases f events st with ⟨error, heq⟩ | ⟨page, hpage, ⟨report, store, heq, -⟩ |
    ⟨start, report, store, heq, ha⟩⟩ <;> rw [heq] at h
  · cases h
  · cases h
  · obtain rfl := Sum.inl.inj h
    exact ⟨rfl, page, hpage, ha⟩

/-- The round that returned. -/
theorem syncRound_inr {report : SyncReport} {store : Store}
    (h : f.syncRound events st = .inr (.ok report, store)) :
    ∃ page, events st.round st.start = .ok page ∧
      Accepted f st.start page none st.store store := by
  rcases syncRound_cases f events st with ⟨error, heq⟩ | ⟨page, hpage, ⟨report', store', heq, ha⟩ |
    ⟨start, report', store', heq, -⟩⟩ <;> rw [heq] at h
  · cases h
  · obtain ⟨-, rfl⟩ := Prod.mk.inj (Sum.inr.inj h)
    exact ⟨page, hpage, ha⟩
  · cases h

/-- Only an accepted page changes the store. -/
theorem storeAfter_cases (f : Follower) (events : Answers) (st : SyncState) :
    f.storeAfter events st = st.store ∨ ∃ page next, events st.round st.start = .ok page ∧
      Accepted f st.start page next st.store (f.storeAfter events st) := by
  unfold storeAfter
  rcases syncRound_cases f events st with ⟨error, heq⟩ | ⟨page, hpage, ⟨report, store, heq, ha⟩ |
    ⟨start, report, store, heq, ha⟩⟩ <;> rw [heq]
  · exact .inl rfl
  · exact .inr ⟨page, _, hpage, ha⟩
  · exact .inr ⟨page, _, hpage, ha⟩

end Follower

/-! ## 3. The loop ends -/

namespace EventPosition

instance : Finite EventPosition :=
  Finite.of_injective
    (fun p => ((⟨p.toid, p.toid_lt⟩, ⟨p.eventIndex, p.eventIndex_lt⟩) :
      Fin (2 ^ 64) × Fin (2 ^ 32)))
    (by
      intro a b h
      cases a
      cases b
      simpa using h)

/-- How many positions lie above one. -/
noncomputable def above (c : EventPosition) : Nat := Set.ncard {q | c < q}

theorem above_lt {c c' : EventPosition} (h : c < c') : c'.above < c.above := by
  refine Set.ncard_lt_ncard ?_ (Set.toFinite _)
  refine ⟨fun q (hq : c' < q) => h.trans hq, fun hsub => ?_⟩
  exact lt_irrefl c' (hsub h)

end EventPosition

namespace Follower

variable {f : Follower} {events : Answers} {st next : SyncState}

/-- How many positions lie above the start of a request. -/
noncomputable def roomAbove (st : SyncState) : Nat :=
  match st.start with
  | .after c => c.above
  | .ledger _ => 0

theorem Accepted.next_after {start n : Start} {page : EventsPage} {s s' : Store}
    (h : Accepted f start page (some n) s s') :
    n = .after page.cursor ∧ ∀ c, start = .after c → c < page.cursor := by
  obtain ⟨hn, hne⟩ := h.asks n rfl
  refine ⟨hn, ?_⟩
  rintro c rfl
  refine lt_of_le_of_ne (h.forward c rfl) ?_
  rintro rfl
  exact hne hn.symm

/-- **From a cursor on, every further round has fewer positions left.** -/
theorem ends_after (f : Follower) (events : Answers) (c : EventPosition) (st : SyncState)
    (hst : st.start = .after c) :
    ∃ visited outcome, Loop.Ends (f.syncRound events) st visited outcome ∧
      visited.length ≤ c.above + 1 := by
  have hrank : ∀ a b : SyncState, (∃ c, a.start = .after c) → f.syncRound events a = .inl b →
      (∃ c, b.start = .after c) ∧ roomAbove b < roomAbove a := by
    rintro a b ⟨c, hc⟩ hround
    obtain ⟨-, page, -, haccepted⟩ := syncRound_inl hround
    obtain ⟨hb, hlt⟩ := haccepted.next_after
    refine ⟨⟨_, hb⟩, ?_⟩
    simp only [roomAbove, hb, hc]
    exact EventPosition.above_lt (hlt c hc)
  have hends := Loop.exists_ends roomAbove hrank st ⟨c, hst⟩
  simpa only [roomAbove, hst] using hends

/-- **The loop ends**, after at most two rounds more than there are positions above the cursor of
the first page. -/
theorem ends_from (f : Follower) (events : Answers) (st : SyncState) :
    ∃ visited outcome, Loop.Ends (f.syncRound events) st visited outcome ∧
      visited.head? = some st ∧ (visited.length = 1 ∨
        ∃ page, events st.round st.start = .ok page ∧ visited.length ≤ page.cursor.above + 2) := by
  cases hround : f.syncRound events st with
  | inr outcome => exact ⟨[st], outcome, Loop.ends_inr hround, rfl, .inl rfl⟩
  | inl next =>
    obtain ⟨-, page, hpage, haccepted⟩ := syncRound_inl hround
    obtain ⟨visited, outcome, hends, hlen⟩ :=
      ends_after f events page.cursor next haccepted.next_after.1
    refine ⟨st :: visited, outcome, hends.cons hround, rfl, .inr ⟨page, hpage, ?_⟩⟩
    rw [List.length_cons]
    omega

/-! ## 4. What a run stores -/

/-- Next to what `s` held, a store holds events in increasing order, at or before the cursor. -/
def AppendsUpTo (s s' : Store) (cursor : Option EventPosition) : Prop :=
  ∃ new, s'.stored = s.stored ++ new ∧ new.Pairwise (fun a b => a.position < b.position) ∧
    ∀ e ∈ new, ∃ c ∈ cursor, e.position ≤ c

/-- The stored cursor. -/
def cursorOf (f : Follower) (s : Store) : Option EventPosition :=
  (s.checkpoint f.stream).map (·.cursor)

/-- At the head of a round of a call that began with store `s`, the request starts at the stored
cursor, or nothing has been stored yet. -/
structure Resumable (f : Follower) (s : Store) (st : SyncState) : Prop where
  appends : AppendsUpTo s st.store st.start.previous
  after : ∀ c, st.start = .after c → f.cursorOf st.store = some c
  first : ∀ l, st.start = .ledger l → st.store = s

/-- After an accepted page the stored cursor is the page's. -/
theorem Accepted.cursorOf {start : Start} {page : EventsPage} {next : Option Start} {s s' : Store}
    (h : Accepted f start page next s s')
    (hcursor : ∀ c, start = .after c → f.cursorOf s = some c) :
    f.cursorOf s' = some page.cursor := by
  rcases h.moved with ⟨hmoved, -⟩ | ⟨hstart, -, rfl⟩
  · rw [Follower.cursorOf, hmoved, Function.update_self, Option.map_some]
  · exact hcursor _ hstart

/-- **An accepted page appends above everything the call has stored.** -/
theorem Resumable.accepted {s s' : Store} {page : EventsPage} {n : Option Start}
    (h : Resumable f s st) (ha : Accepted f st.start page n st.store s') :
    AppendsUpTo s s' (some page.cursor) := by
  obtain ⟨old, hold, hsorted, hupTo⟩ := h.appends
  obtain ⟨new, hnew, hstored⟩ := ha.appends.1
  have hpage : (page.events.map (·.toEmittedEvent)).Pairwise
      fun a b => a.position < b.position := List.pairwise_map.mpr ha.sorted
  have hmem : ∀ e ∈ new, ∃ x ∈ page.events, x.toEmittedEvent = e :=
    fun e he => List.mem_map.mp (hnew.subset he)
  have hprevious : ∀ c ∈ st.start.previous, st.start = .after c := by
    intro c hc
    cases hs : st.start with
    | after c' =>
      rw [hs] at hc
      rw [Option.some.inj hc]
    | ledger l =>
      rw [hs] at hc
      cases hc
  refine ⟨old ++ new, by rw [hstored, hold, List.append_assoc], ?_, ?_⟩
  · refine List.pairwise_append.mpr ⟨hsorted, hpage.sublist hnew, ?_⟩
    intro a ha' b hb
    obtain ⟨c, hc, hle⟩ := hupTo a ha'
    obtain ⟨x, hx, rfl⟩ := hmem b hb
    exact lt_of_le_of_lt hle (ha.later c (hprevious c hc) x hx)
  · intro e he
    refine ⟨_, rfl, ?_⟩
    rcases List.mem_append.mp he with he | he
    · obtain ⟨c, hc, hle⟩ := hupTo e he
      exact hle.trans (ha.forward c (hprevious c hc))
    · obtain ⟨x, hx, rfl⟩ := hmem e he
      exact ha.upTo x hx

theorem Resumable.step {s : Store} (h : Resumable f s st)
    (hround : f.syncRound events st = .inl next) : Resumable f s next := by
  obtain ⟨-, page, -, ha⟩ := syncRound_inl hround
  have hnext := ha.next_after.1
  refine ⟨?_, ?_, ?_⟩
  · rw [hnext]
    exact h.accepted ha
  · intro c hc
    rw [hnext] at hc
    rw [← Start.after.inj hc]
    exact ha.cursorOf h.after
  · intro l hl
    rw [hnext] at hl
    cases hl

theorem resumable_begin {startLedger : Option Nat} {s : Store} {start : Start}
    {report : SyncReport} (h : f.beginSync startLedger s = .ok (start, report)) :
    Resumable f s ⟨0, start, report, s⟩ := by
  refine ⟨⟨[], (List.append_nil _).symm, List.Pairwise.nil, by simp⟩, ?_, fun _ _ => rfl⟩
  rintro c rfl
  unfold beginSync at h
  cases hc : s.checkpoint f.stream with
  | some checkpoint =>
    rw [hc] at h
    obtain ⟨hstart, -⟩ := Prod.mk.inj (Except.ok.inj h)
    rw [cursorOf, hc, ← Start.after.inj hstart]
    rfl
  | none =>
    rw [hc] at h
    obtain ⟨sequence, -, h⟩ := bind_eq_ok.mp h
    obtain ⟨hstart, -⟩ := Prod.mk.inj (Except.ok.inj h)
    cases hstart

/-- The stored cursor lies at or above where it was. -/
def CursorRises (f : Follower) (s s' : Store) : Prop :=
  ∀ c ∈ f.cursorOf s, ∃ c' ∈ f.cursorOf s', c ≤ c'

theorem cursorRises_storeAfter (f : Follower) (events : Answers) (st : SyncState) :
    CursorRises f st.store (f.storeAfter events st) := by
  intro c hc
  rcases storeAfter_cases f events st with hsame | ⟨page, n, -, ha⟩
  · exact ⟨c, by rwa [hsame], le_refl c⟩
  · rcases ha.moved with ⟨hmoved, hforward⟩ | ⟨-, -, hsame⟩
    · obtain ⟨checkpoint, hcheckpoint, rfl⟩ := Option.map_eq_some_iff.mp hc
      refine ⟨page.cursor, ?_, hforward checkpoint hcheckpoint⟩
      rw [cursorOf, hmoved, Function.update_self]
      rfl
    · exact ⟨c, by rwa [hsame], le_refl c⟩

theorem Resumable.appends_storeAfter {s : Store} (h : Resumable f s st) (events : Answers) :
    AppendsUpTo s (f.storeAfter events st) (f.cursorOf (f.storeAfter events st)) := by
  rcases storeAfter_cases f events st with hsame | ⟨page, n, -, ha⟩
  · rw [hsame]
    obtain ⟨new, hstored, hsorted, hupTo⟩ := h.appends
    refine ⟨new, hstored, hsorted, fun e he => ?_⟩
    obtain ⟨c, hc, hle⟩ := hupTo e he
    refine ⟨c, ?_, hle⟩
    cases hstart : st.start with
    | after c' =>
      rw [hstart] at hc
      rw [← Option.some.inj hc]
      exact h.after c' hstart
    | ledger l =>
      rw [hstart] at hc
      cases hc
  · rw [ha.cursorOf h.after]
    exact h.accepted ha

/-! ## 5. Pages that are refused -/

/-- An event that does not decode, that another contract should have emitted, or that names
another pool. -/
def Foreign (contracts : Contracts) (e : ContractEvent) : Prop :=
  (∃ error, e.raw.decode = .error error) ∨
    ∃ veil, e.raw.decode = .ok (.event veil) ∧ (e.contract ≠ contracts.expected veil ∨
      ∃ pool, Contracts.namedPool veil = some pool ∧ pool ≠ contracts.pool)

theorem check_foreign {contracts : Contracts} {e : ContractEvent} (h : Foreign contracts e)
    {decoded : Decoded} (hdecode : e.raw.decode = .ok decoded) :
    contracts.check e.toEmittedEvent decoded ≠ .ok () := by
  intro hcheck
  rcases h with ⟨error, herror⟩ | ⟨veil, hveil, hwrong⟩
  · rw [herror] at hdecode
    cases hdecode
  · obtain rfl := Except.ok.inj (hdecode.symm.trans hveil)
    have hok := ensure_eq_ok.mp hcheck
    rcases hwrong with hcontract | ⟨pool, hpool, hne⟩
    · exact hok (.inl hcontract)
    · exact hok (.inr (by rw [hpool]; exact decide_eq_true hne))

theorem storeAfter_foreign {page : EventsPage} (hpage : events st.round st.start = .ok page)
    (h : ∃ e ∈ page.events, Foreign f.contracts e) : f.storeAfter events st = st.store := by
  rcases storeAfter_cases f events st with hsame | ⟨page', n, hpage', ha⟩
  · exact hsame
  · obtain rfl := Except.ok.inj (hpage.symm.trans hpage')
    obtain ⟨e, he, hforeign⟩ := h
    obtain ⟨decoded, hdecode, hcheck⟩ := ha.checked e he
    exact absurd hcheck (check_foreign hforeign hdecode)

theorem storeAfter_last {outcome : Except IngestError SyncReport × Store}
    (h : f.syncRound events st = .inr outcome) : f.storeAfter events st = outcome.2 := by
  rw [storeAfter, h]

/-- **A hostile source can neither hang nor corrupt the follower.**  Whatever the source answers to
each request, `sync_to_tip` returns after finitely many requests, at most two more than there are
positions above the cursor of its first page; and after each of them

* the stored cursor is at least as high as before;
* next to what was stored when the call began, the store holds events in strictly increasing order,
  none of them above the stored cursor;
* a page with a foreign event has changed nothing. -/
theorem hostile_source_is_contained (f : Follower) (events : Answers) (startLedger : Option Nat)
    (s : Store) : ∃ visited outcome,
      (∀ fuel, visited.length ≤ fuel →
        f.syncToTip events startLedger fuel s = (visited, some outcome)) ∧
      (visited.length ≤ 1 ∨ ∃ first ∈ visited.head?, ∃ page,
        events first.round first.start = .ok page ∧
          visited.length ≤ Set.ncard {q | page.cursor < q} + 2) ∧
      (outcome.2 = s ∨ ∃ last ∈ visited, outcome.2 = f.storeAfter events last) ∧
      ∀ st ∈ visited, CursorRises f st.store (f.storeAfter events st) ∧
        AppendsUpTo s (f.storeAfter events st) (f.cursorOf (f.storeAfter events st)) ∧
        ∀ page, events st.round st.start = .ok page →
          (∃ e ∈ page.events, Foreign f.contracts e) → f.storeAfter events st = st.store := by
  cases hbegin : f.beginSync startLedger s with
  | error error =>
    refine ⟨[], (.error error, s), fun fuel _ => ?_, .inl (Nat.zero_le 1), .inl rfl, by simp⟩
    rw [syncToTip, hbegin]
  | ok began =>
    obtain ⟨start, report⟩ := began
    obtain ⟨visited, outcome, hends, hhead, hlen⟩ := ends_from f events ⟨0, start, report, s⟩
    have hinv := hends.invariant (P := Resumable f s) (fun _ _ h hround => h.step hround)
      (resumable_begin hbegin)
    obtain ⟨last, hlast, hdone⟩ := hends.last
    refine ⟨visited, outcome, fun fuel hfuel => ?_, ?_,
      .inr ⟨last, List.mem_of_getLast? hlast, (storeAfter_last hdone).symm⟩, fun st hst => ?_⟩
    · rw [syncToTip, hbegin]
      exact hends fuel hfuel
    · rcases hlen with hone | ⟨page, hpage, hle⟩
      · exact .inl hone.le
      · exact .inr ⟨_, hhead, page, hpage, hle⟩
    · exact ⟨cursorRises_storeAfter f events st, (hinv st hst).appends_storeAfter events,
        fun page hpage h => storeAfter_foreign hpage h⟩

end Follower

end Veil
