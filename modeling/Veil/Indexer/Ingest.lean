/-
# Following the contracts from an event source

`services/indexer/src/ingest.rs`, with the page and start types of `rpc.rs`.  `sync_to_tip` reads
page after page from a source and commits each with the cursor that covers it.  The source is not
this code, and the process may die anywhere, so the loop is cut at its requests:

* `beginSync` is what happens before the first request;
* `syncPage` is one round of the loop, from an answer to the next request or the return.

`syncPage_ok` says what a round that did not fail has checked and written.
-/
import Veil.Indexer.Store

namespace Veil

open Tx

/-- Where a request for events starts. -/
inductive Start where
  /-- The first ledger to read, for a stream with no checkpoint yet. -/
  | ledger (sequence : Nat)
  /-- Resume after this position, exclusive. -/
  | after (cursor : EventPosition)
  deriving DecidableEq, Repr

/-- One page of events. -/
structure EventsPage where
  events : List ContractEvent
  cursor : EventPosition
  latestLedger : Nat
  oldestLedger : Nat

/-- Whether this page reached the newest ledger the server has. -/
def EventsPage.atTip (page : EventsPage) : Bool := page.cursor.ledger ≥ page.latestLedger

/-- Why a source has no page.  The texts of ids and messages are the server's. -/
inductive RpcError where
  | transport (attempts : Nat)
  | status (status attempts : Nat)
  | rpc (code : Int) (message : String)
  | emptyResponse
  | unexpectedContract (id : List Char) (contract : Address)
  | ledgerMismatch (id : List Char) (reported fromId : Nat)
  | position (error : ParsePositionError)
  | decode (id : List Char) (error : DecodeError)
  | pageSize (limit : Nat)
  deriving DecidableEq, Repr

inductive IngestError where
  | rpc (error : RpcError)
  | store (error : StoreError)
  | decode (position : EventPosition) (error : DecodeError)
  | wrongContract (position : EventPosition) (event : String) (contract : Address)
  | outOfOrder (cursor event : EventPosition)
  | cursorRegression (before proposed : EventPosition)
  | noStart (stream : Stream)
  deriving DecidableEq, Repr

/-- The two contracts an indexer follows. -/
structure Contracts where
  pool : Address
  allowlist : Address
  deriving DecidableEq, Repr

namespace Contracts

def ids (c : Contracts) : List Address := [c.pool, c.allowlist]

/-- The contract that emits the event. -/
def expected (c : Contracts) (veil : VeilEvent) : Address :=
  match veil.emitter with
  | .pool => c.pool
  | .allowlist => c.allowlist

/-- The pool an event names in its own fields. -/
def namedPool : VeilEvent → Option Address
  | .settlement settlement => some settlement.pool
  | .exit exit => some exit.pool
  | .legacyDeposit deposit => some deposit.pool
  | _ => none

/-- Refuses an event that another contract emits. -/
def check (c : Contracts) (event : EmittedEvent) : Decoded → Except IngestError Unit
  | .ignored _ => .ok ()
  | .event veil =>
    ensure (¬(event.contract ≠ c.expected veil ∨ (namedPool veil).any (· ≠ c.pool) = true))
      (.wrongContract event.position veil.name event.contract)

end Contracts

structure SyncReport where
  pages : Nat := 0
  inserted : Nat := 0
  alreadyStored : Nat := 0
  ignored : Nat := 0
  checkpoint : Option Checkpoint := none
  deriving DecidableEq, Repr

structure Follower where
  contracts : Contracts
  stream : Stream
  pageSize : Nat

/-! ## 1. The loop -/

/-- The position the first event of a page is compared with. -/
def Start.previous : Start → Option EventPosition
  | .after cursor => some cursor
  | .ledger _ => none

namespace Follower

def checkOrder (event : EventPosition) : (previous : Option EventPosition) →
    Except IngestError Unit
  | some previous => ensure (¬event ≤ previous) (.outOfOrder previous event)
  | none => .ok ()

def decodeEvent (event : ContractEvent) : Except IngestError StoredEvent :=
  match h : event.raw.decode with
  | .ok decoded => .ok ⟨event, decoded, h⟩
  | .error error => .error (.decode event.position error)

/-- The loop over the events of a page; returns the batch and the last position. -/
def readEvents (contracts : Contracts) : (previous : Option EventPosition) →
    List ContractEvent → Except IngestError (List StoredEvent × Option EventPosition)
  | previous, [] => .ok ([], previous)
  | previous, event :: events => do
    checkOrder event.position previous
    let stored ← decodeEvent event
    contracts.check event.toEmittedEvent stored.decoded
    let (batch, last) ← readEvents contracts (some event.position) events
    .ok (stored :: batch, last)

/-- A page's cursor may not lie before its last event, nor before the request. -/
def checkCursor (cursor : EventPosition) : (last : Option EventPosition) →
    Except IngestError Unit
  | some last => ensure (¬cursor < last) (.cursorRegression last cursor)
  | none => .ok ()

def liftStore {α : Type} : Except StoreError α → Except IngestError α
  | .ok a => .ok a
  | .error error => .error (.store error)

@[simp] theorem liftStore_eq_ok {α : Type} {x : Except StoreError α} {a : α} :
    liftStore x = .ok a ↔ x = .ok a := by
  cases x <;> simp [liftStore]

def isIgnored : Decoded → Bool
  | .ignored _ => true
  | .event _ => false

/-- The write of a round, skipped for a page that brings nothing new. -/
def commitPage (f : Follower) (batch : List StoredEvent) (checkpoint : Checkpoint)
    (unchanged : Bool) (report : SyncReport) (s : Store) :
    Except IngestError (SyncReport × Store) :=
  if unchanged = false ∨ batch.isEmpty = false then do
    let (outcome, s) ← liftStore (s.writeBatch f.stream batch checkpoint)
    .ok ({ report with
      inserted := report.inserted + outcome.inserted
      alreadyStored := report.alreadyStored + outcome.alreadyStored
      checkpoint := some checkpoint }, s)
  else .ok (report, s)

/-- One round: the next request, or `none` to return. -/
def syncPage (f : Follower) (start : Start) (page : EventsPage) (report : SyncReport)
    (s : Store) : Except IngestError (Option Start × SyncReport × Store) := do
  let full := decide (page.events.length ≥ f.pageSize)
  let atTip := page.atTip && !full
  let (batch, last) ← readEvents f.contracts start.previous page.events
  checkCursor page.cursor last
  let unchanged := decide (start = .after page.cursor)
  let report := { report with
    pages := report.pages + 1
    ignored := report.ignored + batch.countP (isIgnored ·.decoded) }
  let (report, s) ← f.commitPage batch ⟨page.cursor, page.latestLedger⟩ unchanged report s
  .ok (if atTip || unchanged then none else some (.after page.cursor), report, s)

/-- What `sync_to_tip` does before its first request. -/
def beginSync (f : Follower) (startLedger : Option Nat) (s : Store) :
    Except IngestError (Start × SyncReport) :=
  match s.checkpoint f.stream with
  | some checkpoint => .ok (.after checkpoint.cursor, { checkpoint := some checkpoint })
  | none => do
    let sequence ← okOr startLedger (.noStart f.stream)
    .ok (.ledger sequence, {})

/-- With a checkpoint the start ledger does not matter. -/
theorem beginSync_of_some {f : Follower} {s : Store} {checkpoint : Checkpoint}
    (h : s.checkpoint f.stream = some checkpoint) (startLedger : Option Nat) :
    f.beginSync startLedger s =
      .ok (.after checkpoint.cursor, { checkpoint := some checkpoint }) := by
  rw [beginSync, h]

theorem beginSync_of_none {f : Follower} {s : Store} (h : s.checkpoint f.stream = none)
    (sequence : Nat) : f.beginSync (some sequence) s = .ok (.ledger sequence, {}) := by
  rw [beginSync, h]
  rfl

/-! ## 2. What a round did -/

theorem decodeEvent_ok {event : ContractEvent} {st : StoredEvent}
    (h : decodeEvent event = .ok st) : st.event = event := by
  unfold decodeEvent at h
  split at h
  · rw [← Except.ok.inj h]
  · cases h

/-- The batch is the page's events, and none of them, nor the start, lies after the last
position. -/
theorem readEvents_ok {contracts : Contracts} : ∀ {events : List ContractEvent}
    {previous last : Option EventPosition} {batch : List StoredEvent},
    readEvents contracts previous events = .ok (batch, last) →
    batch.map (·.event) = events ∧
      (∀ p ∈ previous, ∃ l ∈ last, p ≤ l) ∧ ∀ e ∈ events, ∃ l ∈ last, e.position ≤ l
  | [], previous, last, batch, h => by
    obtain ⟨rfl, rfl⟩ := Prod.mk.inj (Except.ok.inj h)
    exact ⟨rfl, fun p hp => ⟨p, hp, le_refl p⟩, by simp⟩
  | event :: events, previous, last, batch, h => by
    obtain ⟨_, horder, h⟩ := bind_eq_ok.mp h
    obtain ⟨st, hst, h⟩ := bind_eq_ok.mp h
    obtain ⟨-, -, h⟩ := bind_eq_ok.mp h
    obtain ⟨⟨batch1, last1⟩, h1, h⟩ := bind_eq_ok.mp h
    obtain ⟨rfl, rfl⟩ := Prod.mk.inj (Except.ok.inj h)
    obtain ⟨hmap, hprev, hall⟩ := readEvents_ok h1
    obtain ⟨l, hl, hle⟩ := hprev event.position rfl
    refine ⟨by rw [List.map_cons, decodeEvent_ok hst, hmap], ?_, ?_⟩
    · intro p hp
      obtain rfl := Option.mem_def.mp hp
      have hlt : p < event.position := not_le.mp (ensure_eq_ok.mp horder)
      exact ⟨l, hl, hlt.le.trans hle⟩
    · intro e he
      rcases List.mem_cons.mp he with rfl | he
      · exact ⟨l, hl, hle⟩
      · exact hall e he

theorem checkCursor_ok {cursor : EventPosition} {last : Option EventPosition}
    (h : checkCursor cursor last = .ok ()) : ∀ l ∈ last, l ≤ cursor := by
  intro l hl
  obtain rfl := Option.mem_def.mp hl
  exact not_lt.mp (ensure_eq_ok.mp h)

section Parts

variable {f : Follower} {start : Start} {page : EventsPage} {report report' : SyncReport}
  {next : Option Start} {s s' : Store}

/-- **The parts of a round that did not fail**: the page was read, its cursor is not before its
last event, its events were written unless it brings nothing new, and what to ask next. -/
theorem syncPage_parts (h : f.syncPage start page report s = .ok (next, report', s')) :
    ∃ batch last, readEvents f.contracts start.previous page.events = .ok (batch, last) ∧
      (∀ l ∈ last, l ≤ page.cursor) ∧
      ((∃ outcome, s.writeBatch f.stream batch ⟨page.cursor, page.latestLedger⟩ =
          .ok (outcome, s')) ∨
        (start = .after page.cursor ∧ batch = [] ∧ s' = s)) ∧
      next = if (page.atTip && !decide (page.events.length ≥ f.pageSize)) ||
        decide (start = .after page.cursor) then none else some (.after page.cursor) := by
  obtain ⟨⟨batch, last⟩, hread, h⟩ := bind_eq_ok.mp h
  obtain ⟨_, hcursor, h⟩ := bind_eq_ok.mp h
  obtain ⟨⟨report1, s1⟩, hcommit, h⟩ := bind_eq_ok.mp h
  simp only [Except.ok.injEq, Prod.mk.injEq] at h
  obtain ⟨rfl, -, rfl⟩ := h
  refine ⟨batch, last, hread, checkCursor_ok hcursor, ?_, rfl⟩
  unfold commitPage at hcommit
  split at hcommit
  · simp only [bind_eq_ok, liftStore_eq_ok, Prod.exists, Except.ok.injEq, Prod.mk.injEq]
      at hcommit
    obtain ⟨outcome, s2, hwrite, -, rfl⟩ := hcommit
    exact .inl ⟨outcome, hwrite⟩
  · rename_i hskip
    obtain ⟨-, rfl⟩ := Prod.mk.inj (Except.ok.inj hcommit)
    simp only [not_or, Bool.not_eq_false, decide_eq_true_eq, List.isEmpty_iff] at hskip
    exact .inr ⟨hskip.1, hskip.2, rfl⟩

/-- Nothing that was read, nor the request, lies after the cursor. -/
theorem readEvents_upTo {contracts : Contracts} {previous last : Option EventPosition}
    {events : List ContractEvent} {batch : List StoredEvent} {cursor : EventPosition}
    (h : readEvents contracts previous events = .ok (batch, last))
    (hlast : ∀ l ∈ last, l ≤ cursor) :
    (∀ e ∈ events, e.position ≤ cursor) ∧ ∀ p ∈ previous, p ≤ cursor := by
  obtain ⟨-, hprev, hall⟩ := readEvents_ok h
  constructor
  · intro e he
    obtain ⟨l, hl, hle⟩ := hall e he
    exact hle.trans (hlast l hl)
  · intro p hp
    obtain ⟨l, hl, hle⟩ := hprev p hp
    exact hle.trans (hlast l hl)

end Parts

/-- **A round of the loop that did not fail.**  No event of the page lies after its cursor, the
cursor does not lie before the request, and either the page was committed with its cursor or it
brought nothing new. -/
structure Round (f : Follower) (start : Start) (page : EventsPage) (next : Option Start)
    (s s' : Store) : Prop where
  events : ∀ e ∈ page.events, e.position ≤ page.cursor
  forward : ∀ c, start = .after c → c ≤ page.cursor
  wrote : Store.Written f.stream (page.events.map (·.toEmittedEvent))
      ⟨page.cursor, page.latestLedger⟩ s s' ∨
    (start = .after page.cursor ∧ page.events = [] ∧ s' = s)
  resumes : ∀ n ∈ next, n = .after page.cursor

theorem syncPage_ok {f : Follower} {start : Start} {page : EventsPage} {report report' : SyncReport}
    {next : Option Start} {s s' : Store} (hs : s.Sound)
    (h : f.syncPage start page report s = .ok (next, report', s')) :
    Round f start page next s s' := by
  obtain ⟨batch, last, hread, hlast, hcommit, rfl⟩ := syncPage_parts h
  have hmap := (readEvents_ok hread).1
  obtain ⟨hevents, hprevious⟩ := readEvents_upTo hread hlast
  refine ⟨hevents, ?_, ?_, ?_⟩
  · rintro c rfl
    exact hprevious c rfl
  · rcases hcommit with ⟨outcome, hwrite⟩ | ⟨hsame, rfl, rfl⟩
    · have hw := Store.writeBatch_ok hs hwrite
      rw [← hmap, List.map_map]
      exact .inl hw
    · exact .inr ⟨hsame, hmap.symm, rfl⟩
  · intro n hn
    split at hn
    · cases hn
    · exact (Option.some.inj hn).symm

end Follower

end Veil
