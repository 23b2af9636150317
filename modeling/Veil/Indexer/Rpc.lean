/-
# The RPC client and the tip

`services/indexer/src/rpc.rs`: `GetEventsResult::into_page` turns a response of `getEvents` into
the page that `sync_to_tip` reads, and leaves out the events of failed calls on the way.

The server is described as `rpc.rs` describes it.  Its log holds the events of failed calls too,
and grows in ledgers newer than any it has reported.  A response scans up to some ledger and lists
the next events of that range, at most as many as asked for; a full one comes with the cursor of
its last event, any other with the end of its range.

`sync_to_tip` stops at a page that reached the newest ledger, unless the page is full.  Fullness is
measured after the events of failed calls were left out, and this is where the stop test goes wrong:
a full response that lists a failed call and ends inside the newest ledger is taken for the end of
it.  `returns_caught_up_unless_cut` says that this is the only case in which a run returns early.
-/
import Veil.Indexer.Source
import Veil.Indexer.SyncToTip

namespace Veil

open Tx EventPosition

/-! ## 1. Responses -/

/-- One event as `getEvents` returns it. -/
structure RpcEvent where
  id : List Char
  ledger : Nat
  contractId : Address
  topic : List String
  value : String
  /-- Absent on current servers, which only return events from successful calls.  Older servers
  set it to `false` for events of a failed call. -/
  inSuccessfulContractCall : Option Bool

/-- The `getEvents` result, with the fields the indexer reads. -/
structure GetEventsResult where
  events : List RpcEvent
  cursor : List Char
  latestLedger : Nat
  oldestLedger : Nat

/-- Largest page `getEvents` accepts. -/
def maxPageSize : Nat := 10000

/-- `RawEvent::from_base64`.  Base64 and XDR are library code. -/
abbrev FromBase64 := List String → String → Except DecodeError RawEvent

def parsePosition (id : List Char) : Except RpcError EventPosition :=
  match fromStr id with
  | .ok position => .ok position
  | .error error => .error (.position error)

def readRaw (fromBase64 : FromBase64) (event : RpcEvent) : Except RpcError RawEvent :=
  match fromBase64 event.topic event.value with
  | .ok raw => .ok raw
  | .error error => .error (.decode event.id error)

/-- The loop of `into_page`. -/
def intoEvents (fromBase64 : FromBase64) (contracts : List Address) :
    List RpcEvent → Except RpcError (List ContractEvent)
  | [] => .ok []
  | event :: events =>
    if event.inSuccessfulContractCall = some false then intoEvents fromBase64 contracts events
    else do
      ensure (event.contractId ∈ contracts) (.unexpectedContract event.id event.contractId)
      let position ← parsePosition event.id
      ensure (¬position.ledger ≠ event.ledger)
        (.ledgerMismatch event.id event.ledger position.ledger)
      let raw ← readRaw fromBase64 event
      let events ← intoEvents fromBase64 contracts events
      .ok (⟨⟨position, event.contractId, raw⟩, .rpc⟩ :: events)

/-- Checks and converts the result. -/
def GetEventsResult.intoPage (fromBase64 : FromBase64) (contracts : List Address)
    (r : GetEventsResult) : Except RpcError EventsPage := do
  let cursor ← parsePosition r.cursor
  let events ← intoEvents fromBase64 contracts r.events
  .ok ⟨events, cursor, r.latestLedger, r.oldestLedger⟩

/-- A server answers the `n`-th request of a call, for pages of one size. -/
abbrev Server := Nat → Start → Except RpcError GetEventsResult

/-- `RpcClient::events`. -/
def rpcEvents (fromBase64 : FromBase64) (server : Server) (contracts : List Address)
    (limit : Nat) : Answers := fun n start => do
  ensure (¬(limit = 0 ∨ limit > maxPageSize)) (.pageSize limit)
  let result ← server n start
  result.intoPage fromBase64 contracts

/-! ## 2. Servers that behave like `getEvents` -/

/-- An event of the server's log. -/
structure LoggedEvent extends EmittedEvent where
  successful : Bool
  deriving DecidableEq

structure RpcLog where
  events : List LoggedEvent
  sorted : events.Pairwise fun a b => a.position < b.position

/-- The log has grown, by events in ledgers after `reported` only. -/
structure RpcLog.Grows (log log' : RpcLog) (reported : Nat) : Prop where
  kept : log.events <+: log'.events
  later : ∀ e ∈ log'.events, e ∈ log.events ∨ reported < e.position.ledger

/-- How the server writes an event of its log. -/
structure Reports (fromBase64 : FromBase64) (r : RpcEvent) (e : LoggedEvent) : Prop where
  id : fromStr r.id = .ok e.position
  ledger : r.ledger = e.position.ledger
  contract : r.contractId = e.contract
  raw : fromBase64 r.topic r.value = .ok e.raw
  flag : r.inSuccessfulContractCall = some false ↔ e.successful = false

/-- The events a request asks for, in the ledgers up to `scanned`. -/
def RpcLog.inRange (log : RpcLog) (start : Start) (scanned : Nat) : List LoggedEvent :=
  log.events.filter fun e =>
    start.admits e.toEmittedEvent && decide (e.position.ledger ≤ scanned)

/-- The next `limit` of them. -/
def RpcLog.next (log : RpcLog) (start : Start) (limit scanned : Nat) : List LoggedEvent :=
  (log.inRange start scanned).take limit

/-- **A response of `getEvents`** that scanned up to ledger `scanned`. -/
structure HonestAnswer (fromBase64 : FromBase64) (log : RpcLog) (start : Start)
    (limit scanned : Nat) (r : GetEventsResult) : Prop where
  lists : List.Forall₂ (Reports fromBase64) r.events (log.next start limit scanned)
  /-- A full response has the cursor of its last event. -/
  full : r.events.length = limit →
    ∃ last ∈ (log.next start limit scanned).getLast?, fromStr r.cursor = .ok last.position
  /-- Any other has the end of the range it scanned. -/
  scan : r.events.length ≠ limit → fromStr r.cursor = .ok (endOfLedger scanned)
  latest : scanned ≤ r.latestLedger
  ledger : r.latestLedger < 2 ^ 32
  begins : ∀ l, start = .ledger l → l ≤ scanned
  /-- The range goes past the request, unless it ends at the newest ledger. -/
  progress : scanned = r.latestLedger ∨ ∀ c, start = .after c → c < endOfLedger scanned

/-- A server whose log is `logs n` at the `n`-th request. -/
structure HonestServer (fromBase64 : FromBase64) (logs : Nat → RpcLog) (limit : Nat)
    (server : Server) : Prop where
  answers : ∀ n start r, server n start = .ok r →
    ∃ scanned, HonestAnswer fromBase64 (logs n) start limit scanned r
  grows : ∀ n start r, server n start = .ok r → (logs n).Grows (logs (n + 1)) r.latestLedger

/-! ## 3. What a page holds -/

variable {fromBase64 : FromBase64} {contracts : List Address} {log log' : RpcLog} {start : Start}
  {limit scanned : Nat} {r : GetEventsResult} {page : EventsPage}

theorem parsePosition_eq_ok {id : List Char} {p : EventPosition} :
    parsePosition id = .ok p ↔ fromStr id = .ok p := by
  unfold parsePosition
  cases fromStr id <;> simp

theorem readRaw_eq_ok {event : RpcEvent} {raw : RawEvent} :
    readRaw fromBase64 event = .ok raw ↔ fromBase64 event.topic event.value = .ok raw := by
  unfold readRaw
  cases fromBase64 event.topic event.value <;> simp

/-- The page keeps the listed events of successful calls, in order. -/
theorem intoEvents_ok :
    ∀ {rs : List RpcEvent} {es : List LoggedEvent} {events : List ContractEvent},
    List.Forall₂ (Reports fromBase64) rs es → intoEvents fromBase64 contracts rs = .ok events →
    events.map (·.toEmittedEvent) =
      (es.filter (·.successful)).map (·.toEmittedEvent)
  | [], [], _, _, h => by
    rw [← Except.ok.inj h]
    rfl
  | r :: rs, e :: es, events, hreports, h => by
    obtain ⟨hr, hrest⟩ := List.forall₂_cons.mp hreports
    unfold intoEvents at h
    split at h
    · rename_i hfailed
      rw [List.filter_cons_of_neg (by simp [hr.flag.mp hfailed])]
      exact intoEvents_ok hrest h
    · rename_i hfailed
      have hsuccessful : e.successful = true := by
        rw [← Bool.not_eq_false]
        exact fun hf => hfailed (hr.flag.mpr hf)
      simp only [bind_eq_ok, ensure_eq_ok, parsePosition_eq_ok, readRaw_eq_ok, hr.id, hr.raw,
        Except.ok.injEq, hr.contract] at h
      obtain ⟨-, -, position, rfl, -, -, raw, rfl, events', hevents, rfl⟩ := h
      rw [List.filter_cons_of_pos hsuccessful, List.map_cons, List.map_cons,
        intoEvents_ok hrest hevents]

theorem intoPage_ok (h : r.intoPage fromBase64 contracts = .ok page) :
    fromStr r.cursor = .ok page.cursor ∧ page.latestLedger = r.latestLedger ∧
      intoEvents fromBase64 contracts r.events = .ok page.events := by
  obtain ⟨cursor, hcursor, h⟩ := bind_eq_ok.mp h
  obtain ⟨events, hevents, h⟩ := bind_eq_ok.mp h
  obtain rfl := Except.ok.inj h
  exact ⟨parsePosition_eq_ok.mp hcursor, rfl, hevents⟩

theorem rpcEvents_ok {server : Server} {n : Nat}
    (h : rpcEvents fromBase64 server contracts limit n start = .ok page) :
    ∃ r, server n start = .ok r ∧ r.intoPage fromBase64 contracts = .ok page := by
  obtain ⟨-, -, h⟩ := bind_eq_ok.mp h
  obtain ⟨r, hr, h⟩ := bind_eq_ok.mp h
  exact ⟨r, hr, h⟩

theorem RpcLog.mem_inRange {e : LoggedEvent} : e ∈ log.inRange start scanned ↔
    e ∈ log.events ∧ start.admits e.toEmittedEvent = true ∧ e.position.ledger ≤ scanned := by
  simp [inRange]

theorem RpcLog.mem_next {e : LoggedEvent} (h : e ∈ log.next start limit scanned) :
    e ∈ log.events ∧ start.admits e.toEmittedEvent = true ∧ e.position.ledger ≤ scanned :=
  mem_inRange.mp (List.mem_of_mem_take h)

namespace HonestAnswer

variable (h : HonestAnswer fromBase64 log start limit scanned r)
  (hpage : r.intoPage fromBase64 contracts = .ok page)
include h

theorem length_next : r.events.length = (log.next start limit scanned).length := h.lists.length_eq

theorem scanned_lt : scanned < 2 ^ 32 := lt_of_le_of_lt h.latest h.ledger

include hpage

theorem mem_page {e : LoggedEvent} (he : e ∈ log.next start limit scanned)
    (hsuccessful : e.successful = true) :
    e.toEmittedEvent ∈ page.events.map (·.toEmittedEvent) := by
  rw [intoEvents_ok h.lists (intoPage_ok hpage).2.2]
  exact List.mem_map_of_mem (List.mem_filter.mpr ⟨he, hsuccessful⟩)

/-- **A response leaves nothing out** up to its cursor. -/
theorem complete {e : LoggedEvent} (he : e ∈ log.events)
    (hadmits : start.admits e.toEmittedEvent = true) (hle : e.position ≤ page.cursor) :
    e ∈ log.next start limit scanned := by
  have hcursor := (intoPage_ok hpage).1
  by_cases hfull : r.events.length = limit
  · obtain ⟨last, hlast, hlastCursor⟩ := h.full hfull
    have heq : page.cursor = last.position := Except.ok.inj (hcursor.symm.trans hlastCursor)
    have hmem := List.mem_of_getLast? hlast
    have hscanned := (RpcLog.mem_next hmem).2.2
    rw [heq] at hle
    have hin : e ∈ log.inRange start scanned :=
      RpcLog.mem_inRange.mpr ⟨he, hadmits, (ledger_mono hle).trans hscanned⟩
    -- the log is sorted, so what lies before a listed event is listed
    obtain ⟨rest, hrest⟩ := List.take_prefix limit (log.inRange start scanned)
    have hsorted : (log.inRange start scanned).Pairwise fun a b => a.position < b.position :=
      log.sorted.filter _
    rw [← hrest] at hin hsorted
    rcases List.mem_append.mp hin with hin | hin
    · exact hin
    · exact absurd ((List.pairwise_append.mp hsorted).2.2 last hmem e hin) (not_lt.mpr hle)
  · have heq : page.cursor = endOfLedger scanned :=
      Except.ok.inj (hcursor.symm.trans (h.scan hfull))
    rw [heq, le_endOfLedger_iff h.scanned_lt] at hle
    have hlen := h.length_next
    rw [RpcLog.next, List.length_take] at hlen
    rw [RpcLog.next, List.take_of_length_le (by omega)]
    exact RpcLog.mem_inRange.mpr ⟨he, hadmits, hle⟩

theorem cursor_ledger : page.cursor.ledger ≤ r.latestLedger := by
  have hcursor := (intoPage_ok hpage).1
  by_cases hfull : r.events.length = limit
  · obtain ⟨last, hlast, hlastCursor⟩ := h.full hfull
    rw [Except.ok.inj (hcursor.symm.trans hlastCursor)]
    exact (RpcLog.mem_next (List.mem_of_getLast? hlast)).2.2.trans h.latest
  · rw [Except.ok.inj (hcursor.symm.trans (h.scan hfull)), endOfLedger_ledger h.scanned_lt]
    exact h.latest

/-- What lies after the cursor was asked for. -/
theorem admits_of_lt {s s' : Store} {f : Follower} {next : Option Start}
    (ha : Follower.Accepted f start page next s s') {e : EmittedEvent}
    (hlt : page.cursor < e.position) : start.admits e = true := by
  cases start with
  | after c => exact decide_eq_true (lt_of_le_of_lt (ha.forward c rfl) hlt)
  | ledger l =>
    refine decide_eq_true (le_trans ?_ (ledger_mono hlt.le))
    have hcursor := (intoPage_ok hpage).1
    by_cases hfull : r.events.length = limit
    · obtain ⟨last, hlast, hlastCursor⟩ := h.full hfull
      rw [Except.ok.inj (hcursor.symm.trans hlastCursor)]
      exact of_decide_eq_true (RpcLog.mem_next (List.mem_of_getLast? hlast)).2.1
    · rw [Except.ok.inj (hcursor.symm.trans (h.scan hfull)), endOfLedger_ledger h.scanned_lt]
      exact h.begins l rfl

/-- A page shorter than its response left out a failed call. -/
theorem exists_failed (hshort : page.events.length < r.events.length) :
    ∃ x ∈ r.events, x.inSuccessfulContractCall = some false := by
  by_contra hnone
  have hall : ∀ e ∈ log.next start limit scanned, e.successful = true := by
    intro e he
    obtain ⟨i, hi, rfl⟩ := List.mem_iff_getElem.mp he
    have hi' : i < r.events.length := by rwa [h.length_next]
    have hreports := h.lists.get hi' hi
    rw [← Bool.not_eq_false]
    exact fun hf => hnone ⟨_, List.getElem_mem hi', hreports.flag.mpr hf⟩
  have hlen := congrArg List.length (intoEvents_ok h.lists (intoPage_ok hpage).2.2)
  rw [List.length_map, List.length_map, List.filter_eq_self.mpr hall, ← h.length_next] at hlen
  omega

end HonestAnswer

/-! ## 4. Returning -/

/-- Every event of a successful call that a start asks for, in the ledgers up to `latest`, is
stored. -/
def CaughtUp (log : RpcLog) (start : Start) (latest : Nat) (s : Store) : Prop :=
  ∀ e ∈ log.events, e.successful = true → start.admits e.toEmittedEvent = true →
    e.position.ledger ≤ latest → e.toEmittedEvent ∈ s.stored

/-- **A full response that looks short**: it lists an event of a failed call and ends inside the
newest ledger, with an event of a successful call still to come there that `s` does not hold. -/
def CutInTip (log : RpcLog) (limit : Nat) (r : GetEventsResult) (s : Store) : Prop :=
  r.events.length = limit ∧ (∃ x ∈ r.events, x.inSuccessfulContractCall = some false) ∧
    ∃ cursor, fromStr r.cursor = .ok cursor ∧ cursor.ledger = r.latestLedger ∧
      ∃ e ∈ log.events, e.successful = true ∧ cursor < e.position ∧
        e.position.ledger = r.latestLedger ∧ e.toEmittedEvent ∉ s.stored

namespace Follower

variable {f : Follower} {st next : SyncState} {first : Start} {s : Store}

/-- What a run that began at `first` has passed by the head of a round is stored. -/
structure Passed (first : Start) (log : RpcLog) (st : SyncState) : Prop where
  within : ∀ e, st.start.admits e = true → first.admits e = true
  stored : ∀ e ∈ log.events, e.successful = true → first.admits e.toEmittedEvent = true →
    st.start.admits e.toEmittedEvent = false → e.toEmittedEvent ∈ st.store.stored

/-- **One page**: what lies up to its cursor is stored. -/
theorem Passed.accepted {n : Option Start} {s' : Store} (h : Passed first log st)
    (honest : HonestAnswer fromBase64 log st.start limit scanned r)
    (hpage : r.intoPage fromBase64 contracts = .ok page)
    (ha : Accepted f st.start page n st.store s') {e : LoggedEvent} (he : e ∈ log.events)
    (hsuccessful : e.successful = true) (hfirst : first.admits e.toEmittedEvent = true)
    (hle : e.position ≤ page.cursor) : e.toEmittedEvent ∈ s'.stored := by
  by_cases hadmits : st.start.admits e.toEmittedEvent = true
  · exact ha.appends.2 _ (honest.mem_page hpage (honest.complete hpage he hadmits hle) hsuccessful)
  · obtain ⟨⟨new, -, hstored⟩, -⟩ := ha.appends
    rw [hstored]
    exact List.mem_append_left _
      (h.stored e he hsuccessful hfirst (Bool.eq_false_iff.mpr hadmits))

theorem Passed.step {logs : Nat → RpcLog} {server : Server}
    (honest : HonestServer fromBase64 logs limit server) (h : Passed first (logs st.round) st)
    (hround : f.syncRound (rpcEvents fromBase64 server contracts limit) st = .inl next) :
    Passed first (logs next.round) next := by
  obtain ⟨hnext, page, hevents, ha⟩ := syncRound_inl hround
  obtain ⟨r, hr, hpage⟩ := rpcEvents_ok hevents
  obtain ⟨scanned, hanswer⟩ := honest.answers _ _ _ hr
  rw [hnext]
  refine ⟨fun e he => ?_, fun e he hsuccessful hfirst hpassed => ?_⟩
  · rw [ha.next_after.1] at he
    exact h.within e (hanswer.admits_of_lt hpage ha (of_decide_eq_true he))
  · rw [ha.next_after.1] at hpassed
    have hle : e.position ≤ page.cursor := not_lt.mp (of_decide_eq_false hpassed)
    rcases (honest.grows _ _ _ hr).later e he with hold | hnew
    · exact h.accepted hanswer hpage ha hold hsuccessful hfirst hle
    · have := (ledger_mono hle).trans (hanswer.cursor_ledger hpage)
      omega

/-- **The last page.**  The two reasons to return leave nothing behind, unless a full response
looked short. -/
theorem Passed.caughtUp_iff {s' : Store} (h : Passed first log st) (hres : Resumable f s st)
    (honest : HonestAnswer fromBase64 log st.start f.pageSize scanned r)
    (hpage : r.intoPage fromBase64 contracts = .ok page)
    (ha : Accepted f st.start page none st.store s') :
    CaughtUp log first r.latestLedger s' ↔ ¬CutInTip log f.pageSize r s := by
  obtain ⟨hcursor, hlatest, -⟩ := intoPage_ok hpage
  by_cases hfull : r.events.length = f.pageSize
  · obtain ⟨last, hlast, hlastCursor⟩ := honest.full hfull
    have hpos : page.cursor = last.position := Except.ok.inj (hcursor.symm.trans hlastCursor)
    -- a full response lists an event after the request, so the cursor has moved
    have hmoved : st.start ≠ .after page.cursor := by
      intro hstart
      have hadmits := (RpcLog.mem_next (List.mem_of_getLast? hlast)).2.1
      rw [hstart, Start.admits, hpos, decide_eq_true_iff] at hadmits
      exact lt_irrefl _ hadmits
    obtain ⟨htip, hshort⟩ := (ha.returns rfl).resolve_right hmoved
    have hledger : page.cursor.ledger = r.latestLedger :=
      le_antisymm (honest.cursor_ledger hpage) (hlatest ▸ of_decide_eq_true htip)
    constructor
    · rintro hcaught ⟨-, -, cursor, hc, -, e, he, hsuccessful, hlt, hle, hnot⟩
      obtain rfl := Except.ok.inj (hcursor.symm.trans hc)
      have hmem := hcaught e he hsuccessful
        (h.within _ (honest.admits_of_lt hpage ha hlt)) hle.le
      -- the run stores nothing above the cursor
      obtain ⟨new, hstored, -, hupTo⟩ := hres.accepted ha
      rw [hstored] at hmem
      obtain ⟨c, hc, hec⟩ := hupTo _ ((List.mem_append.mp hmem).resolve_left hnot)
      rw [← Option.some.inj hc] at hec
      exact absurd hlt (not_lt.mpr hec)
    · intro hcut e he hsuccessful hfirst hle
      by_cases hpassed : e.position ≤ page.cursor
      · exact h.accepted honest hpage ha he hsuccessful hfirst hpassed
      · have hlt := not_le.mp hpassed
        have heq : e.position.ledger = r.latestLedger :=
          le_antisymm hle (hledger ▸ ledger_mono hlt.le)
        by_contra hnot
        refine hcut ⟨hfull, honest.exists_failed hpage (by omega), _, hcursor, hledger, e, he,
          hsuccessful, hlt, heq, fun hold => hnot ?_⟩
        obtain ⟨new, hstored, -, -⟩ := hres.accepted ha
        rw [hstored]
        exact List.mem_append_left _ hold
  · have hpos : page.cursor = endOfLedger scanned :=
      Except.ok.inj (hcursor.symm.trans (honest.scan hfull))
    have hscanned : r.latestLedger ≤ scanned := by
      rcases ha.returns rfl with ⟨htip, -⟩ | hsame
      · have := of_decide_eq_true htip
        rwa [hlatest, hpos, endOfLedger_ledger honest.scanned_lt] at this
      · rcases honest.progress with heq | hprogress
        · exact heq.ge
        · exact absurd (hprogress _ hsame) (hpos ▸ lt_irrefl _)
    refine ⟨fun _ hcut => hfull hcut.1, fun _ e he hsuccessful hfirst hle => ?_⟩
    refine h.accepted honest hpage ha he hsuccessful hfirst ?_
    rw [hpos, le_endOfLedger_iff honest.scanned_lt]
    exact hle.trans hscanned

/-- **Returning means caught up, unless a full page looked short.**  Against a server that behaves
like `getEvents`, with a log that may hold events of failed calls and grow while it is read: when
`sync_to_tip` returns, every event of a successful call after the run's start and in a ledger up to
the newest one its last response names is stored, if and only if that response was not full, with
an event of a failed call in it, ending inside the newest ledger, while an event of a successful
call further on in that ledger was not stored before. -/
theorem returns_caught_up_unless_cut (fromBase64 : FromBase64) (logs : Nat → RpcLog) (f : Follower)
    (server : Server) (honest : HonestServer fromBase64 logs f.pageSize server)
    {startLedger : Option Nat} {fuel : Nat} {s s' : Store} {visited : List SyncState}
    {report : SyncReport}
    (hrun : f.syncToTip (rpcEvents fromBase64 server f.contracts.ids f.pageSize) startLedger fuel
      s = (visited, some (.ok report, s'))) :
    ∃ first ∈ visited.head?, ∃ last ∈ visited.getLast?, ∃ r,
      f.beginSync startLedger s = .ok (first.start, first.report) ∧
      server last.round last.start = .ok r ∧
      (CaughtUp (logs last.round) first.start r.latestLedger s' ↔
        ¬CutInTip (logs last.round) f.pageSize r s) := by
  unfold syncToTip at hrun
  split at hrun
  · cases hrun
  · rename_i start report0 hbegin
    obtain ⟨hvisited, hresult⟩ := Prod.mk.inj hrun
    obtain ⟨n, rfl⟩ : ∃ n, fuel = n + 1 := by
      cases fuel with
      | zero => cases hresult
      | succ n => exact ⟨n, rfl⟩
    have hinv : ∀ st ∈ visited, Resumable f s st ∧ Passed start (logs st.round) st := by
      rw [← hvisited]
      refine Loop.invariant_run
        (fun a b hab hround => ⟨hab.1.step hround, hab.2.step honest hround⟩) _ _
        ⟨resumable_begin hbegin, fun _ he => he, fun e _ _ hfirst hnot => ?_⟩
      rw [hfirst] at hnot
      cases hnot
    obtain ⟨last, hlast, hround⟩ := Loop.exists_last _ _ hresult
    rw [hvisited] at hlast
    obtain ⟨page, hevents, ha⟩ := syncRound_inr hround
    obtain ⟨r, hr, hpage⟩ := rpcEvents_ok hevents
    obtain ⟨scanned, hanswer⟩ := honest.answers _ _ _ hr
    obtain ⟨hres, hpassed⟩ := hinv last (List.mem_of_getLast? hlast)
    exact ⟨_, hvisited ▸ Loop.head?_run _ _ n, last, hlast, r, hbegin, hr,
      hpassed.caughtUp_iff hres hanswer hpage ha⟩

/-! ### A failed call before a successful one -/

/-- Base64 and XDR at the texts of a spent nullifier. -/
def nullifierBase64 : FromBase64 := fun topic value =>
  if topic = ["AAAADwAAABNuZXdfbnVsbGlmaWVyX2V2ZW50AA==",
      "AAAACwAAAAAAAAAAAAAAAAAAAAAAAAAAAAAAAAAAAAAAAAAH"] ∧ value = "AAAAEQAAAAEAAAAA" then
    .ok (PoolEvent.newNullifier 7).encode
  else .error (.xdr "topic" "unknown text")

def rpcNullifier (t : Nat) (successful : Option Bool) : RpcEvent where
  id := (firstOperationOf 5 t 0).display
  ledger := 5
  contractId := .contract 1
  topic := ["AAAADwAAABNuZXdfbnVsbGlmaWVyX2V2ZW50AA==",
    "AAAACwAAAAAAAAAAAAAAAAAAAAAAAAAAAAAAAAAAAAAAAAAH"]
  value := "AAAAEQAAAAEAAAAA"
  inSuccessfulContractCall := successful

/-- A note is spent in ledger 5, in the transaction after one that tried to and failed. -/
def retriedLog : RpcLog where
  events := [⟨⟨firstOperationOf 5 1 0, .contract 1, (PoolEvent.newNullifier 7).encode⟩, false⟩,
    ⟨⟨firstOperationOf 5 2 0, .contract 1, (PoolEvent.newNullifier 7).encode⟩, true⟩]
  sorted := by decide

/-- The response for one event. -/
def firstResponse : GetEventsResult where
  events := [rpcNullifier 1 (some false)]
  cursor := (firstOperationOf 5 1 0).display
  latestLedger := 5
  oldestLedger := 1

/-- The response for three. -/
def wholeResponse : GetEventsResult where
  events := [rpcNullifier 1 (some false), rpcNullifier 2 (some true)]
  cursor := (endOfLedger 5).display
  latestLedger := 5
  oldestLedger := 1

/-- A server that answers the first request for ledger 5 and is gone afterwards. -/
def answersOnce (r : GetEventsResult) : Server := fun n start =>
  if n = 0 ∧ start = .ledger 5 then .ok r else .error .emptyResponse

theorem honestServer_answersOnce {limit scanned : Nat} {log : RpcLog} {r : GetEventsResult}
    (h : HonestAnswer nullifierBase64 log (.ledger 5) limit scanned r) :
    HonestServer nullifierBase64 (fun _ => log) limit (answersOnce r) where
  answers := by
    intro n start r' hr
    unfold answersOnce at hr
    split at hr
    · rename_i hasked
      obtain rfl := Except.ok.inj hr
      rw [hasked.2]
      exact ⟨scanned, h⟩
    · cases hr
  grows := by
    intro n start r' _
    exact ⟨List.prefix_refl _, fun e he => .inl he⟩

theorem reports_rpcNullifier (t : Nat) (successful : Bool)
    (hid : fromStr (firstOperationOf 5 t 0).display = .ok (firstOperationOf 5 t 0))
    (hledger : (firstOperationOf 5 t 0).ledger = 5) :
    Reports nullifierBase64 (rpcNullifier t (some successful))
      ⟨⟨firstOperationOf 5 t 0, .contract 1, (PoolEvent.newNullifier 7).encode⟩, successful⟩ where
  id := hid
  ledger := hledger.symm
  contract := rfl
  raw := if_pos ⟨rfl, rfl⟩
  flag := by
    change some successful = some false ↔ successful = false
    rw [Option.some.injEq]

theorem honest_firstResponse :
    HonestAnswer nullifierBase64 retriedLog (.ledger 5) 1 5 firstResponse := by
  have hnext : retriedLog.next (.ledger 5) 1 5 = retriedLog.events.take 1 := by decide +kernel
  have hid : fromStr (firstOperationOf 5 1 0).display = .ok (firstOperationOf 5 1 0) := by
    decide +kernel
  refine ⟨?_, ?_, fun hlen => absurd rfl hlen, le_refl 5, by decide, ?_, .inl rfl⟩
  · rw [hnext]
    exact .cons (reports_rpcNullifier 1 false hid (by decide)) .nil
  · intro _
    rw [hnext]
    exact ⟨_, rfl, hid⟩
  · intro l hl
    exact (Start.ledger.inj hl).ge

theorem honest_wholeResponse :
    HonestAnswer nullifierBase64 retriedLog (.ledger 5) 3 5 wholeResponse := by
  have hnext : retriedLog.next (.ledger 5) 3 5 = retriedLog.events := by decide +kernel
  refine ⟨?_, fun hlen => absurd hlen (by decide), ?_, le_refl 5, by decide, ?_, .inl rfl⟩
  · rw [hnext]
    exact .cons (reports_rpcNullifier 1 false (by decide +kernel) (by decide))
      (.cons (reports_rpcNullifier 2 true (by decide +kernel) (by decide)) .nil)
  · intro _
    decide +kernel
  · intro l hl
    exact (Start.ledger.inj hl).ge

def retriedFollower (limit : Nat) : Follower := ⟨⟨.contract 1, .contract 2⟩, .rpc, limit⟩

/-- The run against a server that answers once, from ledger 5 on and an empty store. -/
def retriedRun (limit : Nat) (r : GetEventsResult) :
    List SyncState × Option (Except IngestError SyncReport × Store) :=
  (retriedFollower limit).syncToTip (rpcEvents nullifierBase64 (answersOnce r)
    (retriedFollower limit).contracts.ids (retriedFollower limit).pageSize) (some 5) 1 .empty

/-- What a run that returned has stored. -/
def storedCount : Option (Except IngestError SyncReport × Store) → Option Nat
  | some (.ok _, s) => some s.stored.length
  | _ => none

theorem storedCount_eq_some {o : Option (Except IngestError SyncReport × Store)} {n : Nat}
    (h : storedCount o = some n) : ∃ report s, o = some (.ok report, s) ∧ s.stored.length = n := by
  unfold storedCount at h
  split at h
  · exact ⟨_, _, rfl, Option.some.inj h⟩
  · cases h

/-- With a page size of one, the run returns after the page that held the failed call and stores
nothing. -/
theorem full_page_of_failed_call_returns_early :
    HonestServer nullifierBase64 (fun _ => retriedLog) 1 (answersOnce firstResponse) ∧
      ∃ visited report s', retriedRun 1 firstResponse = (visited, some (.ok report, s')) ∧
        ¬CaughtUp retriedLog (.ledger 5) firstResponse.latestLedger s' := by
  refine ⟨honestServer_answersOnce honest_firstResponse, ?_⟩
  have hcount : storedCount (retriedRun 1 firstResponse).2 = some 0 := by decide +kernel
  obtain ⟨report, s', hresult, hlen⟩ := storedCount_eq_some hcount
  refine ⟨_, report, s', Prod.ext rfl hresult, fun hcaught => ?_⟩
  have hmem := hcaught ⟨⟨firstOperationOf 5 2 0, .contract 1, (PoolEvent.newNullifier 7).encode⟩,
    true⟩ (List.mem_cons_of_mem _ List.mem_cons_self) rfl (by decide) (by decide)
  rw [List.length_eq_zero_iff.mp hlen] at hmem
  cases hmem

/-- With a page size of three it stores the spent nullifier. -/
theorem returns_caught_up_unless_cut_short_page : ∃ visited report s',
    retriedRun 3 wholeResponse = (visited, some (.ok report, s')) ∧ s'.stored.length = 1 ∧
      ∃ first ∈ visited.head?, CaughtUp retriedLog first.start wholeResponse.latestLedger s' := by
  have hcount : storedCount (retriedRun 3 wholeResponse).2 = some 1 := by decide +kernel
  obtain ⟨report, s', hresult, hlen⟩ := storedCount_eq_some hcount
  have hrun : retriedRun 3 wholeResponse =
      ((retriedRun 3 wholeResponse).1, some (.ok report, s')) :=
    Prod.ext rfl hresult
  obtain ⟨first, hfirst, last, -, r, -, hr, hiff⟩ := returns_caught_up_unless_cut nullifierBase64
    (fun _ => retriedLog) (retriedFollower 3) (answersOnce wholeResponse)
    (honestServer_answersOnce honest_wholeResponse) hrun
  obtain rfl : wholeResponse = r := by
    unfold answersOnce at hr
    split at hr
    · exact Except.ok.inj hr
    · cases hr
  exact ⟨_, report, s', hrun, hlen, first, hfirst,
    hiff.mpr fun hcut => absurd hcut.1 (by decide)⟩

end Follower

end Veil
