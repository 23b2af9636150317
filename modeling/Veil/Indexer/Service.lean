/-
# The long-running indexer

`services/indexer/src/service.rs`: the loop that follows RPC (`run`), the wait for the writer lock
(`acquire_writer_lock`), and what `/ready` answers.  Several instances may run at once: a new
deployment comes up while the old one still holds the lock.

The writer lock belongs to a database connection.  When that connection drops, Postgres frees the
lock at once, but the instance only looks again at the start of its next cycle (`still_held`).
Until then it goes on writing, beside whoever took the lock.  So the lock alone does not make
writers exclusive, and an instance is modelled by every point at which it reads or writes the
database:

* `rpc_start` reads two checkpoints, one after the other, and `sync_to_tip` reads one again;
* `write_batch` reads the stream's checkpoint when its transaction opens, and locks the row if there
  is one; it writes its events and the new checkpoint when it commits.

Between any two of these points the other instances take steps of their own.
-/
import Veil.Core.RelyGuarantee
import Veil.Indexer.Indexing

namespace Veil

open EventPosition Tx Unsigned

/-! ## 1. `/ready` and the backoff -/

/-- Nanoseconds in a second. -/
def nanos : Nat := 10 ^ 9

/-- `Duration::MAX`. -/
def durationMax : Nat := (2 ^ 64 - 1) * nanos + (nanos - 1)

/-- Durations are in nanoseconds. -/
structure ServiceConfig where
  pollInterval : Nat
  overlap : Nat
  maxLag : Nat
  maxSilence : Nat
  /-- There is a Stellar Expert client to seed an empty database from. -/
  seedFrom : Bool

/-- What `/ready` reports. -/
structure Status where
  latestLedger : Option Nat := none
  indexedLedger : Option Nat := none
  lastSuccess : Option Nat := none
  lastError : Option String := none
  eventsStored : Nat := 0
  syncErrors : Nat := 0

def Status.lag (status : Status) : Option Nat := do
  let latest ← status.latestLedger
  let indexed ← status.indexedLedger
  some (latest - indexed)

structure Readiness where
  ready : Bool
  reason : Option String
  latestLedger : Option Nat
  indexedLedger : Option Nat
  lag : Option Nat
  lastSuccessSecsAgo : Option Nat
  lastError : Option String

def readiness (status : Status) (config : ServiceConfig) (now : Nat) : Readiness :=
  let since := status.lastSuccess.map fun success => now - success
  let lag := status.lag
  let reason := match since, lag with
    | none, _ => some "no successful sync yet"
    | some since, lag =>
      if since > config.maxSilence then
        let seconds := since / nanos
        some s!"last successful sync {seconds}s ago"
      else match lag with
        | some lag =>
          if lag > config.maxLag then some s!"{lag} ledgers behind the RPC tip" else none
        | none => none
  { ready := reason.isNone
    reason := reason
    latestLedger := status.latestLedger
    indexedLedger := status.indexedLedger
    lag := lag
    lastSuccessSecsAgo := since.map (· / nanos)
    lastError := status.lastError }

/-- A cycle ended at the tip. -/
def Status.succeeded (status : Status) (range : LedgerRange) (report : SyncReport) (now : Nat) :
    Status :=
  { status with
    latestLedger := some (report.checkpoint.elim range.latestLedger fun checkpoint =>
      max range.latestLedger checkpoint.latestLedger)
    indexedLedger := (report.checkpoint.map (·.cursor.ledger)).or status.indexedLedger
    eventsStored := min (status.eventsStored + report.inserted) (2 ^ 64 - 1)
    lastSuccess := some now
    lastError := none }

def Status.failed (status : Status) (message : String) : Status :=
  { status with
    syncErrors := min (status.syncErrors + 1) (2 ^ 64 - 1)
    lastError := some message }

/-- The wait after a failure: doubled with each one in a row, up to two minutes. -/
def ServiceConfig.backoff (config : ServiceConfig) (failures : Nat) : Nat :=
  min (min (config.pollInterval * 2 ^ min failures 6) durationMax) (120 * nanos)

/-! ## 2. An instance -/

/-- Where an instance is. -/
inductive Task where
  /-- In `acquire_writer_lock`. -/
  | waiting
  /-- Between two cycles, until `wake`. -/
  | resting (wake : Nat)
  /-- About to run `rpc_start`; `seeded` if the cycle has seeded already. -/
  | handingOff (range : LedgerRange) (seeded : Bool)
  /-- In `rpc_start`, which has found no RPC checkpoint. -/
  | unfollowed (range : LedgerRange) (seeded : Bool)
  /-- About to run `sync_to_tip`. -/
  | starting (range : LedgerRange) (startLedger : Option Nat)
  /-- In `seed` or `sync_to_tip`; `seen` is the checkpoint that the transaction it has open, if
  any, has read. -/
  | busy (range : LedgerRange) (phase : Indexing.Phase) (seen : Option (Option Checkpoint))
  | stopped

/-- In a cycle. -/
def Task.Working : Task → Prop
  | .waiting => False
  | .resting _ => False
  | .stopped => False
  | _ => True

structure Instance where
  status : Status := {}
  /-- Failures in a row. -/
  failures : Nat := 0
  task : Task := .waiting

/-- A cycle that reached the tip. -/
def Instance.succeeded (p : Instance) (config : ServiceConfig) (now : Nat) (range : LedgerRange)
    (report : SyncReport) : Instance where
  status := p.status.succeeded range report now
  failures := 0
  task := .resting (now + config.pollInterval)

/-- A cycle that an error ended. -/
def Instance.failed (p : Instance) (config : ServiceConfig) (now : Nat) (message : String) :
    Instance :=
  let failures := saturatingAdd p.failures 1
  { status := p.status.failed message
    failures := failures
    task := .resting (now + config.backoff failures) }

/-- After a page: the next request, or the end of the cycle. -/
def Instance.afterPage (p : Instance) (config : ServiceConfig) (now : Nat) (range : LedgerRange)
    (report : SyncReport) : Option Start → Instance
  | some start => { p with task := .busy range (.requesting start report) none }
  | none => p.succeeded config now range report

/-! ## 3. What they share -/

/-- The store as a transaction sees it that has read `seen` in the checkpoint row of `stream`. -/
def Store.seeing (s : Store) (stream : Stream) (seen : Option Checkpoint) : Store :=
  { s with checkpoint := Function.update s.checkpoint stream seen }

/-- The contracts' events, the clock, and the database with its locks. -/
structure Shared (ι : Type) where
  history : History
  /-- The latest ledger a source has named. -/
  reported : Nat
  now : Nat
  store : Store
  /-- Whose connection holds the writer lock. -/
  writer : Option ι
  /-- Whose transaction has locked a stream's checkpoint row. -/
  rows : Stream → Option ι

namespace Shared

variable {ι : Type} [DecidableEq ι]

/-- Nothing indexed, and nobody there. -/
def fresh (history : History) : Shared ι := ⟨history, 0, 0, .empty, none, fun _ => none⟩

/-- The end of a transaction. -/
def endTransaction (s : Shared ι) (i : ι) : Shared ι :=
  { s with rows := fun stream => if s.rows stream = some i then none else s.rows stream }

/-- The instance is gone, and its connections with it. -/
def leave (s : Shared ι) (i : ι) : Shared ι :=
  { s.endTransaction i with writer := if s.writer = some i then none else s.writer }

/-- `SELECT … FOR UPDATE`: the row is locked if there is one. -/
def lockRow (s : Shared ι) (i : ι) (stream : Stream) : Shared ι :=
  if (s.store.checkpoint stream).isSome then
    { s with rows := Function.update s.rows stream (some i) }
  else s

/-- Nobody else has the row locked. -/
def RowFree (s : Shared ι) (i : ι) (stream : Stream) : Prop :=
  s.rows stream = none ∨ s.rows stream = some i

end Shared

/-! ## 4. The steps -/

namespace Service

open Indexing (Phase)

/-- What the two sources may answer, when the contracts have emitted a history. -/
structure Sources where
  /-- Stellar Expert: the records of a contract after a position, up to a tip. -/
  listing : History → Address → (previous : Option EventPosition) → (limit tip : Nat) →
    List ContractEvent → Prop
  page : History → Start → (limit : Nat) → EventsPage → Prop

/-- **Honest sources that retain what is asked for.**  Stellar Expert's list may lag but is complete
up to the ledger it named as its newest; RPC serves pages in order and complete up to their cursor,
and still has the first ledger of the request.  The last is a premise on every request, also on one
that resumes after a cursor: `rpc_start` looks at the ledgers RPC has before the first request only,
and lets a cursor pass whose own ledger RPC has just dropped. -/
def Sources.honest : Sources where
  listing := HonestListing
  page history start limit page :=
    ∃ oldest ≤ start.firstLedger, HonestPage (history.retained oldest) start limit page

variable {ι : Type} [DecidableEq ι]

/-- What happens around the instances.  Connections may drop if `drops`. -/
inductive Env (ix : Indexer) (drops : Bool) : Shared ι → Shared ι → Prop
  | grow {s : Shared ι} {history : History} (grows : s.history.Grows history s.reported)
      (emit : ix.contracts.Emit history) : Env ix drops s { s with history := history }
  | tick {s : Shared ι} {now : Nat} (later : s.now ≤ now) : Env ix drops s { s with now := now }
  | drop {s : Shared ι} (allowed : drops = true) : Env ix drops s { s with writer := none }

/-- A step of the life of an instance, or of its hand-off. -/
inductive Manages (config : ServiceConfig) (i : ι) :
    Shared ι → Instance → Shared ι → Instance → Prop
  /-- `pg_try_advisory_lock` succeeds. -/
  | lock {s : Shared ι} {p : Instance} (waiting : p.task = .waiting) (free : s.writer = none) :
      Manages config i s p { s with writer := some i } { p with task := .resting s.now }
  /-- `still_held` fails, which ends `run`. -/
  | lost {s : Shared ι} {p : Instance} {wake : Nat} (resting : p.task = .resting wake)
      (due : wake ≤ s.now) (lost : s.writer ≠ some i) :
      Manages config i s p s { p with task := .stopped }
  /-- A signal, or the death of the process. -/
  | stop {s : Shared ι} {p : Instance} :
      Manages config i s p (s.leave i) { p with task := .stopped }
  /-- A new process. -/
  | launch {s : Shared ι} {p : Instance} (stopped : p.task = .stopped) : Manages config i s p s {}
  /-- `still_held` succeeds, and RPC answers `ledger_range`. -/
  | range {s : Shared ι} {p : Instance} {wake : Nat} {range : LedgerRange}
      (resting : p.task = .resting wake) (due : wake ≤ s.now) (held : s.writer = some i) :
      Manages config i s p s { p with task := .handingOff range false }
  /-- Any error of a cycle; an open transaction is rolled back. -/
  | fail {s : Shared ι} {p : Instance} {message : String} (working : p.task.Working) :
      Manages config i s p (s.endTransaction i) (p.failed config s.now message)
  /-- `rpc_start` finds an RPC checkpoint. -/
  | resume {s : Shared ι} {p : Instance} {range : LedgerRange} {seeded : Bool}
      {startLedger : Option Nat} (handingOff : p.task = .handingOff range seeded)
      (followed : (s.store.checkpoint .rpc).isSome = true)
      (started : rpcStart s.store range config.overlap = .ok startLedger) :
      Manages config i s p s { p with task := .starting range startLedger }
  | unfollowed {s : Shared ι} {p : Instance} {range : LedgerRange} {seeded : Bool}
      (handingOff : p.task = .handingOff range seeded)
      (unfollowed : s.store.checkpoint .rpc = none) :
      Manages config i s p s { p with task := .unfollowed range seeded }
  /-- It has found none, and now reads the mark of the seed. -/
  | handOff {s : Shared ι} {p : Instance} {range : LedgerRange} {seeded : Bool}
      {startLedger : Option Nat} (unfollowed : p.task = .unfollowed range seeded)
      (started : rpcStart (s.store.seeing .rpc none) range config.overlap = .ok startLedger) :
      Manages config i s p s { p with task := .starting range startLedger }

/-- A step of the seed within a cycle. -/
inductive Seeds (sources : Sources) (config : ServiceConfig) (ix : Indexer) (i : ι) :
    Shared ι → Instance → Shared ι → Instance → Prop
  /-- The database is empty, and Stellar Expert names its newest ledger. -/
  | latestLedger {s : Shared ι} {p : Instance} {range : LedgerRange} {tip : Nat}
      (unfollowed : p.task = .unfollowed range false)
      (empty : rpcStart (s.store.seeing .rpc none) range config.overlap = .error .notSeeded)
      (client : config.seedFrom = true) :
      Seeds sources config ix i s p { s with reported := max s.reported tip } { p with
        task := .busy range (.seeding tip ix.contracts.both { completeTo := tip }) none }
  | contract {s : Shared ι} {p : Instance} {range : LedgerRange} {tip : Nat} {contract : Address}
      {todo : List Address} {report : SeedReport}
      (seeding : p.task = .busy range (.seeding tip (contract :: todo) report) none) :
      Seeds sources config ix i s p s { p with
        task := .busy range (.asking tip contract todo
          ((s.store.checkpoint (.seedOf contract)).map (·.cursor)) report) none }
  | answer {s : Shared ι} {p : Instance} {range : LedgerRange} {tip : Nat} {contract : Address}
      {todo : List Address} {previous : Option EventPosition} {report : SeedReport}
      {records : List ContractEvent}
      (asking : p.task = .busy range (.asking tip contract todo previous report) none)
      (answered : sources.listing s.history contract previous ix.seedPageSize tip records) :
      Seeds sources config ix i s p s { p with
        task := .busy range (.listed tip contract todo previous report records) none }
  /-- Nothing to write. -/
  | nothing {s : Shared ι} {p : Instance} {range : LedgerRange} {tip : Nat} {contract : Address}
      {todo : List Address} {previous : Option EventPosition} {report report' : SeedReport}
      {next : SeedNext}
      (listed : p.task = .busy range (.listed tip contract todo previous report []) none)
      (seeded : seedPage ix.contracts ix.seedPageSize tip contract previous [] report s.store =
        .ok (next, report', s.store)) :
      Seeds sources config ix i s p s { p with
        task := .busy range (.afterRecords tip contract todo report' next) none }
  | openRecords {s : Shared ι} {p : Instance} {range : LedgerRange} {tip : Nat}
      {contract : Address} {todo : List Address} {previous : Option EventPosition}
      {report : SeedReport} {records : List ContractEvent}
      (listed : p.task = .busy range (.listed tip contract todo previous report records) none)
      (nonempty : records ≠ []) (free : s.RowFree i (.seedOf contract)) :
      Seeds sources config ix i s p (s.lockRow i (.seedOf contract)) { p with
        task := .busy range (.listed tip contract todo previous report records)
          (some (s.store.checkpoint (.seedOf contract))) }
  | commitRecords {s : Shared ι} {p : Instance} {range : LedgerRange} {tip : Nat}
      {contract : Address} {todo : List Address} {previous : Option EventPosition}
      {report report' : SeedReport} {records : List ContractEvent} {seen : Option Checkpoint}
      {next : SeedNext} {store : Store}
      (listed : p.task = .busy range (.listed tip contract todo previous report records)
        (some seen)) (nonempty : records ≠ []) (free : s.RowFree i (.seedOf contract))
      (seeded : seedPage ix.contracts ix.seedPageSize tip contract previous records report
        (s.store.seeing (.seedOf contract) seen) = .ok (next, report', store)) :
      Seeds sources config ix i s p { s.endTransaction i with store := store } { p with
        task := .busy range (.afterRecords tip contract todo report' next) none }
  | openMark {s : Shared ι} {p : Instance} {range : LedgerRange} {tip : Nat} {report : SeedReport}
      (seeding : p.task = .busy range (.seeding tip [] report) none)
      (free : s.RowFree i .seed) :
      Seeds sources config ix i s p (s.lockRow i .seed) { p with
        task := .busy range (.seeding tip [] report) (some (s.store.checkpoint .seed)) }
  | commitMark {s : Shared ι} {p : Instance} {range : LedgerRange} {tip : Nat}
      {report : SeedReport} {seen : Option Checkpoint} {store : Store}
      (seeding : p.task = .busy range (.seeding tip [] report) (some seen))
      (free : s.RowFree i .seed)
      (finished : finishSeed tip (s.store.seeing .seed seen) = .ok store) :
      Seeds sources config ix i s p { s.endTransaction i with store := store } { p with
        task := .handingOff range true }

/-- A step of `sync_to_tip`.  Under `Sources.honest` an `answer` supposes that RPC still has the
first ledger of the request, also of one that resumes after a cursor. -/
inductive Follows (sources : Sources) (config : ServiceConfig) (ix : Indexer) (i : ι) :
    Shared ι → Instance → Shared ι → Instance → Prop
  | begin {s : Shared ι} {p : Instance} {range : LedgerRange} {startLedger : Option Nat}
      {start : Start} {report : SyncReport} (starting : p.task = .starting range startLedger)
      (began : ix.follower.beginSync startLedger s.store = .ok (start, report)) :
      Follows sources config ix i s p s { p with
        task := .busy range (.requesting start report) none }
  | answer {s : Shared ι} {p : Instance} {range : LedgerRange} {start : Start}
      {report : SyncReport} {page : EventsPage}
      (requesting : p.task = .busy range (.requesting start report) none)
      (answered : sources.page s.history start ix.pageSize page) :
      Follows sources config ix i s p
        { s with reported := max s.reported (max page.latestLedger page.cursor.ledger) }
        { p with task := .busy range (.holding start report page) none }
  /-- Nothing to write. -/
  | nothing {s : Shared ι} {p : Instance} {range : LedgerRange} {start : Start}
      {report report' : SyncReport} {page : EventsPage} {next : Option Start}
      (holding : p.task = .busy range (.holding start report page) none)
      (unchanged : start = .after page.cursor) (empty : page.events = [])
      (synced : ix.follower.syncPage start page report s.store = .ok (next, report', s.store)) :
      Follows sources config ix i s p s (p.afterPage config s.now range report' next)
  | openPage {s : Shared ι} {p : Instance} {range : LedgerRange} {start : Start}
      {report : SyncReport} {page : EventsPage}
      (holding : p.task = .busy range (.holding start report page) none)
      (changed : ¬(start = .after page.cursor ∧ page.events = [])) (free : s.RowFree i .rpc) :
      Follows sources config ix i s p (s.lockRow i .rpc) { p with
        task := .busy range (.holding start report page) (some (s.store.checkpoint .rpc)) }
  | commitPage {s : Shared ι} {p : Instance} {range : LedgerRange} {start : Start}
      {report report' : SyncReport} {page : EventsPage} {seen : Option Checkpoint}
      {next : Option Start} {store : Store}
      (holding : p.task = .busy range (.holding start report page) (some seen))
      (changed : ¬(start = .after page.cursor ∧ page.events = [])) (free : s.RowFree i .rpc)
      (synced : ix.follower.syncPage start page report (s.store.seeing .rpc seen) =
        .ok (next, report', store)) :
      Follows sources config ix i s p { s.endTransaction i with store := store }
        (p.afterPage config s.now range report' next)

/-- A step of instance `i`. -/
inductive Act (sources : Sources) (config : ServiceConfig) (ix : Indexer) (i : ι) :
    Shared ι → Instance → Shared ι → Instance → Prop
  | manage {s s' : Shared ι} {p p' : Instance} (step : Manages config i s p s' p') :
      Act sources config ix i s p s' p'
  | seed {s s' : Shared ι} {p p' : Instance} (step : Seeds sources config ix i s p s' p') :
      Act sources config ix i s p s' p'
  | follow {s s' : Shared ι} {p p' : Instance} (step : Follows sources config ix i s p s' p') :
      Act sources config ix i s p s' p'

/-- Any number of instances over one database. -/
abbrev Fleet (ι : Type) : Type := RelyGuarantee.World ι (Shared ι) Instance

/-- Any number of steps of any of them, in any order. -/
abbrev Runs (sources : Sources) (config : ServiceConfig) (ix : Indexer) (drops : Bool) :
    Fleet ι → Fleet ι → Prop :=
  RelyGuarantee.Reaches (Env ix drops) (Act sources config ix)

/-- A run over honest sources that retain what is asked for. -/
abbrev Reaches (config : ServiceConfig) (ix : Indexer) (drops : Bool) :
    Fleet ι → Fleet ι → Prop :=
  Runs .honest config ix drops

/-- An empty database, and instances that have just come up. -/
def Fleet.fresh (history : History) : Fleet ι := ⟨.fresh history, fun _ => {}⟩

end Service

end Veil
