/-
# The seed from Stellar Expert

`seed` of `services/indexer/src/seed.rs`.  It records the newest ledger Stellar Expert has
processed, reads each contract's history page after page, and then marks the seed complete up to
that ledger.  The archive is not this code and the process may die anywhere, so the loop is cut at
its requests, as that of `sync_to_tip` is:

* `seedPage` is one round of the loop over a contract, from an answer to the next request or the
  end of the contract;
* `finishSeed` is the write after both contracts.

`Seed.seedPage_ok` says what a round that did not fail has written.
-/
import Veil.Indexer.Ingest

namespace Veil

open EventPosition Tx

inductive SeedError where
  | store (error : StoreError)
  | ingest (error : IngestError)
  | outOfOrder (contract : Address) (previous event : EventPosition)
  | wrongContract (asked found : Address)
  deriving DecidableEq, Repr

structure SeedReport where
  pages : Nat := 0
  inserted : Nat := 0
  alreadyStored : Nat := 0
  /-- Ledger the seed is complete up to. -/
  completeTo : Nat
  deriving DecidableEq, Repr

/-! ## 1. Seeding -/

namespace Seed

def liftStore {α : Type} : Except StoreError α → Except SeedError α
  | .ok a => .ok a
  | .error error => .error (.store error)

@[simp] theorem liftStore_eq_ok {α : Type} {x : Except StoreError α} {a : α} :
    liftStore x = .ok a ↔ x = .ok a := by
  cases x <;> simp [liftStore]

def liftIngest {α : Type} : Except IngestError α → Except SeedError α
  | .ok a => .ok a
  | .error error => .error (.ingest error)

@[simp] theorem liftIngest_eq_ok {α : Type} {x : Except IngestError α} {a : α} :
    liftIngest x = .ok a ↔ x = .ok a := by
  cases x <;> simp [liftIngest]

/-- The listing must go on after the position read last. -/
def checkOrder (contract : Address) (event : EventPosition) :
    (previous : Option EventPosition) → Except SeedError Unit
  | some previous => ensure (¬event ≤ previous) (.outOfOrder contract previous event)
  | none => .ok ()

/-- The loop over the records of an answer; returns the batch and the last position. -/
def readRecords (contracts : Contracts) (contract : Address) : (previous : Option EventPosition) →
    List ContractEvent → Except SeedError (List StoredEvent × Option EventPosition)
  | previous, [] => .ok ([], previous)
  | previous, event :: events => do
    ensure (event.contract = contract) (.wrongContract contract event.contract)
    checkOrder contract event.position previous
    let stored ← liftIngest (Follower.decodeEvent event)
    liftIngest (contracts.check event.toEmittedEvent stored.decoded)
    let (batch, last) ← readRecords contracts contract (some event.position) events
    .ok (stored :: batch, last)

/-- The write of a round, with the last position read; an empty answer writes nothing. -/
def commitRecords (contract : Address) (tip : Nat) (batch : List StoredEvent)
    (last : Option EventPosition) (report : SeedReport) (s : Store) :
    Except SeedError (SeedReport × Store) :=
  match batch, last with
  | stored :: batch, some cursor => do
    let (outcome, s) ← liftStore (s.writeBatch (.seedOf contract) (stored :: batch) ⟨cursor, tip⟩)
    .ok ({ report with
      inserted := report.inserted + outcome.inserted
      alreadyStored := report.alreadyStored + outcome.alreadyStored }, s)
  | _, _ => .ok (report, s)

end Seed

/-- What a round of the seed leads to. -/
inductive SeedNext where
  /-- The answer was full: ask again, after this position. -/
  | ask (previous : Option EventPosition)
  | contractDone
  deriving DecidableEq, Repr

/-- One round of the loop over `contract`. -/
def seedPage (contracts : Contracts) (pageSize tip : Nat) (contract : Address)
    (previous : Option EventPosition) (records : List ContractEvent) (report : SeedReport)
    (s : Store) : Except SeedError (SeedNext × SeedReport × Store) := do
  let report := { report with pages := report.pages + 1 }
  let full := decide (records.length ≥ pageSize)
  let (batch, last) ← Seed.readRecords contracts contract previous records
  let (report, s) ← Seed.commitRecords contract tip batch last report s
  .ok (if full then .ask last else .contractDone, report, s)

/-- The write that marks the seed complete. -/
def finishSeed (tip : Nat) (s : Store) : Except SeedError Store := do
  let (_, s) ← Seed.liftStore (s.writeBatch .seed [] ⟨endOfLedger tip, tip⟩)
  .ok s

namespace Seed

/-! ## 2. What a round did -/

/-- The batch is the answer's records, of the contract asked for, and the last position is that of
the last record. -/
theorem readRecords_ok {contracts : Contracts} {contract : Address} :
    ∀ {records : List ContractEvent} {previous last : Option EventPosition}
      {batch : List StoredEvent},
    readRecords contracts contract previous records = .ok (batch, last) →
    batch.map (·.event) = records ∧
      last = (records.getLast?.map (·.position)).or previous
  | [], previous, last, batch, h => by
    obtain ⟨rfl, rfl⟩ := Prod.mk.inj (Except.ok.inj h)
    exact ⟨rfl, rfl⟩
  | event :: events, previous, last, batch, h => by
    obtain ⟨_, -, h⟩ := bind_eq_ok.mp h
    obtain ⟨_, -, h⟩ := bind_eq_ok.mp h
    obtain ⟨st, hst, h⟩ := bind_eq_ok.mp h
    obtain ⟨_, -, h⟩ := bind_eq_ok.mp h
    obtain ⟨⟨batch1, last1⟩, h1, h⟩ := bind_eq_ok.mp h
    obtain ⟨rfl, rfl⟩ := Prod.mk.inj (Except.ok.inj h)
    obtain ⟨hmap, rfl⟩ := readRecords_ok h1
    refine ⟨by rw [List.map_cons, Follower.decodeEvent_ok (liftIngest_eq_ok.mp hst), hmap], ?_⟩
    rw [List.getLast?_cons]
    cases events.getLast? <;> rfl

/-- **A round of the seed that did not fail.**  Either the answer was empty and nothing changed, or
its records were committed with the position of the last one as the contract's cursor. -/
structure Round (contract : Address) (pageSize tip : Nat) (previous : Option EventPosition)
    (records : List ContractEvent) (next : SeedNext) (s s' : Store) : Prop where
  wrote : (records = [] ∧ s' = s) ∨ ∃ last ∈ records.getLast?,
    Store.Written (.seedOf contract) (records.map (·.toEmittedEvent)) ⟨last.position, tip⟩ s s'
  resumes : next = .ask ((records.getLast?.map (·.position)).or previous) ∨
    next = .contractDone ∧ records.length < pageSize

theorem commitRecords_ok {contract : Address} {tip : Nat} {batch : List StoredEvent}
    {last : ContractEvent} {report report' : SeedReport} {s s' : Store} (hs : s.Sound)
    (hlast : last ∈ (batch.map (·.event)).getLast?)
    (h : commitRecords contract tip batch (some last.position) report s = .ok (report', s')) :
    Store.Written (.seedOf contract) (batch.map (·.event.toEmittedEvent)) ⟨last.position, tip⟩
      s s' := by
  cases batch with
  | nil => cases hlast
  | cons st batch =>
    obtain ⟨⟨outcome, s1⟩, hwrite, h⟩ := bind_eq_ok.mp h
    obtain ⟨-, rfl⟩ := Prod.mk.inj (Except.ok.inj h)
    exact Store.writeBatch_ok hs (liftStore_eq_ok.mp hwrite)

theorem seedPage_ok {contracts : Contracts} {pageSize tip : Nat} {contract : Address}
    {previous : Option EventPosition} {records : List ContractEvent} {report report' : SeedReport}
    {next : SeedNext} {s s' : Store} (hs : s.Sound)
    (h : seedPage contracts pageSize tip contract previous records report s =
      .ok (next, report', s')) : Round contract pageSize tip previous records next s s' := by
  obtain ⟨⟨batch, last⟩, hread, h⟩ := bind_eq_ok.mp h
  obtain ⟨⟨report1, s1⟩, hcommit, h⟩ := bind_eq_ok.mp h
  simp only [Except.ok.injEq, Prod.mk.injEq] at h
  obtain ⟨rfl, -, rfl⟩ := h
  obtain ⟨rfl, rfl⟩ := readRecords_ok hread
  refine ⟨?_, ?_⟩
  · cases hlast : (batch.map (·.event)).getLast? with
    | none =>
      left
      obtain rfl : batch = [] := by simpa using List.getLast?_eq_none_iff.mp hlast
      obtain ⟨-, rfl⟩ := Prod.mk.inj (Except.ok.inj hcommit)
      exact ⟨rfl, rfl⟩
    | some last =>
      right
      rw [hlast] at hcommit
      refine ⟨last, rfl, ?_⟩
      rw [List.map_map]
      exact commitRecords_ok hs (Option.mem_def.mpr hlast) hcommit
  · by_cases hfull : (batch.map (·.event)).length ≥ pageSize
    · left
      rw [if_pos (decide_eq_true hfull)]
    · right
      rw [if_neg (by simpa using hfull)]
      exact ⟨rfl, not_le.mp hfull⟩

end Seed

theorem finishSeed_ok {tip : Nat} {s s' : Store} (hs : s.Sound) (h : finishSeed tip s = .ok s') :
    Store.Written .seed [] ⟨endOfLedger tip, tip⟩ s s' := by
  obtain ⟨⟨outcome, s1⟩, hwrite, h⟩ := bind_eq_ok.mp h
  obtain rfl := Except.ok.inj h
  exact Store.writeBatch_ok hs (Seed.liftStore_eq_ok.mp hwrite)

end Veil
