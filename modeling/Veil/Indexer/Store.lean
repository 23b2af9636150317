/-
# The indexer's database

`services/indexer/src/store.rs` over the tables of `migrations/0001_events.sql`.  A batch of events
and the checkpoint that covers it are written in one transaction, so `writeBatch` returns the new
store or an error, and an error leaves the store as it was.

A table is the list of its rows in order of insertion.  What a column type or a constraint refuses
is an error here as there:

* the conversions to the signed column types (`outOfRange`);
* the `CHECK`s, primary keys and `UNIQUE`s that a row can violate (`database`).  The foreign keys
  and the checks on lengths hold by the order of the writes and by the types.

Section 4 says what a successful write did: `insertEvent_cases` for one event, `writeBatch_ok` for a
batch.  `Store.Sound` is what then holds of every store: no position twice, and every typed table
is computed from the raw events.
-/
import Veil.Indexer.Event

namespace Veil

open Tx

/-! ## 1. Rows -/

/-- Where an event was read from. -/
inductive Source where
  | stellarExpert
  | rpc
  deriving DecidableEq, Repr

/-- An event as its contract emitted it. -/
@[ext] structure EmittedEvent where
  position : EventPosition
  contract : Address
  raw : RawEvent
  deriving DecidableEq

/-- One event as a source returned it. -/
structure ContractEvent extends EmittedEvent where
  source : Source
  deriving DecidableEq

/-- One event ready to store, with what it decoded to. -/
structure StoredEvent where
  event : ContractEvent
  decoded : Decoded
  decodes : event.raw.decode = .ok decoded

/-- A row of `contract_events`. -/
structure EventRow extends EmittedEvent where
  ledger : Nat
  source : Source
  name : String
  deriving DecidableEq

inductive Origin where
  | transact
  | legacyDeposit
  deriving DecidableEq, Repr

/-- A row of `pool_commitments`. -/
structure CommitmentRow where
  position : EventPosition
  pool : Address
  leafIndex : Nat
  commitment : Nat
  encryptedOutput : Option (List UInt8)
  origin : Origin
  ledger : Nat
  deriving DecidableEq, Repr

structure NullifierRow where
  position : EventPosition
  pool : Address
  nullifier : Nat
  ledger : Nat
  deriving DecidableEq, Repr

structure SettlementRow where
  position : EventPosition
  settlement : Settlement
  ledger : Nat
  deriving DecidableEq, Repr

structure ExitRow where
  position : EventPosition
  exit : Exit
  ledger : Nat
  deriving DecidableEq, Repr

structure LegacyDepositRow where
  position : EventPosition
  pool : Address
  leafIndex : Nat
  amountBucket : Int
  asset : Address
  ledger : Nat
  deriving DecidableEq, Repr

structure PublicKeyRow where
  position : EventPosition
  pool : Address
  owner : Address
  encryptionKey : List UInt8
  noteKey : List UInt8
  ledger : Nat
  deriving DecidableEq, Repr

inductive AllowlistKind where
  | added
  | revoked
  deriving DecidableEq, Repr

/-- A row of `allowlist_events`. -/
structure AllowlistRow where
  position : EventPosition
  allowlist : Address
  kind : AllowlistKind
  leaf : Nat
  leafIndex : Option Nat
  root : Nat
  ledger : Nat
  deriving DecidableEq, Repr

/-- The typed tables. -/
@[ext] structure Tables where
  commitments : List CommitmentRow
  nullifiers : List NullifierRow
  settlements : List SettlementRow
  exits : List ExitRow
  legacyDeposits : List LegacyDepositRow
  publicKeys : List PublicKeyRow
  allowlist : List AllowlistRow

/-- How far an ingestion stream has read. -/
structure Checkpoint where
  cursor : EventPosition
  latestLedger : Nat
  deriving DecidableEq, Repr

/-- The streams the indexer keeps checkpoints for: `rpc`, `stellar_expert`, and
`stellar_expert:{contract}`. -/
inductive Stream where
  | rpc
  | seed
  | seedOf (contract : Address)
  deriving DecidableEq, Repr

structure Store where
  events : List EventRow
  tables : Tables
  checkpoint : Stream → Option Checkpoint

def Tables.empty : Tables := ⟨[], [], [], [], [], [], []⟩

/-- The tables right after the migrations. -/
def Store.empty : Store := ⟨[], .empty, fun _ => none⟩

/-- The constraints a row can violate. -/
inductive Constraint where
  | positiveToid
  | positiveLedger
  | contractStrkey
  | primaryKey
  /-- `UNIQUE (pool, leaf_index)`. -/
  | leafIndexOnce
  /-- `UNIQUE (pool, nullifier)`. -/
  | nullifierOnce
  deriving DecidableEq, Repr

inductive StoreError where
  | database (violated : Constraint)
  | outOfRange (what : String) (value : Nat)
  | conflict (position : EventPosition) (storedSource incomingSource : Source)
  | checkpointRegression (stream : Stream) (stored proposed : EventPosition)
  deriving DecidableEq, Repr

/-! ## 2. Writing -/

namespace Store

def toid (position : EventPosition) : Except StoreError Unit :=
  ensure (position.toid < 2 ^ 63) (.outOfRange "TOID" position.toid)

def eventIndex (position : EventPosition) : Except StoreError Unit :=
  ensure (position.eventIndex < 2 ^ 31) (.outOfRange "event index" position.eventIndex)

def ledger (sequence : Nat) : Except StoreError Unit :=
  ensure (sequence < 2 ^ 31) (.outOfRange "ledger" sequence)

/-- Append `row` unless one of the rows there clashes with it. -/
def insertRow {α : Type} (rows : List α) (row : α) :
    (unique : List (Constraint × (α → Bool))) → Except StoreError (List α)
  | [] => .ok (rows ++ [row])
  | (violated, clash) :: unique => do
    ensure (rows.any clash = false) (.database violated)
    insertRow rows row unique

/-- Writes the typed row for an event whose raw row was just inserted. -/
def insertTyped (event : EmittedEvent) (veil : VeilEvent) (t : Tables) :
    Except StoreError Tables :=
  let position := event.position
  match veil with
  | .newCommitment commitment index encryptedOutput => do
    let rows ← insertRow t.commitments
      ⟨position, event.contract, index, commitment, some encryptedOutput, .transact,
        position.ledger⟩
      [(.primaryKey, (·.position = position)),
       (.leafIndexOnce, fun r => r.pool = event.contract ∧ r.leafIndex = index)]
    .ok { t with commitments := rows }
  | .newNullifier nullifier => do
    let rows ← insertRow t.nullifiers ⟨position, event.contract, nullifier, position.ledger⟩
      [(.primaryKey, (·.position = position)),
       (.nullifierOnce, fun r => r.pool = event.contract ∧ r.nullifier = nullifier)]
    .ok { t with nullifiers := rows }
  | .settlement settlement => do
    let rows ← insertRow t.settlements ⟨position, settlement, position.ledger⟩
      [(.primaryKey, (·.position = position))]
    .ok { t with settlements := rows }
  | .exit exit => do
    let rows ← insertRow t.exits ⟨position, exit, position.ledger⟩
      [(.primaryKey, (·.position = position))]
    .ok { t with exits := rows }
  | .legacyDeposit deposit => do
    let rows ← insertRow t.commitments
      ⟨position, deposit.pool, deposit.index, deposit.commitment, none, .legacyDeposit,
        position.ledger⟩
      [(.primaryKey, (·.position = position)),
       (.leafIndexOnce, fun r => r.pool = deposit.pool ∧ r.leafIndex = deposit.index)]
    let deposits ← insertRow t.legacyDeposits
      ⟨position, deposit.pool, deposit.index, deposit.amountBucket, deposit.asset,
        position.ledger⟩
      [(.primaryKey, (·.position = position))]
    .ok { t with commitments := rows, legacyDeposits := deposits }
  | .publicKey owner encryptionKey noteKey => do
    let rows ← insertRow t.publicKeys
      ⟨position, event.contract, owner, encryptionKey, noteKey, position.ledger⟩
      [(.primaryKey, (·.position = position))]
    .ok { t with publicKeys := rows }
  | .leafAdded leaf index root => do
    ensure (index < 2 ^ 63) (.outOfRange "allowlist leaf index" index)
    let rows ← insertRow t.allowlist
      ⟨position, event.contract, .added, leaf, some index, root, position.ledger⟩
      [(.primaryKey, (·.position = position))]
    .ok { t with allowlist := rows }
  | .leafRevoked leaf root => do
    let rows ← insertRow t.allowlist
      ⟨position, event.contract, .revoked, leaf, none, root, position.ledger⟩
      [(.primaryKey, (·.position = position))]
    .ok { t with allowlist := rows }

def insertDecoded (event : EmittedEvent) : Decoded → Tables → Except StoreError Tables
  | .event veil, t => insertTyped event veil t
  | .ignored _, t => .ok t

def Decoded.name : Decoded → String
  | .event veil => veil.name
  | .ignored name => name

/-- The strkeys of contracts start with `C`. -/
def isContractStrkey : Address → Bool
  | .contract _ => true
  | .account _ => false

/-- The column conversions and the `CHECK`s of `contract_events`. -/
def checkColumns (event : EmittedEvent) : Except StoreError Unit := do
  toid event.position
  eventIndex event.position
  ledger event.position.ledger
  ensure (event.position.toid > 0) (.database .positiveToid)
  ensure (event.position.ledger > 0) (.database .positiveLedger)
  ensure (isContractStrkey event.contract = true) (.database .contractStrkey)

/-- The branches on whether a row with this position was there: the same event may be written
again, a different one may not. -/
def insertUnlessStored (stored : StoredEvent) (s : Store) :
    (found : Option EventRow) → Except StoreError (Bool × Store)
  | some row => do
    ensure (row.contract = stored.event.contract ∧ row.raw = stored.event.raw)
      (.conflict stored.event.position row.source stored.event.source)
    .ok (false, s)
  | none => do
    let tables ← insertDecoded stored.event.toEmittedEvent stored.decoded s.tables
    .ok (true, { s with
      events := s.events ++ [{ stored.event.toEmittedEvent with
        ledger := stored.event.position.ledger
        source := stored.event.source
        name := Decoded.name stored.decoded }]
      tables := tables })

/-- Stores one event.  Returns `false` if it was already stored with the same content. -/
def insertEvent (stored : StoredEvent) (s : Store) : Except StoreError (Bool × Store) := do
  checkColumns stored.event.toEmittedEvent
  insertUnlessStored stored s (s.events.find? fun row => row.position = stored.event.position)

/-- What one batch changed. -/
structure BatchOutcome where
  inserted : Nat
  alreadyStored : Nat
  deriving DecidableEq, Repr

def BatchOutcome.count (o : BatchOutcome) (inserted : Bool) : BatchOutcome :=
  if inserted then { o with inserted := o.inserted + 1 }
  else { o with alreadyStored := o.alreadyStored + 1 }

/-- The loop over the events of a batch. -/
def insertEvents : List StoredEvent → BatchOutcome → Store →
    Except StoreError (BatchOutcome × Store)
  | [], outcome, s => .ok (outcome, s)
  | stored :: events, outcome, s => do
    let (inserted, s) ← insertEvent stored s
    insertEvents events (outcome.count inserted) s

/-- A checkpoint never moves back. -/
def checkRegression (stream : Stream) (checkpoint : Checkpoint) (s : Store) :
    Except StoreError Unit :=
  match s.checkpoint stream with
  | some stored =>
    ensure (¬checkpoint.cursor < stored.cursor)
      (.checkpointRegression stream stored.cursor checkpoint.cursor)
  | none => .ok ()

/-- Stores `events` and moves `stream`'s checkpoint, in one transaction. -/
def writeBatch (stream : Stream) (events : List StoredEvent) (checkpoint : Checkpoint)
    (s : Store) : Except StoreError (BatchOutcome × Store) := do
  checkRegression stream checkpoint s
  let (outcome, s) ← insertEvents events ⟨0, 0⟩ s
  toid checkpoint.cursor
  ledger checkpoint.latestLedger
  .ok (outcome, { s with checkpoint := Function.update s.checkpoint stream (some checkpoint) })

/-! ## 3. The tables as a function of the events -/

end Store

/-- The raw row of an event. -/
def StoredEvent.row (st : StoredEvent) : EventRow :=
  { st.event.toEmittedEvent with
    ledger := st.event.position.ledger
    source := st.event.source
    name := Store.Decoded.name st.decoded }

/-- What the raw row of an event accepts: the signed column types and the `CHECK`s. -/
structure EmittedEvent.Storable (e : EmittedEvent) : Prop where
  toid : e.position.toid < 2 ^ 63
  eventIndex : e.position.eventIndex < 2 ^ 31
  ledger : 0 < e.position.ledger
  contract : Store.isContractStrkey e.contract = true

/-- Table by table. -/
def Tables.append (a b : Tables) : Tables where
  commitments := a.commitments ++ b.commitments
  nullifiers := a.nullifiers ++ b.nullifiers
  settlements := a.settlements ++ b.settlements
  exits := a.exits ++ b.exits
  legacyDeposits := a.legacyDeposits ++ b.legacyDeposits
  publicKeys := a.publicKeys ++ b.publicKeys
  allowlist := a.allowlist ++ b.allowlist

/-- The typed rows an event contributes. -/
def VeilEvent.rows (event : EmittedEvent) : VeilEvent → Tables
  | .newCommitment commitment index encryptedOutput =>
    { Tables.empty with
      commitments := [⟨event.position, event.contract, index, commitment, some encryptedOutput,
        .transact, event.position.ledger⟩] }
  | .newNullifier nullifier =>
    { Tables.empty with
      nullifiers := [⟨event.position, event.contract, nullifier, event.position.ledger⟩] }
  | .settlement fields =>
    { Tables.empty with settlements := [⟨event.position, fields, event.position.ledger⟩] }
  | .exit fields => { Tables.empty with exits := [⟨event.position, fields, event.position.ledger⟩] }
  | .legacyDeposit deposit =>
    { Tables.empty with
      commitments := [⟨event.position, deposit.pool, deposit.index, deposit.commitment, none,
        .legacyDeposit, event.position.ledger⟩]
      legacyDeposits := [⟨event.position, deposit.pool, deposit.index, deposit.amountBucket,
        deposit.asset, event.position.ledger⟩] }
  | .publicKey owner encryptionKey noteKey =>
    { Tables.empty with
      publicKeys := [⟨event.position, event.contract, owner, encryptionKey, noteKey,
        event.position.ledger⟩] }
  | .leafAdded leaf index root =>
    { Tables.empty with
      allowlist := [⟨event.position, event.contract, .added, leaf, some index, root,
        event.position.ledger⟩] }
  | .leafRevoked leaf root =>
    { Tables.empty with
      allowlist := [⟨event.position, event.contract, .revoked, leaf, none, root,
        event.position.ledger⟩] }

def Decoded.rows (event : EmittedEvent) : Decoded → Tables
  | .event veil => veil.rows event
  | .ignored _ => .empty

def EmittedEvent.rows (e : EmittedEvent) : Tables :=
  match e.raw.decode with
  | .ok decoded => decoded.rows e
  | .error _ => .empty

/-- The typed tables of a list of events. -/
def Tables.of (events : List EmittedEvent) : Tables where
  commitments := events.flatMap (·.rows.commitments)
  nullifiers := events.flatMap (·.rows.nullifiers)
  settlements := events.flatMap (·.rows.settlements)
  exits := events.flatMap (·.rows.exits)
  legacyDeposits := events.flatMap (·.rows.legacyDeposits)
  publicKeys := events.flatMap (·.rows.publicKeys)
  allowlist := events.flatMap (·.rows.allowlist)

theorem Tables.of_concat (events : List EmittedEvent) (e : EmittedEvent) :
    Tables.of (events ++ [e]) = (Tables.of events).append e.rows := by
  ext1 <;> exact List.flatMap_append.trans (congrArg _ (List.flatMap_singleton _ _))

/-- The events a store holds, in order of insertion. -/
def Store.stored (s : Store) : List EmittedEvent := s.events.map (·.toEmittedEvent)

/-- **The store is what the events in it make it**: each position holds one event, each event
fits its columns, and the typed tables are computed from the events. -/
structure Store.Sound (s : Store) : Prop where
  once : (s.stored.map (·.position)).Nodup
  storable : ∀ e ∈ s.stored, e.Storable
  tables : s.tables = Tables.of s.stored

theorem Store.sound_empty : Store.empty.Sound where
  once := List.nodup_nil
  storable := by simp [stored, empty]
  tables := rfl

namespace Store

/-! ## 4. What a successful write did -/

theorem insertRow_ok {α : Type} {rows rows' : List α} {row : α} :
    ∀ {unique : List (Constraint × (α → Bool))}, insertRow rows row unique = .ok rows' →
    rows' = rows ++ [row]
  | [], h => (Except.ok.inj h).symm
  | _ :: _, h => by
    obtain ⟨-, -, h⟩ := bind_eq_ok.mp h
    exact insertRow_ok h

theorem insertTyped_ok {event : EmittedEvent} {veil : VeilEvent} {t t' : Tables}
    (h : insertTyped event veil t = .ok t') : t' = t.append (veil.rows event) := by
  cases veil with
  | legacyDeposit deposit =>
    obtain ⟨rows, hrows, h⟩ := bind_eq_ok.mp h
    obtain ⟨deposits, hdeposits, h⟩ := bind_eq_ok.mp h
    rw [insertRow_ok hrows, insertRow_ok hdeposits] at h
    rw [← Except.ok.inj h]
    simp [VeilEvent.rows, Tables.append, Tables.empty]
  | leafAdded leaf index root =>
    obtain ⟨-, -, h⟩ := bind_eq_ok.mp h
    obtain ⟨rows, hrows, h⟩ := bind_eq_ok.mp h
    rw [insertRow_ok hrows] at h
    rw [← Except.ok.inj h]
    simp [VeilEvent.rows, Tables.append, Tables.empty]
  | _ =>
    obtain ⟨rows, hrows, h⟩ := bind_eq_ok.mp h
    rw [insertRow_ok hrows] at h
    rw [← Except.ok.inj h]
    simp [VeilEvent.rows, Tables.append, Tables.empty]

theorem insertDecoded_ok {st : StoredEvent} {t t' : Tables}
    (h : insertDecoded st.event.toEmittedEvent st.decoded t = .ok t') :
    t' = t.append st.event.toEmittedEvent.rows := by
  have hrows : st.event.toEmittedEvent.rows = st.decoded.rows st.event.toEmittedEvent := by
    rw [EmittedEvent.rows, st.decodes]
  rw [hrows]
  cases hd : st.decoded with
  | event veil =>
    rw [hd] at h
    exact insertTyped_ok h
  | ignored name =>
    rw [hd] at h
    rw [← Except.ok.inj h]
    simp [Decoded.rows, Tables.append, Tables.empty]

theorem checkColumns_ok {e : EmittedEvent} (h : checkColumns e = .ok ()) : e.Storable := by
  simp only [checkColumns, toid, eventIndex, ledger, bind_eq_ok, ensure_eq_ok] at h
  obtain ⟨-, h1, -, h2, -, -, -, -, -, h3, h4⟩ := h
  exact ⟨h1, h2, h3, h4⟩

variable {s s' : Store} {st : StoredEvent}

theorem mem_stored {e : EmittedEvent} : e ∈ s.stored ↔ ∃ row ∈ s.events, row.toEmittedEvent = e :=
  List.mem_map

/-- Appending an event at a free position keeps a store sound. -/
theorem Sound.append {e : EmittedEvent} (hs : s.Sound)
    (hfree : ∀ x ∈ s.stored, x.position ≠ e.position)
    (he : e.Storable) (hstored : s'.stored = s.stored ++ [e])
    (htables : s'.tables = s.tables.append e.rows) : s'.Sound where
  once := by
    rw [hstored, List.map_append, List.nodup_append]
    refine ⟨hs.once, List.nodup_singleton _, ?_⟩
    intro p hp q hq hpq
    obtain ⟨x, hx, rfl⟩ := List.mem_map.mp hp
    exact hfree x hx (hpq.trans (List.mem_singleton.mp hq))
  storable := by
    intro x hx
    rw [hstored, List.mem_append, List.mem_singleton] at hx
    rcases hx with hx | rfl
    · exact hs.storable x hx
    · exact he
  tables := by rw [htables, hs.tables, hstored, Tables.of_concat]

/-- **One event**: it was there, or it is appended at a free position with its typed rows. -/
theorem insertEvent_cases {inserted : Bool} (h : insertEvent st s = .ok (inserted, s')) :
    (inserted = false ∧ s' = s ∧ st.event.toEmittedEvent ∈ s.stored) ∨
    (inserted = true ∧ st.event.toEmittedEvent.Storable ∧
      (∀ e ∈ s.stored, e.position ≠ st.event.position) ∧
      s' = { s with
        events := s.events ++ [st.row]
        tables := s.tables.append st.event.toEmittedEvent.rows }) := by
  obtain ⟨_, hcols, h⟩ := bind_eq_ok.mp h
  cases hfound : s.events.find? fun row => row.position = st.event.position with
  | some row =>
    left
    rw [hfound] at h
    obtain ⟨_, hsame, h⟩ := bind_eq_ok.mp h
    obtain ⟨hcontract, hraw⟩ := ensure_eq_ok.mp hsame
    obtain ⟨rfl, rfl⟩ := Prod.mk.inj (Except.ok.inj h)
    have hposition : row.position = st.event.position := by simpa using List.find?_some hfound
    have hrow : row.toEmittedEvent = st.event.toEmittedEvent :=
      EmittedEvent.ext hposition hcontract hraw
    exact ⟨rfl, rfl, mem_stored.mpr ⟨row, List.mem_of_find?_eq_some hfound, hrow⟩⟩
  | none =>
    right
    rw [hfound] at h
    obtain ⟨tables, htables, h⟩ := bind_eq_ok.mp h
    obtain ⟨rfl, rfl⟩ := Prod.mk.inj (Except.ok.inj h)
    refine ⟨rfl, checkColumns_ok hcols, fun e he => ?_, by rw [insertDecoded_ok htables]; rfl⟩
    obtain ⟨row, hrow, rfl⟩ := mem_stored.mp he
    simpa using List.find?_eq_none.mp hfound row hrow

theorem stored_append {rows : List EventRow} {row : EventRow} {tables : Tables} :
    Store.stored { s with events := rows ++ [row], tables := tables } =
      rows.map (·.toEmittedEvent) ++ [row.toEmittedEvent] := List.map_append

theorem insertEvent_ok {inserted : Bool} (hs : s.Sound)
    (h : insertEvent st s = .ok (inserted, s')) :
    s'.Sound ∧ s'.checkpoint = s.checkpoint ∧
      ∀ e, e ∈ s'.stored ↔ e ∈ s.stored ∨ e = st.event.toEmittedEvent := by
  rcases insertEvent_cases h with ⟨-, rfl, hmem⟩ | ⟨-, hstorable, hfree, rfl⟩
  · refine ⟨hs, rfl, fun e => ⟨Or.inl, ?_⟩⟩
    rintro (he | rfl)
    · exact he
    · exact hmem
  · refine ⟨hs.append hfree hstorable stored_append rfl, rfl, fun e => ?_⟩
    rw [stored_append, List.mem_append, List.mem_singleton]
    rfl

/-- **A batch.** -/
theorem insertEvents_ok : ∀ {events : List StoredEvent} {o o' : BatchOutcome} {s s' : Store},
    s.Sound → insertEvents events o s = .ok (o', s') →
    s'.Sound ∧ s'.checkpoint = s.checkpoint ∧
      ∀ e, e ∈ s'.stored ↔ e ∈ s.stored ∨ e ∈ events.map (·.event.toEmittedEvent)
  | [], _, _, s, s', hs, h => by
    obtain ⟨-, rfl⟩ := Prod.mk.inj (Except.ok.inj h)
    exact ⟨hs, rfl, by simp⟩
  | st :: events, o, o', s, s', hs, h => by
    obtain ⟨⟨inserted, s1⟩, h1, h⟩ := bind_eq_ok.mp h
    obtain ⟨hs1, hc1, hm1⟩ := insertEvent_ok hs h1
    obtain ⟨hs2, hc2, hm2⟩ := insertEvents_ok hs1 h
    refine ⟨hs2, hc2.trans hc1, fun e => ?_⟩
    rw [hm2 e, hm1 e, List.map_cons, List.mem_cons, or_assoc]

/-- **A committed batch**: the store holds what it held and the batch, and only the checkpoint of
the batch's stream moved, and not back. -/
structure Written (stream : Stream) (batch : List EmittedEvent) (checkpoint : Checkpoint)
    (s s' : Store) : Prop where
  sound : s'.Sound
  stored : ∀ e, e ∈ s'.stored ↔ e ∈ s.stored ∨ e ∈ batch
  moved : s'.checkpoint = Function.update s.checkpoint stream (some checkpoint)
  forward : ∀ c, s.checkpoint stream = some c → c.cursor ≤ checkpoint.cursor

section Written

variable {stream : Stream} {batch : List EmittedEvent} {checkpoint : Checkpoint}

theorem Written.checkpoint_self (h : Written stream batch checkpoint s s') :
    s'.checkpoint stream = some checkpoint := by
  rw [h.moved, Function.update_self]

theorem Written.checkpoint_of_ne (h : Written stream batch checkpoint s s') {other : Stream}
    (hother : other ≠ stream) : s'.checkpoint other = s.checkpoint other := by
  rw [h.moved, Function.update_of_ne hother]

end Written

/-- The steps of a batch that committed. -/
theorem writeBatch_parts {stream : Stream} {events : List StoredEvent} {checkpoint : Checkpoint}
    {o : BatchOutcome} (h : writeBatch stream events checkpoint s = .ok (o, s')) :
    (∀ c, s.checkpoint stream = some c → c.cursor ≤ checkpoint.cursor) ∧
      ∃ o' s1, insertEvents events ⟨0, 0⟩ s = .ok (o', s1) ∧
        s' = { s1 with checkpoint := Function.update s1.checkpoint stream (some checkpoint) } := by
  obtain ⟨_, hreg, h⟩ := bind_eq_ok.mp h
  obtain ⟨⟨o1, s1⟩, h1, h⟩ := bind_eq_ok.mp h
  obtain ⟨-, -, h⟩ := bind_eq_ok.mp h
  obtain ⟨-, -, h⟩ := bind_eq_ok.mp h
  obtain ⟨-, rfl⟩ := Prod.mk.inj (Except.ok.inj h)
  refine ⟨fun c hc => ?_, o1, s1, h1, rfl⟩
  simp only [checkRegression, hc, ensure_eq_ok, not_lt] at hreg
  exact hreg

theorem writeBatch_ok {stream : Stream} {events : List StoredEvent} {checkpoint : Checkpoint}
    {o : BatchOutcome} (hs : s.Sound) (h : writeBatch stream events checkpoint s = .ok (o, s')) :
    Written stream (events.map (·.event.toEmittedEvent)) checkpoint s s' := by
  obtain ⟨hforward, o1, s1, h1, rfl⟩ := writeBatch_parts h
  obtain ⟨hs1, hc1, hm1⟩ := insertEvents_ok hs h1
  exact ⟨⟨hs1.once, hs1.storable, hs1.tables⟩, hm1, by rw [hc1], hforward⟩

end Store

end Veil
