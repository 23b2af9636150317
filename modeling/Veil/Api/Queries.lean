/-
# The API's queries

`services/api/src/queries.rs`, and the two handlers of `routes.rs` that serve the pool's tree.  The
API reads the index's tables and `verified_state`, which the indexer writes after a verification,
in one snapshot.

`pool_state` and `pool_path` recompute the tree from every stored commitment of the pool.  The depth
is the one recorded in `verified_state`; without it there is no answer.
-/
import Veil.Indexer.Verify

namespace Veil

open Tx Unsigned

/-- A row of `verified_state`. -/
structure VerifiedState where
  ledger : Nat
  levels : Nat
  nextIndex : Nat
  root : Nat
  operatorMaintained : Bool
  «matches» : Bool
  deriving DecidableEq, Repr

/-- The tables the API reads. -/
structure Database where
  index : Store
  verifiedState : Address → Option VerifiedState

namespace Api

inductive ApiError where
  | badRequest (message : String)
  | notFound (message : String)
  /-- The request is valid but the data cannot answer it. -/
  | conflict (message : String)
  /-- The index is not ready to answer yet. -/
  | unavailable (message : String)
  | internal (error : Tree.TreeError)
  /-- An internal error of the handler itself. -/
  | inconsistent (message : String)
  deriving DecidableEq, Repr

/-- `0x` and the bytes in hexadecimal. -/
def hex (bytes : List UInt8) : String :=
  String.ofList ('0' :: 'x' :: bytes.flatMap fun byte => Digits.hexDigits 2 byte.toNat)

/-- The RPC checkpoint: last complete ledger and latest ledger. -/
def checkpoint (db : Database) : Option (Nat × Nat) :=
  match db.index.checkpoint .rpc with
  | none => none
  | some row =>
    let cursorLedger := row.cursor.toid / 2 ^ 32
    -- a cursor inside a ledger covers only the ledgers before it
    let complete := if row.cursor.eventIndex = u32Max then cursorLedger else cursorLedger - 1
    some (complete, row.latestLedger)

def indexedLedger (db : Database) : Option Nat := (checkpoint db).map Prod.fst

/-- What the contract held at the last verification, as the API shows it. -/
structure OnChain where
  ledger : Nat
  levels : Nat
  nextIndex : Nat
  root : String
  «matches» : Bool
  deriving DecidableEq, Repr

def onChain (db : Database) (contract : Address) : Option (OnChain × Bool) :=
  (db.verifiedState contract).map fun row =>
    (⟨row.ledger, row.levels, row.nextIndex, Verify.displayU256 row.root, row.matches⟩,
      row.operatorMaintained)

/-- The tree depth the indexer read from `contract`, needed for any root. -/
def levels (db : Database) (contract : Address) : Except ApiError Nat :=
  okOr ((onChain db contract).map (·.1.levels)) (.unavailable
    "the indexer has not verified this contract yet, so its tree depth is unknown")

/-- One leaf of the pool tree with its origin and ledger. -/
structure PoolLeaf where
  index : Nat
  value : Nat
  origin : String
  ledger : Nat
  deriving DecidableEq, Repr

/-- The leaves of one row: a deposit also filled the next index, with zero. -/
def rowLeaves (row : CommitmentRow) : List PoolLeaf :=
  if row.origin = .legacyDeposit then
    [⟨row.leafIndex, row.commitment, "legacy_deposit", row.ledger⟩,
     ⟨row.leafIndex + 1, 0, "legacy_deposit_zero", row.ledger⟩]
  else [⟨row.leafIndex, row.commitment, "transact", row.ledger⟩]

/-- `i64::MAX`, where an index or a limit beyond it is cut. -/
def i64Max : Nat := 2 ^ 63 - 1

/-- Pool leaves with `first ≤ index`, in order, at most `limit`.  A deposit at index `i` also
filled `i + 1`, so the query starts one row earlier. -/
def poolLeaves (db : Database) (pool : Address) (first : Nat) (limit : Option Nat) :
    List PoolLeaf :=
  let start := min (first - 1) i64Max
  let rows := ((db.index.tables.commitments.filter fun r =>
      r.pool = pool ∧ r.leafIndex ≥ start).insertionSort fun r t => r.leafIndex ≤ t.leafIndex).take
    (limit.elim i64Max fun limit => min (limit + 1) i64Max)
  let leaves := (rows.flatMap rowLeaves).filter fun leaf => leaf.index ≥ first
  limit.elim leaves leaves.take

def asTree : List PoolLeaf → Except ApiError (List (Nat × F))
  | [] => .ok []
  | leaf :: leaves => do
    let field ← (Tree.fromU256 leaf.value).mapError .internal
    let rest ← asTree leaves
    .ok ((leaf.index, field) :: rest)

/-- Notes of `transact` commitments with `first ≤ index`, in order: index, commitment, note and
ledger. -/
def notes (db : Database) (pool : Address) (first limit : Nat) :
    List (Nat × Nat × List UInt8 × Nat) :=
  let rows := ((db.index.tables.commitments.filter fun r =>
      r.pool = pool ∧ r.origin = .transact ∧ r.leafIndex ≥ min first i64Max).insertionSort
    fun r t => r.leafIndex ≤ t.leafIndex).take (min limit i64Max)
  rows.map fun r => (r.leafIndex, r.commitment, r.encryptedOutput.getD [], r.ledger)

/-- `(toid, event_index) > ($2, $3)`, where a TOID beyond the column's type is cut. -/
def isAfter (after : Option EventPosition) (position : EventPosition) : Bool :=
  after.all fun p =>
    min p.toid i64Max < position.toid ∨
      min p.toid i64Max = position.toid ∧ p.eventIndex < position.eventIndex

/-- Allowlist changes after `after`, in order, at most `limit`. -/
def allowlist (db : Database) (allowlist : Address) (after : Option EventPosition)
    (limit : Option Nat) : List AllowlistRow :=
  ((db.index.tables.allowlist.filter fun r =>
      r.allowlist = allowlist ∧ isAfter after r.position).insertionSort
    fun r t => r.position ≤ t.position).take (limit.elim i64Max fun limit => min limit i64Max)

structure PoolState where
  contract : Address
  levels : Nat
  nextIndex : Nat
  root : String
  indexedLedger : Option Nat
  onChain : Option OnChain
  deriving DecidableEq, Repr

/-- `GET /v1/pool`. -/
def poolState (db : Database) (pool : Address) : Except ApiError PoolState := do
  let levels ← levels db pool
  let leaves := poolLeaves db pool 0 none
  let tree ← asTree leaves
  let computed ← (Tree.root levels tree).mapError .internal
  .ok { contract := pool
        levels := levels
        nextIndex := leaves.getLast?.elim 0 fun leaf => leaf.index + 1
        root := Verify.displayU256 computed.val
        indexedLedger := indexedLedger db
        onChain := (onChain db pool).map Prod.fst }

/-- A Merkle proof in the form the circuit takes it. -/
structure MerklePath where
  leafIndex : Nat
  leaf : String
  pathElements : List String
  pathIndices : Nat
  root : String
  indexedLedger : Option Nat
  deriving DecidableEq, Repr

def merklePath (proof : Tree.MerklePath) (indexedLedger : Option Nat) : MerklePath where
  leafIndex := proof.index
  leaf := Verify.displayU256 proof.leaf.val
  pathElements := proof.siblings.map fun sibling => Verify.displayU256 sibling.val
  pathIndices := proof.index
  root := Verify.displayU256 proof.root.val
  indexedLedger := indexedLedger

/-- `GET /v1/pool/leaves/{leaf_index}/path`. -/
def poolPath (db : Database) (pool : Address) (leafIndex : Nat) : Except ApiError MerklePath := do
  let levels ← levels db pool
  let leaves := poolLeaves db pool 0 none
  let tree ← asTree leaves
  let found ← (Tree.path levels tree leafIndex).mapError .internal
  let proof ← okOr found (.notFound s!"no leaf at index {leafIndex}")
  .ok (merklePath proof (indexedLedger db))

/-- **Both computations of the last complete ledger agree.** -/
theorem checkpoint_fst {db : Database} {complete latest : Nat}
    (h : checkpoint db = some (complete, latest)) : complete = Verify.indexedLedger db.index := by
  unfold checkpoint at h
  unfold Verify.indexedLedger
  cases hc : db.index.checkpoint .rpc with
  | none =>
    rw [hc] at h
    cases h
  | some row =>
    rw [hc] at h
    exact (Prod.mk.inj (Option.some.inj h)).1.symm

end Api

end Veil
