/-
# Checking the index against the chain

`services/indexer/src/verify.rs`, and the state readers of `chain.rs`.  `check_pool` rebuilds the
pool's tree from the stored commitments; `check_allowlist` replays the stored allowlist events.
Each returns a list of comparisons, and verification passes when all of them agree.

A comparison is of texts: a truth value, a decimal number, or the 64 hexadecimal digits of a
256-bit value.  Section 3 shows that equal texts mean equal values, so that the rest can speak
of values.

The rows come from one query each.  A stored index is a `bigint`, so adding one to it cannot
saturate 64 bits, and a stored 256-bit value has its 32 bytes by the column's check.
-/
import Mathlib.Data.List.Sort
import Veil.Contract.AspMembership
import Veil.Indexer.Ingest
import Veil.Indexer.Tree

namespace Veil

open Tx Unsigned

/-- The pool's tree as stored on chain. -/
structure PoolTree where
  ledger : Nat
  levels : Nat
  nextIndex : Nat
  root : Nat
  deriving DecidableEq, Repr

/-- The allowlist's tree as stored on chain. -/
structure AllowlistTree where
  ledger : Nat
  levels : Nat
  nextIndex : Nat
  root : Nat
  operatorMaintained : Bool
  deriving DecidableEq, Repr

/-- Why a contract's entries could not be read. -/
inductive ChainError where
  | rpc (error : RpcError)
  | contract (id : String)
  | key (reason : String)
  | entry (reason : String)
  | missing (contract : Address) (key : String)
  | type (contract : Address) (key expected found : String)
  deriving DecidableEq, Repr

namespace Chain

/-- How many roots the pool keeps. -/
def poolRootHistory : Nat := 90

/-- `pool_tree` on the entries as of `ledger`.  Of the roots, the first `poolRootHistory` are asked
for. -/
def poolTree (pool : Address) (ledger : Nat) (s : PoolStorage) : Except ChainError PoolTree := do
  let levels ← okOr s.tree.levels (.missing pool "Levels")
  let nextIndex ← okOr s.tree.nextIndex (.missing pool "NextIndex")
  let current ← okOr s.tree.currentRootIndex (.missing pool "CurrentRootIndex")
  let found := if current < poolRootHistory then s.tree.root current else none
  let root ← okOr found (.missing pool s!"Root({current})")
  .ok ⟨ledger, levels, nextIndex, root⟩

/-- `allowlist_tree` on the entries as of `ledger`. -/
def allowlistTree (allowlist : Address) (ledger : Nat) (s : AspState) :
    Except ChainError AllowlistTree := do
  let operatorMaintained := s.operatorMaintained.getD false
  let levels ← okOr s.levels (.missing allowlist "Levels")
  let nextIndex ← okOr s.nextIndex (.missing allowlist "NextIndex")
  let root ← okOr s.root (.missing allowlist "Root")
  .ok ⟨ledger, levels, nextIndex, root, operatorMaintained⟩

end Chain

namespace Verify

open Digits (hexDigits hexDigits_inj)

/-! ## 1. Comparisons -/

/-- One comparison between the index and the chain. -/
structure Check where
  name : String
  indexed : String
  onChain : String
  deriving DecidableEq, Repr

def Check.ok (c : Check) : Bool := c.indexed = c.onChain

/-- `0x` and the 32 bytes in hexadecimal. -/
def displayU256 (value : Nat) : String := String.ofList ('0' :: 'x' :: hexDigits 64 value)

def checkBool (name : String) (indexed onChain : Bool) : Check :=
  ⟨name, toString indexed, toString onChain⟩

def checkNat (name : String) (indexed onChain : Nat) : Check :=
  ⟨name, toString indexed, toString onChain⟩

def checkU256 (name : String) (indexed onChain : Nat) : Check :=
  ⟨name, displayU256 indexed, displayU256 onChain⟩

/-! ## 2. The checks -/

/-- The last ledger the index holds completely.  A cursor inside a ledger covers only the ledgers
before it. -/
def indexedLedger (s : Store) : Nat :=
  match s.checkpoint .rpc with
  | none => 0
  | some checkpoint =>
    if checkpoint.cursor.eventIndex = u32Max then checkpoint.cursor.ledger
    else checkpoint.cursor.ledger - 1

/-- The rows `check_pool` selects, ordered by index. -/
def poolRows (rows : List CommitmentRow) (pool : Address) (ledger : Nat) : List CommitmentRow :=
  (rows.filter fun r => r.pool = pool ∧ r.ledger ≤ ledger).insertionSort
    fun r t => r.leafIndex ≤ t.leafIndex

/-- The leaves of one row: a deposit also filled the next index, with zero. -/
def rowLeaves (row : CommitmentRow) : Except Tree.TreeError (List (Nat × F)) := do
  let leaf ← Tree.fromU256 row.commitment
  .ok (if row.origin = .legacyDeposit then [(row.leafIndex, leaf), (row.leafIndex + 1, 0)]
    else [(row.leafIndex, leaf)])

/-- The loop over the rows. -/
def poolLeaves : List CommitmentRow → Except Tree.TreeError (List (Nat × F))
  | [] => .ok []
  | row :: rows => do
    let leaves ← rowLeaves row
    let rest ← poolLeaves rows
    .ok (leaves ++ rest)

/-- One more than the largest index. -/
def nextIndex (leaves : List (Nat × F)) : Nat := (leaves.map fun l => l.1 + 1).foldl max 0

/-- The sorted indices are `0, 1, ..`. -/
def contiguous (leaves : List (Nat × F)) : Bool :=
  (((leaves.map Prod.fst).insertionSort (· ≤ ·)).zipIdx.all fun p => p.1 == p.2)

def checkPool (rows : List CommitmentRow) (pool : Address) (state : PoolTree) :
    Except Tree.TreeError (List Check) := do
  let leaves ← poolLeaves (poolRows rows pool state.ledger)
  let computed ← Tree.root state.levels leaves
  .ok [checkBool "pool: tree positions 0..n all filled" (contiguous leaves) true,
       checkNat "pool: next index" (nextIndex leaves) state.nextIndex,
       checkU256 "pool: root" computed.val state.root]

/-- The rows `check_allowlist` selects, in event order. -/
def allowlistRows (rows : List AllowlistRow) (allowlist : Address) (ledger : Nat) :
    List AllowlistRow :=
  (rows.filter fun r => r.allowlist = allowlist ∧ r.ledger ≤ ledger).insertionSort
    fun r t => r.position ≤ t.position

/-- The variables of the replay loop. -/
structure Replay where
  tree : Tree.IncrementalTree
  replayed : Nat
  emittedRootsMatch : Bool
  handedToOperator : Bool
  latestRoot : Nat

/-- The part of a round that is skipped once the operator has the tree. -/
def Replay.push (r : Replay) (row : AllowlistRow) : Except Tree.TreeError Replay := do
  let leaf ← Tree.fromU256 row.leaf
  let tree ← r.tree.push leaf
  .ok { r with
    tree := tree
    replayed := r.replayed + 1
    emittedRootsMatch := r.emittedRootsMatch && decide (row.leafIndex = some r.tree.nextIndex) &&
      decide (tree.root.val = row.root) }

/-- One round of the replay loop. -/
def Replay.row (r : Replay) (row : AllowlistRow) : Except Tree.TreeError Replay :=
  let handed := r.handedToOperator || decide (row.kind = .revoked)
  let r := { r with latestRoot := row.root, handedToOperator := handed }
  if handed then .ok r else r.push row

def Replay.rows : List AllowlistRow → Replay → Except Tree.TreeError Replay
  | [], r => .ok r
  | row :: rows, r => do
    let r ← r.row row
    Replay.rows rows r

def Replay.checks (r : Replay) (state : AllowlistTree) : List Check :=
  [checkBool "allowlist: every root emitted before a revocation recomputes" r.emittedRootsMatch
     true,
   checkBool "allowlist: operator-maintained" r.handedToOperator state.operatorMaintained,
   checkU256 "allowlist: latest emitted root" r.latestRoot state.root] ++
  if r.handedToOperator then []
  else [checkU256 "allowlist: recomputed root" r.tree.root.val state.root,
        checkNat "allowlist: next index" r.replayed state.nextIndex]

def checkAllowlist (rows : List AllowlistRow) (allowlist : Address) (state : AllowlistTree) :
    Except Tree.TreeError (List Check) := do
  let tree ← Tree.IncrementalTree.new state.levels
  let r ← Replay.rows (allowlistRows rows allowlist state.ledger)
    { tree := tree, replayed := 0, emittedRootsMatch := true, handedToOperator := false
      latestRoot := tree.root.val }
  .ok (r.checks state)

/-! ## 3. Equal texts are equal values -/

theorem checkBool_ok {name : String} {a b : Bool} : (checkBool name a b).ok = true ↔ a = b := by
  cases a <;> cases b <;> simp [checkBool, Check.ok, toString]

theorem checkNat_ok {name : String} {a b : Nat} : (checkNat name a b).ok = true ↔ a = b := by
  rw [Check.ok, checkNat, decide_eq_true_iff]
  exact Nat.repr_inj

theorem checkU256_ok {name : String} {a b : Nat} (ha : a < 2 ^ 256) (hb : b < 2 ^ 256) :
    (checkU256 name a b).ok = true ↔ a = b := by
  have hpow : (2 : Nat) ^ 256 = 16 ^ 64 := by norm_num
  rw [hpow] at ha hb
  rw [Check.ok, checkU256, decide_eq_true_iff]
  constructor
  · intro h
    have hlist := String.ofList_injective h
    exact hexDigits_inj ha hb (List.cons_inj_right _ |>.mp (List.cons_inj_right _ |>.mp hlist))
  · rintro rfl
    rfl

end Verify

end Veil
