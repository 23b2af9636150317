/-
# A verification beside running indexers

`services/indexer/src/verify.rs`: `verify` reads both contracts' trees, waits until the index has
come to the ledger they were read at, and only then reads the tables; `record` writes what it found
into `verified_state`, where the API reads the depth of the trees from.

Meanwhile the indexers go on.  Each query of `verify` meets another store, events of later ledgers
keep coming in, and when a connection drops the RPC checkpoint may even move back behind the ledger
`verify` has waited for.  None of this makes it report a mismatch: what was once complete stays
complete (`complete_later`), and the checks look at nothing else.  A request that fails ends the
verification with an error of its own, and so never with a mismatch either.

* Section 1 is `verify` with what its requests come to, and `record`; `Faults` are the requests that
  fail.
* Section 2 has the checks pass on every store that is complete up to the ledger.
* Section 3 follows `verify` through a run of any number of indexers.
-/
import Veil.Api.PastStates
import Veil.Indexer.NoFalseAlarm

namespace Veil

open Tx

namespace Verify

/-! ## 1. The run of a verification -/

/-- Why a query has no answer or a write no confirmation, in the words of the database driver. -/
structure SqlxError where
  text : String
  deriving DecidableEq, Repr

inductive VerifyError where
  | chain (error : ChainError)
  /-- The checkpoint could not be read. -/
  | store (error : SqlxError)
  | database (error : SqlxError)
  | tree (error : Tree.TreeError)
  | behind (indexed state : Nat)
  | malformed (what value : String)
  deriving DecidableEq, Repr

def VerifyError.message : VerifyError → Option String
  | .store error => some s!"database: {error.text}"
  | .database error => some error.text
  | .behind indexed state =>
    some (s!"the index has reached ledger {indexed}, but the state was read at {state}: " ++
      "the indexer is behind")
  | .malformed what value => some s!"stored {what} {value} is malformed"
  -- the text of the error it wraps
  | .chain _ | .tree _ => none

/-- `CARGO_PKG_VERSION`. -/
def indexerVersion : String := "0.1.0"

/-- What a reviewer needs to read the report on its own.  The events are counted by contract and
source. -/
structure Evidence where
  networkPassphrase : String
  pool : Address
  allowlist : Address
  indexerVersion : String
  eventsBySource : Address → Source → Nat
  poolCommitmentRows : Nat
  poolLegacyZeroPositions : Nat

/-- The evidence from what the three requests came to. -/
def evidenceOf (c : Contracts) (ledger : Nat) (networkPassphrase : String)
    (atEvents atRows : Store) : Evidence where
  networkPassphrase := networkPassphrase
  pool := c.pool
  allowlist := c.allowlist
  indexerVersion := indexerVersion
  eventsBySource contract source := (atEvents.events.filter fun r => r.ledger ≤ ledger ∧
    (r.contract = c.pool ∨ r.contract = c.allowlist) ∧
    r.contract = contract ∧ r.source = source).length
  poolCommitmentRows := (atRows.tables.commitments.filter fun r =>
    r.pool = c.pool ∧ r.ledger ≤ ledger).length
  poolLegacyZeroPositions := (atRows.tables.commitments.filter fun r =>
    (r.pool = c.pool ∧ r.ledger ≤ ledger) ∧ r.origin = .legacyDeposit).length

/-- `evidence`: the network's passphrase, and the stores the two counts meet. -/
def evidence (c : Contracts) (ledger : Nat) (network : Except RpcError String)
    (atEvents atRows : Except SqlxError Store) : Except VerifyError Evidence := do
  let networkPassphrase ← network.mapError fun error => .chain (.rpc error)
  let atEvents ← atEvents.mapError .database
  let atRows ← atRows.mapError .database
  .ok (evidenceOf c ledger networkPassphrase atEvents atRows)

structure Report where
  poolLedger : Nat
  allowlistLedger : Nat
  pool : PoolTree
  allowlist : AllowlistTree
  checks : List Check
  evidence : Evidence

def Report.ok (r : Report) : Bool := r.checks.all Check.ok

/-- Whether the checks of one contract passed. -/
def Report.matches (r : Report) (start : String) : Bool :=
  (r.checks.filter fun check => check.name.startsWith start).all Check.ok

/-- **What the requests of a verification come to**, in the order they are made.  A query that is
answered meets the index as it is at that moment. -/
structure Replies where
  poolTree : Except ChainError PoolTree
  allowlistTree : Except ChainError AllowlistTree
  /-- The readings of the checkpoint, while `verify` waits. -/
  reading : Nat → Except SqlxError Store
  /-- How many there can be after the first one, before the time is over. -/
  polls : Nat
  atPool : Except SqlxError Store
  atAllowlist : Except SqlxError Store
  network : Except RpcError String
  atEvents : Except SqlxError Store
  atRows : Except SqlxError Store

/-- The wait, from reading `i` on and with `more` readings after it. -/
def awaitIndex (newest : Nat) (reading : Nat → Except SqlxError Store) :
    (i more : Nat) → Except VerifyError Unit
  | i, 0 => do
    let s ← (reading i).mapError .store
    ensure (newest ≤ indexedLedger s) (.behind (indexedLedger s) newest)
  | i, more + 1 => do
    let s ← (reading i).mapError .store
    if newest ≤ indexedLedger s then .ok () else awaitIndex newest reading (i + 1) more

/-- `verify`. -/
def verify (c : Contracts) (r : Replies) : Except VerifyError Report := do
  let pool ← r.poolTree.mapError .chain
  let allowlist ← r.allowlistTree.mapError .chain
  awaitIndex (max pool.ledger allowlist.ledger) r.reading 0 r.polls
  let atPool ← r.atPool.mapError .database
  let checks ← (checkPool atPool.tables.commitments c.pool pool).mapError .tree
  let atAllowlist ← r.atAllowlist.mapError .database
  let more ← (checkAllowlist atAllowlist.tables.allowlist c.allowlist allowlist).mapError .tree
  let evidence ← evidence c pool.ledger r.network r.atEvents r.atRows
  .ok ⟨pool.ledger, allowlist.ledger, pool, allowlist, checks ++ more, evidence⟩

/-- The rows of `verified_state` that `record` writes. -/
def Report.rows (r : Report) (c : Contracts) : List (Address × VerifiedState) :=
  [(c.pool, ⟨r.pool.ledger, r.pool.levels, r.pool.nextIndex, r.pool.root, false,
    r.matches "pool:"⟩),
  (c.allowlist, ⟨r.allowlist.ledger, r.allowlist.levels, r.allowlist.nextIndex, r.allowlist.root,
    r.allowlist.operatorMaintained, r.matches "allowlist:"⟩)]

/-- What becomes of a write.  One that fails may have been applied all the same, if the connection
broke after it. -/
inductive Write where
  | done
  | failed (error : SqlxError) (applied : Bool)
  deriving DecidableEq, Repr

/-- The loop of `record`: each row is written over the contract's last one, and they are not in one
transaction. -/
def recordRows : List (Address × VerifiedState) → (writes : Nat → Write) →
    (Address → Option VerifiedState) → Except VerifyError Unit × (Address → Option VerifiedState)
  | [], _, verified => (.ok (), verified)
  | (contract, row) :: rows, writes, verified =>
    if row.nextIndex < 2 ^ 63 then
      match writes 0 with
      | .done =>
        recordRows rows (fun i => writes (i + 1)) (Function.update verified contract (some row))
      | .failed error true =>
        (.error (.database error), Function.update verified contract (some row))
      | .failed error false => (.error (.database error), verified)
    else (.error (.malformed "next index" (toString row.nextIndex)), verified)

def Report.record (r : Report) (c : Contracts) (writes : Nat → Write)
    (verified : Address → Option VerifiedState) :
    Except VerifyError Unit × (Address → Option VerifiedState) :=
  recordRows (r.rows c) writes verified

/-- **What `record` leaves in `verified_state`**: both contracts' trees, as matching, and every
other row as it was. -/
structure Records (r : Report) (c : Contracts) (verified table : Address → Option VerifiedState) :
    Prop where
  pool : table c.pool =
    some ⟨r.pool.ledger, r.pool.levels, r.pool.nextIndex, r.pool.root, false, true⟩
  allowlist : table c.allowlist = some ⟨r.allowlist.ledger, r.allowlist.levels,
    r.allowlist.nextIndex, r.allowlist.root, r.allowlist.operatorMaintained, true⟩
  others : ∀ contract, contract ≠ c.pool → contract ≠ c.allowlist →
    table contract = verified contract

section Record

variable {r : Report} {c : Contracts}

theorem Report.ok_append {checks more : List Check} (hchecks : ∀ check ∈ checks, check.ok = true)
    (hmore : ∀ check ∈ more, check.ok = true) (a b : Nat) (pool : PoolTree)
    (allowlist : AllowlistTree) (evidence : Evidence) :
    (Report.mk a b pool allowlist (checks ++ more) evidence).ok = true := by
  refine List.all_eq_true.mpr fun check hcheck => ?_
  rcases List.mem_append.mp hcheck with hcheck | hcheck
  · exact hchecks check hcheck
  · exact hmore check hcheck

theorem recordRows_done {contract : Address} {row : VerifiedState}
    {rows : List (Address × VerifiedState)} {writes : Nat → Write}
    {verified : Address → Option VerifiedState} (hsmall : row.nextIndex < 2 ^ 63)
    (hdone : writes 0 = .done) : recordRows ((contract, row) :: rows) writes verified =
      recordRows rows (fun i => writes (i + 1)) (Function.update verified contract (some row)) := by
  rw [recordRows, if_pos hsmall, hdone]

theorem Report.matches_of_ok {r : Report} (h : r.ok = true) (start : String) :
    r.matches start = true := by
  refine List.all_eq_true.mpr fun check hcheck => ?_
  exact List.all_eq_true.mp h check (List.mem_filter.mp hcheck).1

section Matching

variable (hok : r.ok = true) (hdistinct : c.pool ≠ c.allowlist) (hpool : r.pool.nextIndex < 2 ^ 63)
  (hallowlist : r.allowlist.nextIndex < 2 ^ 63) {writes : Nat → Write}
  (hwrites : ∀ i, writes i = .done) (verified : Address → Option VerifiedState)

include hok hdistinct hpool hallowlist hwrites

/-- **A report without a mismatch is recorded as one**, if both writes are done. -/
theorem Report.record_of_ok :
    ∃ table, r.record c writes verified = (.ok (), table) ∧ Records r c verified table := by
  rw [Report.record, Report.rows, recordRows_done hpool (hwrites 0),
    recordRows_done hallowlist (hwrites 1), recordRows, matches_of_ok hok, matches_of_ok hok]
  refine ⟨_, rfl, ?_, Function.update_self .., fun contract hp ha => ?_⟩
  · rw [Function.update_of_ne hdistinct, Function.update_self]
  · rw [Function.update_of_ne ha, Function.update_of_ne hp]

/-- The API knows both depths from what was recorded. -/
theorem Report.levels_of_record : ∃ table, r.record c writes verified = (.ok (), table) ∧
    Records r c verified table ∧ ∀ index, Api.levels ⟨index, table⟩ c.pool = .ok r.pool.levels ∧
      Api.levels ⟨index, table⟩ c.allowlist = .ok r.allowlist.levels := by
  obtain ⟨table, hrecord, hrecords⟩ := record_of_ok hok hdistinct hpool hallowlist hwrites verified
  refine ⟨table, hrecord, hrecords, fun index => ⟨?_, ?_⟩⟩
  · have hrow : (Database.mk index table).verifiedState c.pool = _ := hrecords.pool
    exact Api.levels_of_verified hrow
  · have hrow : (Database.mk index table).verifiedState c.allowlist = _ := hrecords.allowlist
    exact Api.levels_of_verified hrow

end Matching

end Record

/-! ### Requests that fail -/

/-- What a request comes to that has `result`, unless it fails. -/
def reply {ε α : Type} (fault : Option ε) (result : Except ε α) : Except ε α :=
  fault.elim result .error

theorem reply_eq_ok {ε α : Type} {fault : Option ε} {result : Except ε α} {a : α}
    (h : reply fault result = .ok a) : result = .ok a := by
  cases fault with
  | none => exact h
  | some e => cases h

/-- A request about what is there fails with its own error only. -/
theorem fails_reply {ε α : Type} {P : ε → Prop} {fault : Option ε} {result : Except ε α} {a : α}
    (hresult : result = .ok a) (h : ∀ e, fault = some e → P e) : Fails P (reply fault result) := by
  subst hresult
  cases fault with
  | none => exact Fails.ok a
  | some e => exact Fails.error (h e rfl)

/-- **Which requests of a verification fail**, and how. -/
structure Faults where
  poolTree : Option ChainError
  allowlistTree : Option ChainError
  reading : Nat → Option SqlxError
  atPool : Option SqlxError
  atAllowlist : Option SqlxError
  network : Option RpcError
  atEvents : Option SqlxError
  atRows : Option SqlxError

/-- The replies about trees that can be read and an index that is met at one moment after the
other. -/
def Faults.replies (f : Faults) (poolTree : Except ChainError PoolTree)
    (allowlistTree : Except ChainError AllowlistTree) (passphrase : String) (stores : Nat → Store)
    (polls : Nat) : Replies where
  poolTree := reply f.poolTree poolTree
  allowlistTree := reply f.allowlistTree allowlistTree
  reading i := reply (f.reading i) (.ok (stores i))
  polls := polls
  atPool := reply f.atPool (.ok (stores (polls + 1)))
  atAllowlist := reply f.atAllowlist (.ok (stores (polls + 2)))
  network := reply f.network (.ok passphrase)
  atEvents := reply f.atEvents (.ok (stores (polls + 3)))
  atRows := reply f.atRows (.ok (stores (polls + 4)))

/-- **The error is that of a request that failed.** -/
inductive Faults.Raises (f : Faults) (polls : Nat) : VerifyError → Prop where
  | poolTree {e : ChainError} : f.poolTree = some e → f.Raises polls (.chain e)
  | allowlistTree {e : ChainError} : f.allowlistTree = some e → f.Raises polls (.chain e)
  | reading {i : Nat} {e : SqlxError} : i ≤ polls → f.reading i = some e →
      f.Raises polls (.store e)
  | atPool {e : SqlxError} : f.atPool = some e → f.Raises polls (.database e)
  | atAllowlist {e : SqlxError} : f.atAllowlist = some e → f.Raises polls (.database e)
  | network {e : RpcError} : f.network = some e → f.Raises polls (.chain (.rpc e))
  | atEvents {e : SqlxError} : f.atEvents = some e → f.Raises polls (.database e)
  | atRows {e : SqlxError} : f.atRows = some e → f.Raises polls (.database e)

/-- No request fails. -/
def Faults.none : Faults := ⟨.none, .none, fun _ => .none, .none, .none, .none, .none, .none⟩

theorem Faults.not_raises_none {polls : Nat} {error : VerifyError} :
    ¬Faults.none.Raises polls error := by
  intro h
  cases h <;> contradiction

section Outcomes

variable {f : Faults} {stores : Nat → Store} {newest polls : Nat}

/-- **A wait that ends well** has met an index that has come to the ledger. -/
theorem awaitIndex_ok {reading : Nat → Except SqlxError Store}
    (hreading : ∀ i s, reading i = .ok s → s = stores i) : ∀ {more i : Nat},
    awaitIndex newest reading i more = .ok () →
      ∃ j ≤ i + more, newest ≤ indexedLedger (stores j)
  | 0, i, h => by
    obtain ⟨s, hs, h⟩ := bind_eq_ok.mp h
    obtain rfl := hreading i s (mapError_eq_ok.mp hs)
    exact ⟨i, le_rfl, ensure_eq_ok.mp h⟩
  | more + 1, i, h => by
    obtain ⟨s, hs, h⟩ := bind_eq_ok.mp h
    obtain rfl := hreading i s (mapError_eq_ok.mp hs)
    split at h
    · next hreached => exact ⟨i, Nat.le_add_right .., hreached⟩
    · obtain ⟨j, hj, hreached⟩ := awaitIndex_ok hreading h
      exact ⟨j, by omega, hreached⟩

/-- **A wait that ends with an error**: a reading failed, or none had come to the ledger. -/
theorem fails_awaitIndex : ∀ {more i : Nat}, i + more = polls →
    (∀ j < i, indexedLedger (stores j) < newest) →
    Fails (fun error => f.Raises polls error ∨ (∀ j ≤ polls, indexedLedger (stores j) < newest) ∧
      error = .behind (indexedLedger (stores polls)) newest)
      (awaitIndex newest (fun i => reply (f.reading i) (.ok (stores i))) i more)
  | 0, i, hi, hbefore => by
    obtain rfl : i = polls := hi
    refine Fails.bind (.mapError (fails_reply rfl fun e he => .inl (.reading le_rfl he)))
      fun s hs => ?_
    obtain rfl := Except.ok.inj (reply_eq_ok (mapError_eq_ok.mp hs))
    intro error herror
    obtain ⟨hless, rfl⟩ := ensure_eq_error.mp herror
    refine .inr ⟨fun j hj => ?_, rfl⟩
    rcases Nat.lt_or_eq_of_le hj with hlt | rfl
    · exact hbefore j hlt
    · exact not_le.mp hless
  | more + 1, i, hi, hbefore => by
    refine Fails.bind (.mapError (fails_reply rfl fun e he => .inl (.reading (by omega) he)))
      fun s hs => ?_
    obtain rfl := Except.ok.inj (reply_eq_ok (mapError_eq_ok.mp hs))
    split
    · exact Fails.ok ()
    · next hless =>
      refine fails_awaitIndex (by omega) fun j hj => ?_
      rcases Nat.lt_or_eq_of_le (Nat.le_of_lt_succ hj) with hlt | rfl
      · exact hbefore j hlt
      · exact not_le.mp hless

variable {c : Contracts} {poolTree : Except ChainError PoolTree}
  {allowlistTree : Except ChainError AllowlistTree} {passphrase : String}

/-- **What a report says**, and that the wait has ended well. -/
theorem verify_ok {report : Report}
    (h : verify c (f.replies poolTree allowlistTree passphrase stores polls) = .ok report) :
    (∃ j ≤ polls, max report.pool.ledger report.allowlist.ledger ≤ indexedLedger (stores j)) ∧
    poolTree = .ok report.pool ∧ allowlistTree = .ok report.allowlist ∧
    ∃ checks more,
      checkPool (stores (polls + 1)).tables.commitments c.pool report.pool = .ok checks ∧
      checkAllowlist (stores (polls + 2)).tables.allowlist c.allowlist report.allowlist =
        .ok more ∧
      report.checks = checks ++ more ∧
      report.evidence = evidenceOf c report.pool.ledger passphrase (stores (polls + 3))
        (stores (polls + 4)) := by
  obtain ⟨pool, hpool, h⟩ := bind_eq_ok.mp h
  obtain ⟨allowlist, hallowlist, h⟩ := bind_eq_ok.mp h
  obtain ⟨⟨⟩, hwait, h⟩ := bind_eq_ok.mp h
  obtain ⟨atPool, hatPool, h⟩ := bind_eq_ok.mp h
  obtain ⟨checks, hchecks, h⟩ := bind_eq_ok.mp h
  obtain ⟨atAllowlist, hatAllowlist, h⟩ := bind_eq_ok.mp h
  obtain ⟨more, hmore, h⟩ := bind_eq_ok.mp h
  obtain ⟨evidence, hevidence, h⟩ := bind_eq_ok.mp h
  obtain ⟨text, htext, hevidence⟩ := bind_eq_ok.mp hevidence
  obtain ⟨atEvents, hatEvents, hevidence⟩ := bind_eq_ok.mp hevidence
  obtain ⟨atRows, hatRows, hevidence⟩ := bind_eq_ok.mp hevidence
  -- every store is the one of its moment
  obtain rfl := Except.ok.inj (reply_eq_ok (mapError_eq_ok.mp hatPool))
  obtain rfl := Except.ok.inj (reply_eq_ok (mapError_eq_ok.mp hatAllowlist))
  obtain rfl := Except.ok.inj (reply_eq_ok (mapError_eq_ok.mp htext))
  obtain rfl := Except.ok.inj (reply_eq_ok (mapError_eq_ok.mp hatEvents))
  obtain rfl := Except.ok.inj (reply_eq_ok (mapError_eq_ok.mp hatRows))
  obtain rfl := Except.ok.inj hevidence
  obtain rfl := Except.ok.inj h
  have hreached := awaitIndex_ok (fun i s hs => (Except.ok.inj (reply_eq_ok hs)).symm) hwait
  rw [Nat.zero_add] at hreached
  exact ⟨hreached, reply_eq_ok (mapError_eq_ok.mp hpool),
    reply_eq_ok (mapError_eq_ok.mp hallowlist), checks, more, mapError_eq_ok.mp hchecks,
    mapError_eq_ok.mp hmore, rfl, rfl⟩

/-- **Which errors `verify` can end with**, if both trees can be read and the checks return once the
wait has ended well. -/
theorem fails_verify {pool : PoolTree} {allowlist : AllowlistTree} (hpool : poolTree = .ok pool)
    (hallowlist : allowlistTree = .ok allowlist)
    (hchecks : (∃ j ≤ polls, max pool.ledger allowlist.ledger ≤ indexedLedger (stores j)) →
      (∃ checks, checkPool (stores (polls + 1)).tables.commitments c.pool pool = .ok checks) ∧
      ∃ more, checkAllowlist (stores (polls + 2)).tables.allowlist c.allowlist allowlist =
        .ok more) :
    Fails (fun error => f.Raises polls error ∨
      (∀ j ≤ polls, indexedLedger (stores j) < max pool.ledger allowlist.ledger) ∧
        error = .behind (indexedLedger (stores polls)) (max pool.ledger allowlist.ledger))
      (verify c (f.replies poolTree allowlistTree passphrase stores polls)) := by
  refine Fails.bind (.mapError (fails_reply hpool fun e he => .inl (.poolTree he))) fun p hp => ?_
  refine Fails.bind (.mapError (fails_reply hallowlist fun e he => .inl (.allowlistTree he)))
    fun a ha => ?_
  obtain rfl := Except.ok.inj (hpool.symm.trans (reply_eq_ok (mapError_eq_ok.mp hp)))
  obtain rfl := Except.ok.inj (hallowlist.symm.trans (reply_eq_ok (mapError_eq_ok.mp ha)))
  refine Fails.bind (fails_awaitIndex (Nat.zero_add _) fun j hj => absurd hj (Nat.not_lt_zero j))
    fun _ hwait => ?_
  have hreached := awaitIndex_ok (fun i s hs => (Except.ok.inj (reply_eq_ok hs)).symm) hwait
  rw [Nat.zero_add] at hreached
  obtain ⟨⟨checks, hchecks⟩, more, hmore⟩ := hchecks hreached
  refine Fails.bind (.mapError (fails_reply rfl fun e he => .inl (.atPool he))) fun s hs => ?_
  obtain rfl := Except.ok.inj (reply_eq_ok (mapError_eq_ok.mp hs))
  rw [hchecks]
  refine Fails.bind (Fails.ok checks) fun _ _ => ?_
  refine Fails.bind (.mapError (fails_reply rfl fun e he => .inl (.atAllowlist he))) fun s hs => ?_
  obtain rfl := Except.ok.inj (reply_eq_ok (mapError_eq_ok.mp hs))
  rw [hmore]
  refine Fails.bind (Fails.ok more) fun _ _ => ?_
  refine Fails.bind ?_ fun _ _ => Fails.ok _
  refine Fails.bind (.mapError (fails_reply rfl fun e he => .inl (.network he))) fun _ _ => ?_
  refine Fails.bind (.mapError (fails_reply rfl fun e he => .inl (.atEvents he))) fun _ _ => ?_
  exact Fails.bind (.mapError (fails_reply rfl fun e he => .inl (.atRows he))) fun _ _ => Fails.ok _

end Outcomes

end Verify

/-! ## 2. Complete stores -/

namespace Indexing

/-- **Everything emitted up to ledger `S` is stored**, and nothing else that claims to be. -/
structure Complete (history : History) (S : Nat) (s : Store) : Prop where
  sound : s.Sound
  genuine : ∀ e ∈ s.stored, e ∈ history.events
  all : ∀ e ∈ history.events, e.position.ledger ≤ S → e ∈ s.stored

variable {history : History} {reported S : Nat} {s : Store}

/-- The network has named the ledger the index has come to. -/
theorem Consistent.indexedLedger_le (h : Consistent history reported s) :
    Verify.indexedLedger s ≤ reported := by
  cases hc : s.checkpoint .rpc with
  | none =>
    rw [Verify.indexedLedger, hc]
    exact Nat.zero_le _
  | some c =>
    rw [Verify.indexedLedger_eq hc]
    obtain ⟨-, hle, -⟩ := h.claims .rpc c hc
    refine le_trans ?_ hle
    unfold EventPosition.complete
    split
    · exact le_rfl
    · exact Nat.sub_le _ _

/-- The stored events up to `S` are the emitted ones. -/
theorem Complete.stored (h : Complete history S s) :
    (s.stored.filter fun e => e.position.ledger ≤ S).Perm
      (history.events.filter fun e => e.position.ledger ≤ S) := by
  rw [List.perm_ext_iff_of_nodup (h.sound.once.of_map.filter _) (history.nodup.filter _)]
  intro e
  simp only [List.mem_filter, decide_eq_true_eq, and_congr_left_iff]
  intro hle
  exact ⟨h.genuine e, fun he => h.all e he hle⟩

theorem Complete.commitments (h : Complete history S s) :
    (s.tables.commitments.filter fun r => r.ledger ≤ S).Perm
      (Tables.of (history.events.filter fun e => e.position.ledger ≤ S)).commitments := by
  rw [h.sound.tables]
  exact (filter_flatMap_ledger (fun e => e.rows_origin.1) S _).symm ▸
    (Tables.same_of_perm h.stored).commitments

theorem Complete.allowlist (h : Complete history S s) :
    (s.tables.allowlist.filter fun r => r.ledger ≤ S).Perm
      (Tables.of (history.events.filter fun e => e.position.ledger ≤ S)).allowlist := by
  rw [h.sound.tables]
  exact (filter_flatMap_ledger (fun e r hr => (e.rows_origin.2 r hr).1) S _).symm ▸
    (Tables.same_of_perm h.stored).allowlist

end Indexing

open Indexing (Complete Consistent)

/-- **What was once complete stays complete**, although the checkpoint may move back: between the
first moment and the last nothing is lost, and nothing is added to a ledger that was named. -/
theorem Service.complete_later {ι : Type} {ix : Indexer} {S : Nat} {s s' s'' : Shared ι}
    (hindex : Service.IndexTrue ix s) (hS : S ≤ Verify.indexedLedger s.store)
    (hlater : Service.Later s s') (hindex' : Service.IndexTrue ix s')
    (hlast : Service.Later s' s'') : Complete s''.history S s'.store where
  sound := hindex'.consistent.sound
  genuine e he := hlast.history.kept.subset (hindex'.consistent.genuine e he)
  all := by
    intro e he hle
    refine hlater.stored e ?_
    rcases (hlater.trans hlast).history.later e he with hold | hnew
    · exact hindex.consistent.indexed hold (hle.trans hS)
    · have := hindex.consistent.indexedLedger_le
      omega

namespace ASPMembership

/-- The counter never passes the size of the tree, also after the operator has taken over. -/
def Counted (M : Nat) (s : AspState) : Prop := ∃ k, s.nextIndex = some k ∧ k ≤ 2 ^ M

theorem Counted.step {M : Nat} {log : List Invocation} {i : Invocation} {s s' : AspState}
    (h : Counted M s) (hphases : Phases M log s) (hok : exec i s = .ok s') : Counted M s' := by
  have hafter := hphases.step hok
  obtain ⟨call, auth⟩ := i
  cases call with
  | insertLeaf leaf =>
    have hopen : getOperatorMaintained s = false := (insertLeaf_ok hok).2.1
    have hnot : ¬HandedOver log := fun hy => by simp [(hphases.after hy).operator] at hopen
    obtain ⟨-, hm, -⟩ := (hphases.before hnot).maintains.of_insertLeaf hok
    exact ⟨_, hm.nextIndex, hm.fits⟩
  | revokeLeaf leaf newRoot =>
    obtain ⟨-, -, rfl⟩ := revokeLeaf_ok hok
    exact h
  | publishLeaf leaf index newRoot =>
    obtain ⟨-, -, -, rfl⟩ := publishLeaf_ok hok
    exact h
  | setAdminInsertOnly adminOnly =>
    rw [setAdminInsertOnly_ok hok]
    exact h
  | updateAdmin newAdmin =>
    rw [updateAdmin_ok hok]
    exact h

theorem counted_run {M : Nat} {admin : Address} {s0 : AspState} (h1 : 1 ≤ M) (h2 : M ≤ 32)
    (h0 : constructor admin M = .ok s0) (calls : List Invocation) :
    Counted M (run exec calls s0) := by
  obtain ⟨s1, hs1, hm, he, -⟩ := maintains_constructor admin h1 h2
  obtain rfl : s1 = s0 := Except.ok.inj (hs1.symm.trans h0)
  have hstart : Phases M [] s1 ∧ Counted M s1 := ⟨phases_nil hm he, _, hm.nextIndex, hm.fits⟩
  exact (accepted_induction (P := fun log s => Phases M log s ∧ Counted M s)
    (fun _ _ _ _ hP hok => ⟨hP.1.step hok, hP.2.step hP.1 hok⟩) calls [] s1 hstart).2

end ASPMembership

namespace Network

section Checks

variable {ρ : Type} {c : Contracts} {L M S : Nat} {n : Network ρ} {calls : List (Sent ρ)}
  {history : History} {s : Store} (hfresh : Fresh L M n) (hosted : ∀ x ∈ calls, x.call.Hosted c)
  (hordered : calls.Pairwise fun x y => x.ledger ≤ y.ledger)
  (hplaces : Places c (run exec calls n).log history.events) (hcomplete : Complete history S s)

include hfresh hosted in
theorem announces_asOf (S : Nat) :
    Announces c L M (accepted exec (upTo S calls) n) (run exec (upTo S calls) n) :=
  hfresh.announces_run fun x hx => hosted x (List.mem_filter.mp hx).1

include hfresh hordered hplaces in
theorem places_asOf (S : Nat) : Places c (run exec (upTo S calls) n).log
    (history.events.filter fun e => e.position.ledger ≤ S) := by
  rw [log_asOf hfresh.log hordered S]
  exact Places.upTo hplaces S

include hfresh hosted in
/-- The entries `allowlist_tree` reads are there, and the counter fits. -/
theorem allowlistTree_asOf (S : Nat) : ∃ state,
    Chain.allowlistTree c.allowlist S (run exec (upTo S calls) n).allowlist = .ok state ∧
      state.ledger = S ∧ state.levels = M ∧ state.nextIndex < 2 ^ 63 := by
  have hnow := announces_asOf hfresh hosted S
  obtain ⟨log, hphases⟩ := hnow.phases
  obtain ⟨admin, hconstructor⟩ := hfresh.allowlist
  have hcounted : ASPMembership.Counted M (run exec (upTo S calls) n).allowlist := by
    rw [run_allowlist]
    exact ASPMembership.counted_run hfresh.depth.1 hfresh.depth.2 hconstructor _
  obtain ⟨k, hk, hle⟩ := hcounted
  have hpow : 2 ^ M ≤ 2 ^ 32 := Nat.pow_le_pow_right (by omega) hfresh.depth.2
  refine ⟨⟨S, M, k, ASPMembership.announcedRoot M (run exec (upTo S calls) n).allowlist.events,
    (run exec (upTo S calls) n).allowlist.operatorMaintained.getD false⟩, ?_, rfl, rfl,
    hle.trans_lt (by omega)⟩
  simp only [Chain.allowlistTree, hnow.announced.levels, hk, hphases.root_eq, okOr_some, ok_bind]

include hfresh hosted hordered hplaces hcomplete

theorem storesLeaves_asOf : StoresLeaves c.pool (run exec (upTo S calls) n).leaves
    (s.tables.commitments.filter fun r => r.ledger ≤ S) :=
  ((announces_asOf hfresh hosted S).storesLeaves
    (places_asOf hfresh hordered hplaces S)).of_perm hcomplete.commitments

/-- **The pool's checks on a complete store.** -/
theorem checkPool_asOf : ∃ checks, Verify.checkPool s.tables.commitments c.pool
      ⟨S, L, (run exec (upTo S calls) n).leaves.length,
        treeRoot L (run exec (upTo S calls) n).leaves⟩ = .ok checks ∧
    ∀ check ∈ checks, check.ok = true :=
  Verify.checkPool_passes (announces_asOf hfresh hosted S).holds
    (storesLeaves_asOf hfresh hosted hordered hplaces hcomplete)

/-- The rows of the pool are its leaves, and none is from the closed deposit path. -/
theorem evidence_asOf (passphrase : String) (atEvents : Store) :
    (Verify.evidenceOf c S passphrase atEvents s).poolCommitmentRows =
      (run exec (upTo S calls) n).leaves.length ∧
    (Verify.evidenceOf c S passphrase atEvents s).poolLegacyZeroPositions = 0 := by
  have hstores := storesLeaves_asOf hfresh hosted hordered hplaces hcomplete
  have hown : (s.tables.commitments.filter fun r => r.pool = c.pool ∧ r.ledger ≤ S) =
      s.tables.commitments.filter fun r => r.ledger ≤ S := by
    refine List.filter_congr fun r hr => ?_
    by_cases hle : r.ledger ≤ S
    · have := (hstores.mem (List.mem_filter.mpr ⟨hr, by simpa using hle⟩)).1
      simp [this, hle]
    · simp [hle]
  refine ⟨?_, ?_⟩
  · have hlength := hstores.length_eq
    simp only [List.length_map, List.length_zipIdx] at hlength
    rw [Verify.evidenceOf, hown, hlength]
  · rw [Verify.evidenceOf, List.length_eq_zero_iff, List.filter_eq_nil_iff]
    intro r hr hselected
    obtain ⟨⟨-, hle⟩, horigin⟩ := of_decide_eq_true hselected
    have := (hstores.mem (List.mem_filter.mpr ⟨hr, by simpa using hle⟩)).2.1
    rw [this] at horigin
    cases horigin

/-- **The allowlist's checks on a complete store.** -/
theorem checkAllowlist_asOf : ∃ state checks,
    Chain.allowlistTree c.allowlist S (run exec (upTo S calls) n).allowlist = .ok state ∧
    Verify.checkAllowlist s.tables.allowlist c.allowlist state = .ok checks ∧
    ∀ check ∈ checks, check.ok = true := by
  have hnow := announces_asOf hfresh hosted S
  have hplaced := places_asOf hfresh hordered hplaces S
  obtain ⟨log, hphases⟩ := hnow.phases
  have hcolumns := Places.allowlist hplaced hnow.fits
  rw [hnow.allowlist] at hcolumns
  have hmem : ∀ r ∈ (Tables.of (history.events.filter fun e =>
      e.position.ledger ≤ S)).allowlist, r.allowlist = c.allowlist := by
    intro r hr
    obtain ⟨event, -, heq⟩ := List.mem_map.mp (hcolumns ▸ List.mem_map_of_mem hr)
    exact (congrArg Prod.fst heq).symm
  have hrows := Verify.allowlistRows_eq (history.sorted.filter _) hmem hcomplete.allowlist
  refine Verify.checkAllowlist_passes hfresh.depth.1 hfresh.depth.2 hnow.announced
    hphases.root_eq ?_
  rw [hrows, Verify.Tells]
  have := congrArg (List.map Prod.snd) hcolumns
  rwa [List.map_map, List.map_map] at this

end Checks

/-! ## 3. A verification beside a fleet -/

/-- **A fleet that is followed**: `w 0`, `w 1`, .. are moments of one run of it, and between any two
of them the instances have done whatever they do.  What both contracts have announced is placed in
the history of the moment `last`. -/
structure Verifying {ρ ι : Type} [DecidableEq ι] (config : ServiceConfig) (ix : Indexer)
    (drops : Bool) (L M : Nat) (n : Network ρ) (calls : List (Sent ρ)) (w : Nat → Service.Fleet ι)
    (last : Nat) : Prop where
  fresh : Fresh L M n
  hosted : ∀ x ∈ calls, x.call.Hosted ix.contracts
  ordered : calls.Pairwise fun x y => x.ledger ≤ y.ledger
  start : ∃ history, Service.Reaches config ix drops (.fresh history) (w 0)
  next : ∀ i, Service.Reaches config ix drops (w i) (w (i + 1))
  places : Places ix.contracts (run exec calls n).log (w last).shared.history.events

/-- `verify`, on the replies that do not fail.  Both trees are those at the end of the ledgers `S`
and `T`; the readings of the index meet the fleet at `w m`, .., `w (m + k)` while it waits, and the
other queries at the next four moments. -/
def verifyFrom {ρ ι : Type} (c : Contracts) (n : Network ρ) (calls : List (Sent ρ))
    (w : Nat → Service.Fleet ι) (passphrase : String) (m k S T : Nat) (f : Verify.Faults) :
    Except Verify.VerifyError Verify.Report :=
  Verify.verify c (f.replies
    (Chain.poolTree c.pool S (run exec (upTo S calls) n).pool.pool)
    (Chain.allowlistTree c.allowlist T (run exec (upTo T calls) n).allowlist) passphrase
    (fun i => (w (m + i)).shared.store) k)

/-- **A report that found a match**, of the trees at the end of the ledgers `S` and `T`. -/
structure FindsMatch {ρ : Type} (c : Contracts) (n : Network ρ) (calls : List (Sent ρ))
    (L M S T : Nat) (report : Verify.Report) : Prop where
  ok : report.ok = true
  rows : report.evidence.poolCommitmentRows + report.evidence.poolLegacyZeroPositions =
    report.pool.nextIndex
  pool : Chain.poolTree c.pool S (run exec (upTo S calls) n).pool.pool = .ok report.pool
  allowlist : Chain.allowlistTree c.allowlist T (run exec (upTo T calls) n).allowlist =
    .ok report.allowlist
  levels : report.pool.levels = L ∧ report.allowlist.levels = M
  fits : report.pool.nextIndex < 2 ^ 63 ∧ report.allowlist.nextIndex < 2 ^ 63

section Verifying

variable {ρ ι : Type} [DecidableEq ι] {config : ServiceConfig} {ix : Indexer} {drops : Bool}
  {L M : Nat} {n : Network ρ} {calls : List (Sent ρ)} {w : Nat → Service.Fleet ι} {last : Nat}

theorem Verifying.reaches (h : Verifying config ix drops L M n calls w last) (i : Nat) :
    ∀ d, Service.Reaches config ix drops (w i) (w (i + d))
  | 0 => .refl
  | d + 1 => (h.reaches i d).trans (h.next (i + d))

/-- At every moment the instances know what is true. -/
theorem Verifying.holds (h : Verifying config ix drops L M n calls w last) {i : Nat}
    (hi : i ≤ last) :
    RelyGuarantee.Holds (Service.IndexTrue ix) (fun _ => Service.InstanceTrue ix) (w i) := by
  obtain ⟨history, hstart⟩ := h.start
  have hrun : Service.Reaches config ix drops (.fresh history) (w i) := by
    have := h.reaches 0 i
    rw [Nat.zero_add] at this
    exact hstart.trans this
  have hlast := h.reaches i (last - i)
  rw [Nat.add_sub_cancel' hi] at hlast
  have hemit : ix.contracts.Emit history := fun e he =>
    Places.emit h.places (h.fresh.announces_run h.hosted).fits e
      ((Service.history_of_reaches (hrun.trans hlast)).subset he)
  exact Service.holds_of_reaches hemit hrun

theorem Verifying.later (h : Verifying config ix drops L M n calls w last) {i j : Nat}
    (hij : i ≤ j) (hj : j ≤ last) : Service.Later (w i).shared (w j).shared := by
  have hrun := h.reaches i (j - i)
  rw [Nat.add_sub_cancel' hij] at hrun
  exact Service.later_of_reaches (h.holds (hij.trans hj)) hrun

/-- What the wait has seen complete is complete at every later read. -/
theorem Verifying.complete (h : Verifying config ix drops L M n calls w last) {i j S : Nat}
    (hS : S ≤ Verify.indexedLedger (w i).shared.store) (hij : i ≤ j) (hj : j ≤ last) :
    Complete (w last).shared.history S (w j).shared.store :=
  Service.complete_later (h.holds (hij.trans hj)).shared hS (h.later hij hj) (h.holds hj).shared
    (h.later hj le_rfl)

/-- Both checks pass on what the wait has seen complete. -/
theorem Verifying.checks (h : Verifying config ix drops L M n calls w last) {m k S T : Nat}
    (hlast : m + k + 4 ≤ last)
    (hreached : ∃ i ≤ k, max S T ≤ Verify.indexedLedger (w (m + i)).shared.store) :
    (∃ pool checks,
      Chain.poolTree ix.contracts.pool S (run exec (upTo S calls) n).pool.pool = .ok pool ∧
      Verify.checkPool (w (m + (k + 1))).shared.store.tables.commitments ix.contracts.pool pool =
        .ok checks ∧ ∀ check ∈ checks, check.ok = true) ∧
    ∃ allowlist checks,
      Chain.allowlistTree ix.contracts.allowlist T (run exec (upTo T calls) n).allowlist =
        .ok allowlist ∧
      Verify.checkAllowlist (w (m + (k + 2))).shared.store.tables.allowlist ix.contracts.allowlist
        allowlist = .ok checks ∧ ∀ check ∈ checks, check.ok = true := by
  obtain ⟨i, hi, hreached⟩ := hreached
  constructor
  · obtain ⟨checks, hchecks, hpass⟩ := checkPool_asOf h.fresh h.hosted h.ordered h.places
      (h.complete ((le_max_left S T).trans hreached) (j := m + (k + 1)) (by omega) (by omega))
    exact ⟨_, checks, poolTree_of_holds (announces_asOf h.fresh h.hosted S).holds _, hchecks, hpass⟩
  · exact checkAllowlist_asOf h.fresh h.hosted h.ordered h.places
      (h.complete ((le_max_right S T).trans hreached) (by omega) (by omega))

/-- **Every error is that of a failed request, or says that the index is behind.** -/
theorem Verifying.fails (h : Verifying config ix drops L M n calls w last) {m k : Nat}
    (hlast : m + k + 4 ≤ last) (S T : Nat) (f : Verify.Faults) (passphrase : String) :
    Fails (fun error => f.Raises k error ∨
      (∀ i ≤ k, Verify.indexedLedger (w (m + i)).shared.store < max S T) ∧
        error = .behind (Verify.indexedLedger (w (m + k)).shared.store) (max S T))
      (verifyFrom ix.contracts n calls w passphrase m k S T f) := by
  have hpool := poolTree_of_holds (S := S) (announces_asOf h.fresh h.hosted S).holds
    ix.contracts.pool
  obtain ⟨allowlist, hallowlist, rfl, -⟩ := allowlistTree_asOf h.fresh h.hosted T
  refine Verify.fails_verify hpool hallowlist fun hreached => ?_
  obtain ⟨⟨pool', checks, hpool', hchecks, -⟩, allowlist', more, hallowlist', hmore, -⟩ :=
    h.checks hlast hreached
  obtain rfl := Except.ok.inj (hpool.symm.trans hpool')
  obtain rfl := Except.ok.inj (hallowlist.symm.trans hallowlist')
  exact ⟨⟨checks, hchecks⟩, more, hmore⟩

/-- **Every report is of a match.** -/
theorem Verifying.matches (h : Verifying config ix drops L M n calls w last) {m k S T : Nat}
    (hlast : m + k + 4 ≤ last) {f : Verify.Faults} {passphrase : String} {report : Verify.Report}
    (hreport : verifyFrom ix.contracts n calls w passphrase m k S T f = .ok report) :
    (∃ i ≤ k, max S T ≤ Verify.indexedLedger (w (m + i)).shared.store) ∧
      FindsMatch ix.contracts n calls L M S T report := by
  obtain ⟨hreached, hpool, hallowlist, checks, more, hchecks, hmore, hall, hevidence⟩ :=
    Verify.verify_ok hreport
  have hholds := (announces_asOf h.fresh h.hosted S).holds
  have hpool' := Except.ok.inj (hpool.symm.trans (poolTree_of_holds hholds ix.contracts.pool))
  obtain ⟨allowlist, hallowlist', hT, hdepth, hfits⟩ := allowlistTree_asOf h.fresh h.hosted T
  obtain rfl := Except.ok.inj (hallowlist.symm.trans hallowlist')
  have hS : report.pool.ledger = S := by rw [hpool']
  rw [hS, hT] at hreached
  obtain ⟨⟨pool', checks', hread, hchecks', hpass⟩, allowlist', more', hread', hmore', hpass'⟩ :=
    h.checks hlast hreached
  obtain rfl := Except.ok.inj (hpool.symm.trans hread)
  obtain rfl := Except.ok.inj (hallowlist.symm.trans hread')
  obtain rfl := Except.ok.inj (hchecks.symm.trans hchecks')
  obtain rfl := Except.ok.inj (hmore.symm.trans hmore')
  obtain ⟨i, hi, hle⟩ := hreached
  obtain ⟨hrows, hzeros⟩ := evidence_asOf h.fresh h.hosted h.ordered h.places
    (h.complete ((le_max_left S T).trans hle) (j := m + (k + 4)) (by omega) (by omega)) passphrase
    (w (m + (k + 3))).shared.store
  have hpow : 2 ^ L ≤ 2 ^ 32 := Nat.pow_le_pow_right (by omega) hholds.depth.2
  have hsmall := hholds.fits
  refine ⟨⟨i, hi, hle⟩, ?_, ?_, hpool, hallowlist, ⟨by rw [hpool'], hdepth⟩, ?_, hfits⟩
  · rw [Verify.Report.ok, hall]
    exact Verify.Report.ok_append hpass hpass' 0 0 report.pool report.allowlist report.evidence
  · rw [hevidence, hS, hrows, hzeros, hpool', Nat.add_zero]
  · rw [hpool']
    dsimp only
    omega

/-- An index that has come to ledger 6 and stays there. -/
theorem verifying_listing : ∃ n w,
    Verifying (ι := Bool) Service.sampleConfig Service.sampleIndexer false 1 1 n listingCalls
      (fun _ => w) 4 ∧ Verify.indexedLedger w.shared.store = 6 := by
  obtain ⟨n, w, hwatched, -, -, hindexed⟩ := watched_listing
  exact ⟨n, w, ⟨hwatched.fresh, hwatched.hosted, hwatched.ordered, hwatched.reaches,
    fun _ => .refl, hwatched.places⟩, hindexed⟩

/-- **A verification beside running indexers raises no false alarm.**  Both trees are read as of the
end of a ledger, `S` and `T`; then the fleet is met at moments of any run, with dropped connections
and checkpoints that move back.  Each request, to the RPC or to the database, may fail.

* An error is that of a request that failed, or it says that the index is behind, with the ledger
  the last reading had come to, and then no reading had come to the later of the two ledgers.
* A report is of a match: every check passes, and the stored rows of the pool with the positions of
  the closed deposit path make up its next index.  If both writes are done, `record` leaves both
  rows and no other: what the contracts held, as matching, and so the API knows the depth of both
  trees.
* If no request fails and a reading has come to both ledgers, there is a report.

The premise `h` has the sources of the fleet be honest and retain what is asked of them. -/
theorem verify_behind_or_matches (h : Verifying config ix drops L M n calls w last)
    (hdistinct : ix.contracts.pool ≠ ix.contracts.allowlist) (m k S T : Nat)
    (hlast : m + k + 4 ≤ last) (f : Verify.Faults) (passphrase : String) :
    let result := verifyFrom ix.contracts n calls w passphrase m k S T f
    (∀ error, result = .error error → f.Raises k error ∨
      (∀ i ≤ k, Verify.indexedLedger (w (m + i)).shared.store < max S T) ∧
        error = .behind (Verify.indexedLedger (w (m + k)).shared.store) (max S T)) ∧
    (∀ report, result = .ok report →
      (∃ i ≤ k, max S T ≤ Verify.indexedLedger (w (m + i)).shared.store) ∧ report.ok = true ∧
        report.evidence.poolCommitmentRows + report.evidence.poolLegacyZeroPositions =
          report.pool.nextIndex ∧
        Chain.poolTree ix.contracts.pool S (run exec (upTo S calls) n).pool.pool =
          .ok report.pool ∧
        Chain.allowlistTree ix.contracts.allowlist T (run exec (upTo T calls) n).allowlist =
          .ok report.allowlist ∧
        ∀ verified writes, (∀ i, writes i = .done) →
          ∃ table, report.record ix.contracts writes verified = (.ok (), table) ∧
            Verify.Records report ix.contracts verified table ∧
            ∀ index, Api.levels ⟨index, table⟩ ix.contracts.pool = .ok L ∧
              Api.levels ⟨index, table⟩ ix.contracts.allowlist = .ok M) ∧
    ((∀ error, ¬f.Raises k error) →
      (∃ i ≤ k, max S T ≤ Verify.indexedLedger (w (m + i)).shared.store) →
      ∃ report, result = .ok report) := by
  intro result
  refine ⟨h.fails hlast S T f passphrase, fun report hreport => ?_, fun hnone hreached => ?_⟩
  · obtain ⟨hreached, hmatch⟩ := h.matches hlast hreport
    refine ⟨hreached, hmatch.ok, hmatch.rows, hmatch.pool, hmatch.allowlist,
      fun verified writes hwrites => ?_⟩
    obtain ⟨rfl, rfl⟩ := hmatch.levels
    exact Verify.Report.levels_of_record hmatch.ok hdistinct hmatch.fits.1 hmatch.fits.2 hwrites
      verified
  · cases hresult : result with
    | ok report => exact ⟨report, rfl⟩
    | error error =>
      rcases h.fails hlast S T f passphrase error hresult with hraises | ⟨hbehind, -⟩
      · exact absurd hraises (hnone error)
      · obtain ⟨i, hi, hle⟩ := hreached
        exact absurd (hbehind i hi) (not_lt.mpr hle)

/-- The fleet has come to ledger 6: a match for trees that were read in ledgers 5 and 6, behind for
an allowlist that was read in ledger 7, and an error if the pool cannot be read at all. -/
theorem verify_behind_or_matches_listing : ∃ n w,
    Verifying (ι := Bool) Service.sampleConfig Service.sampleIndexer false 1 1 n listingCalls
      (fun _ => w) 4 ∧
    (∃ report, verifyFrom Service.sampleIndexer.contracts n listingCalls (fun _ => w) "" 0 0 5 6
      .none = .ok report ∧ report.ok = true) ∧
    verifyFrom Service.sampleIndexer.contracts n listingCalls (fun _ => w) "" 0 0 5 7 .none =
      .error (.behind 6 7) ∧
    verifyFrom Service.sampleIndexer.contracts n listingCalls (fun _ => w) "" 0 0 5 6
      { Verify.Faults.none with poolTree := some (.rpc .emptyResponse) } =
        .error (.chain (.rpc .emptyResponse)) := by
  obtain ⟨n, w, hverifying, hindexed⟩ := verifying_listing
  refine ⟨n, w, hverifying, ?_, ?_, rfl⟩
  · obtain ⟨-, hreports, hreturns⟩ := verify_behind_or_matches hverifying (by decide) 0 0 5 6 le_rfl
      .none ""
    obtain ⟨report, hreport⟩ := hreturns (fun _ => Verify.Faults.not_raises_none)
      ⟨0, le_rfl, hindexed.ge⟩
    exact ⟨report, hreport, (hreports report hreport).2.1⟩
  · obtain ⟨herrors, hreports, -⟩ := verify_behind_or_matches hverifying (by decide) 0 0 5 7 le_rfl
      .none ""
    cases hresult : verifyFrom Service.sampleIndexer.contracts n listingCalls (fun _ => w) "" 0 0 5
        7 .none with
    | ok report =>
      obtain ⟨⟨i, -, hreached⟩, -⟩ := hreports report hresult
      rw [hindexed] at hreached
      omega
    | error error =>
      rcases herrors error hresult with hraises | ⟨-, rfl⟩
      · exact absurd hraises Verify.Faults.not_raises_none
      · rw [hindexed]
        rfl

end Verifying

end Network

end Veil
