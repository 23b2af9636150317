/-
# The hand-off to RPC

`rpc_start` of `services/indexer/src/seed.rs` says where RPC ingestion starts, or that a ledger
would be lost.  With an RPC checkpoint it compares the ledger AFTER the stored cursor's with the
oldest one RPC retains; without one, the ledger after those the seed covers.

The seed covers whole ledgers, so there the comparison is exact (`skipsNothing_of_seed`).  A cursor
may stand inside its ledger: a full page ends at its last event.  The rest of that ledger is then
neither stored nor retained when RPC's oldest ledger is the next one, and
`rpc_start_skips_nothing_iff` says that this is the only way to lose an event.
-/
import Veil.Indexer.Following
import Veil.Indexer.Seed

namespace Veil

open EventPosition Tx Unsigned

/-! ## 1. `rpc_start` -/

/-- The RPC ledger window. -/
structure LedgerRange where
  latestLedger : Nat
  oldestLedger : Nat
  latestLedger_lt : latestLedger < 2 ^ 32 := by decide
  oldestLedger_lt : oldestLedger < 2 ^ 32 := by decide

/-- Why RPC ingestion cannot start or continue without losing events. -/
inductive HandoffError where
  | notSeeded
  | gap (stored oldest : Nat)
  deriving DecidableEq, Repr

/-- The ledger RPC ingestion should start from, or `none` to resume from the stored RPC
checkpoint. -/
def rpcStart (s : Store) (range : LedgerRange) (overlap : Nat) :
    Except HandoffError (Option Nat) :=
  match s.checkpoint .rpc with
  | some checkpoint => do
    let stored := checkpoint.cursor.ledger
    ensure (¬saturatingAdd stored 1 < range.oldestLedger) (.gap stored range.oldestLedger)
    .ok none
  | none => do
    let seed ← okOr (s.checkpoint .seed) .notSeeded
    let completeTo := seed.latestLedger
    ensure (¬saturatingAdd completeTo 1 < range.oldestLedger) (.gap completeTo range.oldestLedger)
    .ok (some (max (completeTo - overlap) range.oldestLedger))

theorem saturatingAdd_one_lt {a b : Nat} (hb : b < 2 ^ 32) : saturatingAdd a 1 < b ↔ a + 1 < b := by
  unfold saturatingAdd u32Max
  omega

variable {s : Store} {range : LedgerRange} {overlap : Nat}

theorem rpcStart_of_rpc {c : Checkpoint} (hc : s.checkpoint .rpc = some c) :
    rpcStart s range overlap =
      if c.cursor.ledger + 1 < range.oldestLedger then
        .error (.gap c.cursor.ledger range.oldestLedger)
      else .ok none := by
  rw [rpcStart, hc]
  simp only [saturatingAdd_one_lt range.oldestLedger_lt]
  by_cases h : c.cursor.ledger + 1 < range.oldestLedger
  · rw [ensure_neg (not_not.mpr h), if_pos h, error_bind]
  · rw [ensure_pos h, if_neg h, ok_bind]

theorem rpcStart_of_seed {seed : Checkpoint} (hr : s.checkpoint .rpc = none)
    (hs : s.checkpoint .seed = some seed) :
    rpcStart s range overlap =
      if seed.latestLedger + 1 < range.oldestLedger then
        .error (.gap seed.latestLedger range.oldestLedger)
      else .ok (some (max (seed.latestLedger - overlap) range.oldestLedger)) := by
  rw [rpcStart, hr]
  simp only [hs, okOr_some, ok_bind, saturatingAdd_one_lt range.oldestLedger_lt]
  by_cases h : seed.latestLedger + 1 < range.oldestLedger
  · rw [ensure_neg (not_not.mpr h), if_pos h, error_bind]
  · rw [ensure_pos h, if_neg h, ok_bind]

theorem rpcStart_of_neither (hr : s.checkpoint .rpc = none) (hs : s.checkpoint .seed = none) :
    rpcStart s range overlap = .error .notSeeded := by
  rw [rpcStart, hr]
  simp only [hs, okOr_none, error_bind]

/-! ## 2. What start-up may skip -/

/-- The positions the stored checkpoints account for: those up to the RPC cursor, or, before
RPC has stored one, the ledgers a completed seed covers. -/
def Store.Accounts (s : Store) (p : EventPosition) : Prop :=
  match s.checkpoint .rpc with
  | some checkpoint => p ≤ checkpoint.cursor
  | none => ∃ seed, s.checkpoint .seed = some seed ∧ p.ledger ≤ seed.latestLedger

/-- **Start-up skips nothing**: if `rpc_start` lets ingestion start, then the first request of
`sync_to_tip` asks for every event the checkpoints do not account for, and RPC still retains its
ledger. -/
def SkipsNothing (f : Follower) (s : Store) (range : LedgerRange) (overlap : Nat) : Prop :=
  ∀ start, rpcStart s range overlap = .ok start →
    ∃ request report, f.beginSync start s = .ok (request, report) ∧
      ∀ e : EmittedEvent, ¬s.Accounts e.position →
        range.oldestLedger ≤ e.position.ledger ∧ request.admits e = true

theorem skipsNothing_of_seed {contracts : Contracts} {pageSize : Nat} {seed : Checkpoint}
    (hr : s.checkpoint .rpc = none) (hs : s.checkpoint .seed = some seed) :
    SkipsNothing ⟨contracts, .rpc, pageSize⟩ s range overlap := by
  intro start h
  rw [rpcStart_of_seed hr hs] at h
  split at h
  · cases h
  · rename_i hretained
    obtain rfl := (Except.ok.inj h).symm
    refine ⟨_, _, Follower.beginSync_of_none hr _, ?_⟩
    intro e hnot
    have hlater : seed.latestLedger < e.position.ledger := by
      refine not_le.mp fun hle => hnot ?_
      rw [Store.Accounts, hr]
      exact ⟨seed, hs, hle⟩
    rw [Start.admits, decide_eq_true_iff]
    omega

/-- A cursor at the end of its ledger leaves nothing of that ledger unread. -/
theorem skipsNothing_of_rpc {contracts : Contracts} {pageSize : Nat} {c : Checkpoint}
    (hc : s.checkpoint .rpc = some c)
    (hend : c.cursor.ledger + 1 = range.oldestLedger → c.cursor = endOfLedger c.cursor.ledger) :
    SkipsNothing ⟨contracts, .rpc, pageSize⟩ s range overlap := by
  intro start h
  rw [rpcStart_of_rpc hc] at h
  split at h
  · cases h
  · rename_i hretained
    refine ⟨_, _, Follower.beginSync_of_some hc start, ?_⟩
    intro e hnot
    have hlater : c.cursor < e.position := by
      refine not_le.mp fun hle => hnot ?_
      rw [Store.Accounts, hc]
      exact hle
    refine ⟨?_, by rw [Start.admits, decide_eq_true_iff]; exact hlater⟩
    rcases Nat.lt_or_ge c.cursor.ledger range.oldestLedger with hlt | hge
    · -- RPC's oldest ledger is the one after the cursor's, which is complete
      have hnext : c.cursor.ledger + 1 = range.oldestLedger := by omega
      have hnotLe : ¬e.position ≤ endOfLedger c.cursor.ledger := hend hnext ▸ not_le.mpr hlater
      rw [le_endOfLedger_iff c.cursor.ledger_lt] at hnotLe
      omega
    · exact hge.trans (ledger_mono hlater.le)

/-- **When `rpc_start` keeps its promise.**  It does so for every overlap and every seed; with an
RPC cursor it does unless RPC's oldest ledger is the one right after the cursor's and the cursor
stands inside its ledger. -/
theorem rpc_start_skips_nothing_iff (contracts : Contracts) (pageSize : Nat) (s : Store)
    (range : LedgerRange) (overlap : Nat) :
    SkipsNothing ⟨contracts, .rpc, pageSize⟩ s range overlap ↔
      ∀ c, s.checkpoint .rpc = some c → c.cursor.ledger + 1 = range.oldestLedger →
        c.cursor = endOfLedger c.cursor.ledger := by
  constructor
  · intro h c hc hnext
    have hok : rpcStart s range overlap = .ok none := by
      rw [rpcStart_of_rpc hc, if_neg (by omega)]
    obtain ⟨request, report, -, hall⟩ := h none hok
    -- the last position of the cursor's ledger: were it not accounted for, it would be lost
    have hledger := endOfLedger_ledger c.cursor.ledger_lt
    have hle : c.cursor ≤ endOfLedger c.cursor.ledger :=
      (le_endOfLedger_iff c.cursor.ledger_lt).mpr le_rfl
    refine le_antisymm hle (not_lt.mp fun hlt => ?_)
    have hnot : ¬s.Accounts (endOfLedger c.cursor.ledger) := by
      rw [Store.Accounts, hc]
      exact not_le.mpr hlt
    have := (hall ⟨endOfLedger c.cursor.ledger, contracts.pool, ⟨[], .void⟩⟩ hnot).1
    rw [hledger] at this
    omega
  · intro h
    cases hc : s.checkpoint .rpc with
    | some c => exact skipsNothing_of_rpc hc (h c hc)
    | none =>
      cases hs : s.checkpoint .seed with
      | some seed => exact skipsNothing_of_seed hc hs
      | none =>
        intro start hok
        rw [rpcStart_of_neither hc hs] at hok
        cases hok

/-! ### A lost event -/

open Following (twoNullifiers firstNullifier reaches_firstNullifier)

/-- Following with pages of one event, the process stops after the first of two events of ledger 5.
RPC then drops that ledger; `rpc_start` lets ingestion resume, and the second event is neither
stored nor retained. -/
theorem rpc_start_loses_an_event : ∃ w,
    Following.Reaches ⟨⟨.contract 1, .contract 2⟩, .rpc, 1⟩ 2 (.fresh twoNullifiers) w ∧
      rpcStart w.store ⟨9, 6, by decide, by decide⟩ 0 = .ok none ∧
      (∃ e ∈ w.history.events, e ∉ w.store.stored ∧ e.position.ledger < 6) ∧
      ¬SkipsNothing ⟨⟨.contract 1, .contract 2⟩, .rpc, 1⟩ w.store ⟨9, 6, by decide, by decide⟩
        0 := by
  obtain ⟨store, phase, hrun, hc, hmissing, -⟩ := reaches_firstNullifier
  have hstart : rpcStart store ⟨9, 6, by decide, by decide⟩ 0 = .ok none := by
    rw [rpcStart_of_rpc hc]
    rfl
  refine ⟨_, hrun, hstart, ⟨twoNullifiers.events[1], List.mem_of_getElem rfl, hmissing,
    by decide⟩, fun h => ?_⟩
  obtain ⟨_, _, _, hall⟩ := h none hstart
  have hafter : ¬twoNullifiers.events[1].position ≤ firstNullifier.cursor := by decide
  have hnot : ¬store.Accounts twoNullifiers.events[1].position := by
    rw [Store.Accounts, hc]
    exact hafter
  exact absurd (hall _ hnot).1 (by decide)

end Veil
