/-
# Concurrent writers on one stream

`write_batch` of `services/indexer/src/store.rs` reads the stream's checkpoint `FOR UPDATE`, refuses
a cursor before the stored one, writes the events, and at the end upserts the checkpoint without a
condition.  Its calls on one stream meet in one row of `ingest_checkpoints`, so what any number of
them do to it, in any order of their statements, is a schedule over that row
(`RowLock.run` with the cursor as key):

* `select` is the read, `check` the comparison with the proposed cursor;
* between `check` and `upsert` the call writes its events, which touches other rows only;
* `rollback` is an error of any of these, or the death of the caller.

The lock is the row itself.  Where the row exists it covers the upsert and the committed cursors
ascend; before the first checkpoint of a stream there is nothing to lock, and two first writers
may commit their cursors in the wrong order.
-/
import Veil.Core.RowLock
import Veil.Indexer.Store

namespace Veil

open RowLock Tx

/-- What calls of `write_batch` on one stream do to its checkpoint row, call `i` proposing
`calls i`. -/
abbrev runWriters (calls : Nat → Checkpoint) (schedule : List (Action Nat))
    (row : Option Checkpoint) : Option (World Nat Checkpoint) :=
  RowLock.run Checkpoint.cursor calls schedule (World.init row)

/-- The statements of call `i`, in order. -/
def writeBatchActions (i : Nat) : List (Action Nat) := [.select i, .check i, .upsert i, .commit i]

/-- **A call alone** leaves the row as `writeBatch` does. -/
theorem runWriters_alone {stream : Stream} {events : List StoredEvent} {checkpoint : Checkpoint}
    {s s' : Store} {o : Store.BatchOutcome} (hs : s.Sound)
    (h : s.writeBatch stream events checkpoint = .ok (o, s')) (i : Nat) :
    ∃ w, runWriters (fun _ => checkpoint) (writeBatchActions i) (s.checkpoint stream) = some w ∧
      w.row.committed = s'.checkpoint stream := by
  have hw := Store.writeBatch_ok hs h
  rw [hw.checkpoint_self]
  cases hc : s.checkpoint stream with
  | none =>
    simp [runWriters, writeBatchActions, RowLock.run, RowLock.step, World.init,
      Row.selectForUpdate, Row.upsert, Row.free]
  | some c =>
    have hle := hw.forward c hc
    simp [runWriters, writeBatchActions, RowLock.run, RowLock.step, World.init,
      Row.selectForUpdate, Row.upsert, Row.free, Row.lock, hle]

/-- A first writer to the end of ledger 10 and one to the end of ledger 5. -/
def twoFirstWriters (i : Nat) : Checkpoint :=
  if i = 0 then ⟨.endOfLedger 10, 10⟩ else ⟨.endOfLedger 5, 10⟩

/-- Both read before either writes; the later cursor commits first. -/
def bothReadFirst : List (Action Nat) :=
  [.select 0, .select 1, .check 0, .check 1, .upsert 0, .commit 0, .upsert 1, .commit 1]

theorem bothReadFirst_log : ∃ w, runWriters twoFirstWriters bothReadFirst none = some w ∧
    w.log = [⟨.endOfLedger 10, 10⟩, ⟨.endOfLedger 5, 10⟩] := by
  have hlog : (runWriters twoFirstWriters bothReadFirst none).map (·.log) =
      some [⟨.endOfLedger 10, 10⟩, ⟨.endOfLedger 5, 10⟩] := by decide
  exact Option.map_eq_some_iff.mp hlog

/-- On a stream without a checkpoint the committed cursor goes from ledger 10 back to ledger 5. -/
theorem first_writers_move_back : ∃ w,
    runWriters twoFirstWriters bothReadFirst none = some w ∧
      w.log = [⟨.endOfLedger 10, 10⟩, ⟨.endOfLedger 5, 10⟩] ∧
      ¬w.log.Pairwise fun a b => a.cursor ≤ b.cursor := by
  obtain ⟨w, hw, hlog⟩ := bothReadFirst_log
  refine ⟨w, hw, hlog, ?_⟩
  rw [hlog]
  decide

/-- **When concurrent writers never move a checkpoint back**: exactly on a stream that has one.
For every number of calls, every proposed cursor and every order of their statements, the
cursors committed after a stored checkpoint ascend from it; without a stored one they need not. -/
theorem concurrent_writers_ascend_iff (row : Option Checkpoint) :
    (∀ calls schedule w, runWriters calls schedule row = some w →
      w.log.Pairwise fun a b => a.cursor ≤ b.cursor) ↔ row.isSome = true := by
  constructor
  · intro h
    cases row with
    | some c => rfl
    | none =>
      obtain ⟨w, hw, hlog⟩ := bothReadFirst_log
      have hsorted := h _ _ w hw
      rw [hlog] at hsorted
      exact absurd hsorted (by decide)
  · intro hrow calls schedule w hrun
    obtain ⟨c, rfl⟩ := Option.isSome_iff_exists.mp hrow
    exact run_sorted hrun

end Veil
