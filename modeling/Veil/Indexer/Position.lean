/-
# Where an event sits in the ledger history

`services/indexer/src/position.rs`, and `end_of_ledger` of `seed.rs`.  A position is the TOID of
the operation that emitted the event and the event's index in that operation; the ledger is the
top half of the TOID.  Positions are compared as pairs, which is the order of emission.

The order is used in three ways later on: the ledger is monotone in the position
(`ledger_mono`), the end-of-ledger cursor of `l` separates the ledgers up to `l` from the later
ones (`le_endOfLedger_iff`), and a position in a later ledger is a later position
(`lt_of_ledger_lt`).
-/
import Veil.Core.Digits
import Veil.Core.Unsigned

namespace Veil

open Digits Unsigned

structure EventPosition where
  toid : Nat
  eventIndex : Nat
  toid_lt : toid < 2 ^ 64 := by decide
  eventIndex_lt : eventIndex < 2 ^ 32 := by decide
  deriving DecidableEq, Repr

/-- The text that is no `<toid>-<event index>`. -/
structure ParsePositionError where
  id : List Char
  deriving DecidableEq, Repr

namespace EventPosition

/-- The derived order: by TOID, then by event index. -/
instance : LinearOrder EventPosition :=
  LinearOrder.lift' (fun p => toLex (p.toid, p.eventIndex)) fun a b h => by
    cases a
    cases b
    simpa using h

theorem lt_iff {p q : EventPosition} :
    p < q ↔ p.toid < q.toid ∨ p.toid = q.toid ∧ p.eventIndex < q.eventIndex :=
  Prod.Lex.lt_iff

theorem le_iff {p q : EventPosition} :
    p ≤ q ↔ p.toid < q.toid ∨ p.toid = q.toid ∧ p.eventIndex ≤ q.eventIndex :=
  Prod.Lex.le_iff

/-- Ledger sequence the event was emitted in.  The quotient fits 32 bits, so the source's
fallback for one that does not is never taken. -/
def ledger (p : EventPosition) : Nat := p.toid / 2 ^ 32

theorem ledger_lt (p : EventPosition) : p.ledger < 2 ^ 32 := by
  have := p.toid_lt
  unfold ledger
  omega

theorem ledger_mono {p q : EventPosition} (h : p ≤ q) : p.ledger ≤ q.ledger := by
  have := le_iff.mp h
  unfold ledger
  omega

theorem lt_of_ledger_lt {p q : EventPosition} (h : p.ledger < q.ledger) : p < q :=
  lt_of_not_ge fun hle => absurd (ledger_mono hle) (Nat.not_le.mpr h)

/-- The end-of-ledger cursor, for a 32-bit ledger number. -/
def endOfLedger (l : Nat) : EventPosition where
  toid := l % 2 ^ 32 * 2 ^ 32 + u32Max
  eventIndex := u32Max
  toid_lt := by unfold u32Max; omega
  eventIndex_lt := by decide

/-- Event number `i` of the first operation of ledger `l`, for 32-bit numbers. -/
def firstOperation (l i : Nat) : EventPosition where
  toid := l % 2 ^ 32 * 2 ^ 32 + 1
  eventIndex := i % 2 ^ 32
  toid_lt := by omega
  eventIndex_lt := by omega

/-- Event number `i` of the first operation of transaction `t` of ledger `l`. -/
def firstOperationOf (l t i : Nat) : EventPosition where
  toid := l % 2 ^ 32 * 2 ^ 32 + t % 2 ^ 20 * 2 ^ 12 + 1
  eventIndex := i % 2 ^ 32
  toid_lt := by omega
  eventIndex_lt := by omega

/-- The position the way Soroban RPC writes it. -/
def display (p : EventPosition) : List Char :=
  padded 19 p.toid ++ '-' :: padded 10 p.eventIndex

/-- The texts before and after the first dash. -/
def splitOnce (id : List Char) : Option (List Char × List Char) :=
  match id.span (· ≠ '-') with
  | (_, []) => none
  | (before, _ :: after) => some (before, after)

/-- `EventPosition::from_str`. -/
def fromStr (id : List Char) : Except ParsePositionError EventPosition :=
  match splitOnce id with
  | none => .error ⟨id⟩
  | some (toid, index) =>
    if isDigits toid = true ∧ isDigits index = true then
      if h : decimal toid < 2 ^ 64 ∧ decimal index < 2 ^ 32 then
        .ok ⟨decimal toid, decimal index, h.1, h.2⟩
      else .error ⟨id⟩
    else .error ⟨id⟩

theorem splitOnce_append {before after : List Char} (h : ∀ c ∈ before, c.isDigit = true) :
    splitOnce (before ++ '-' :: after) = some (before, after) := by
  have hdash : ∀ c ∈ before, (c != '-') = true := by
    intro c hc
    rw [bne_iff_ne]
    rintro rfl
    exact absurd (h '-' hc) (by decide)
  rw [splitOnce, List.span_eq_takeWhile_dropWhile,
    List.takeWhile_append_of_pos (by simpa using hdash),
    List.dropWhile_append_of_pos (by simpa using hdash)]
  simp

/-- **The text names the position**, whatever the numbers are padded to. -/
theorem fromStr_padded (p : EventPosition) (w w' : Nat) :
    fromStr (padded w p.toid ++ '-' :: padded w' p.eventIndex) = .ok p := by
  rw [fromStr, splitOnce_append fun c hc => isDigit_of_mem_padded hc]
  simp only [isDigits_padded, decimal_padded, and_self, if_true]
  rw [dif_pos ⟨p.toid_lt, p.eventIndex_lt⟩]

theorem fromStr_display (p : EventPosition) : fromStr p.display = .ok p :=
  fromStr_padded p 19 10

theorem endOfLedger_ledger {l : Nat} (h : l < 2 ^ 32) : (endOfLedger l).ledger = l := by
  simp only [endOfLedger, ledger, u32Max]
  omega

/-- **The end-of-ledger cursor covers exactly the ledgers up to its own.** -/
theorem le_endOfLedger_iff {p : EventPosition} {l : Nat} (h : l < 2 ^ 32) :
    p ≤ endOfLedger l ↔ p.ledger ≤ l := by
  have hi := p.eventIndex_lt
  rw [le_iff]
  simp only [endOfLedger, ledger, u32Max]
  omega

end EventPosition

end Veil
