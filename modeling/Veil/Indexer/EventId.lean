/-
# Event ids as both sources write them

`expert_id` of `services/indexer/src/seed.rs`, and what `EventPosition::from_str` makes of any
text.  Soroban RPC pads both numbers of an id with zeros, to 19 and 10 digits; Stellar Expert pads
them to 18 and 4.  The indexer stores one event once because both texts are read as one position.

`fromStr_eq_ok_iff` says what is read, and as which position.  Texts of equal width compare as their
numbers, so the ids of the RPC sort as strings in the order of the history, as long as 19 digits
hold the TOID (`display_lt_iff`).
-/
import Veil.Indexer.Position

namespace Veil

open Digits

namespace EventPosition

/-! ## 1. The two formats -/

/-- `expert_id`: Stellar Expert's id for a position. -/
def expertId (p : EventPosition) : List Char :=
  padded 18 p.toid ++ '-' :: padded 4 p.eventIndex

/-- One or more ASCII digits, a dash, and one or more ASCII digits again, the two numbers within
64 and 32 bits. -/
structure IsEventId (id toid index : List Char) : Prop where
  text : id = toid ++ '-' :: index
  toid_ne_nil : toid ≠ []
  toid_isDigit : ∀ c ∈ toid, c.isDigit = true
  index_ne_nil : index ≠ []
  index_isDigit : ∀ c ∈ index, c.isDigit = true
  toid_lt : decimal toid < 2 ^ 64
  index_lt : decimal index < 2 ^ 32

/-- The numbers of a position, each padded to a width of its own, make an event id. -/
theorem isEventId_padded (p : EventPosition) (w w' : Nat) :
    IsEventId (padded w p.toid ++ '-' :: padded w' p.eventIndex) (padded w p.toid)
      (padded w' p.eventIndex) where
  text := rfl
  toid_ne_nil := padded_ne_nil w p.toid
  toid_isDigit := fun _ hc => isDigit_of_mem_padded hc
  index_ne_nil := padded_ne_nil w' p.eventIndex
  index_isDigit := fun _ hc => isDigit_of_mem_padded hc
  toid_lt := by rw [decimal_padded]; exact p.toid_lt
  index_lt := by rw [decimal_padded]; exact p.eventIndex_lt

/-! ## 2. What is read -/

theorem text_of_splitOnce {id before after : List Char} (h : splitOnce id = some (before, after)) :
    id = before ++ '-' :: after := by
  rw [splitOnce, List.span_eq_takeWhile_dropWhile] at h
  have hid := List.takeWhile_append_dropWhile (p := (· ≠ '-')) (l := id)
  rcases hdrop : id.dropWhile (· ≠ '-') with _ | ⟨c, rest⟩
  · rw [hdrop] at h
    cases h
  · -- the first character that is dropped is the dash
    have hc := List.head?_dropWhile_not (· ≠ '-') id
    rw [hdrop] at h hid hc
    have hdash : c = '-' := by simpa using hc
    cases h
    rw [hdash] at hid
    exact hid.symm

/-- **What `from_str` accepts**, and the position it makes of it. -/
theorem fromStr_eq_ok_iff {id : List Char} {p : EventPosition} :
    fromStr id = .ok p ↔ ∃ toid index, IsEventId id toid index ∧
      p.toid = decimal toid ∧ p.eventIndex = decimal index := by
  constructor
  · intro h
    rw [fromStr] at h
    split at h
    · cases h
    · rename_i toid index hsplit
      split at h
      · rename_i hdigits
        obtain ⟨hne, hdig⟩ := isDigits_iff.mp hdigits.1
        obtain ⟨hne', hdig'⟩ := isDigits_iff.mp hdigits.2
        split at h
        · rename_i hlt
          cases h
          exact ⟨toid, index,
            ⟨text_of_splitOnce hsplit, hne, hdig, hne', hdig', hlt.1, hlt.2⟩, rfl, rfl⟩
        · cases h
      · cases h
  · rintro ⟨toid, index, hid, htoid, hindex⟩
    have hdigits : isDigits toid = true ∧ isDigits index = true :=
      ⟨isDigits_iff.mpr ⟨hid.toid_ne_nil, hid.toid_isDigit⟩,
        isDigits_iff.mpr ⟨hid.index_ne_nil, hid.index_isDigit⟩⟩
    rw [fromStr, hid.text, splitOnce_append hid.toid_isDigit]
    dsimp only
    rw [if_pos hdigits, dif_pos ⟨hid.toid_lt, hid.index_lt⟩]
    cases p
    cases htoid
    cases hindex
    rfl

theorem fromStr_of_isEventId {id toid index : List Char} (h : IsEventId id toid index) :
    fromStr id = .ok ⟨decimal toid, decimal index, h.toid_lt, h.index_lt⟩ :=
  fromStr_eq_ok_iff.mpr ⟨toid, index, h, rfl, rfl⟩

/-! ## 3. The order of the texts -/

/-- Ids of the RPC compare as their positions while 19 digits hold the TOIDs; ten digits always
hold the index. -/
theorem display_lt_iff {p q : EventPosition} (hp : p.toid < 10 ^ 19) (hq : q.toid < 10 ^ 19) :
    p.display < q.display ↔ p < q := by
  have htoid : ∀ {r : EventPosition}, r.toid < 10 ^ 19 → (padded 19 r.toid).length = 19 :=
    fun h => length_padded (by decide) h
  have hindex : ∀ r : EventPosition, (padded 10 r.eventIndex).length = 10 := fun r =>
    length_padded (by decide) (by have := r.eventIndex_lt; omega)
  have hdig : ∀ {w n : Nat}, ∀ c ∈ padded w n, c.isDigit = true :=
    fun _ hc => isDigit_of_mem_padded hc
  have htail : ('-' :: padded 10 p.eventIndex < '-' :: padded 10 q.eventIndex) ↔
      p.eventIndex < q.eventIndex := by
    have h := digits_append_lt_iff (s := []) (t := []) ((hindex p).trans (hindex q).symm) hdig hdig
    rw [List.append_nil, List.append_nil, decimal_padded, decimal_padded] at h
    rw [List.cons_lt_cons_self, h]
    simp
  rw [display, display, digits_append_lt_iff ((htoid hp).trans (htoid hq).symm) hdig hdig,
    decimal_padded, decimal_padded, htail, lt_iff]

/-- The end-of-ledger cursor lies below every later ledger. -/
theorem endOfLedger_lt {q : EventPosition} {l : Nat} (h : l < q.ledger) : endOfLedger l < q := by
  have hl : l < 2 ^ 32 := lt_trans h q.ledger_lt
  exact lt_of_not_ge fun hle => absurd ((le_endOfLedger_iff hl).mp hle) (Nat.not_le.mpr h)

/-! ## 4. Both formats name positions -/

/-- **Event ids from both sources name the same positions.** -/
theorem event_ids_name_positions :
    -- both texts of a position are read back as that position
    (∀ p : EventPosition, fromStr p.display = .ok p ∧ fromStr p.expertId = .ok p) ∧
    -- what is accepted
    (∀ id, (∃ p, fromStr id = .ok p) ↔ ∃ toid index, IsEventId id toid index) ∧
    -- accepted texts name one position exactly when the numbers are equal, whatever the padding
    (∀ {id toid index id' toid' index'}, IsEventId id toid index → IsEventId id' toid' index' →
      (fromStr id = fromStr id' ↔ decimal toid = decimal toid' ∧ decimal index = decimal index') ∧
      (fromStr id = fromStr id' ↔
        unpadded toid = unpadded toid' ∧ unpadded index = unpadded index')) ∧
    -- positions compare as pairs
    (∀ p q : EventPosition,
      p < q ↔ p.toid < q.toid ∨ p.toid = q.toid ∧ p.eventIndex < q.eventIndex) ∧
    -- the RPC's texts sort as the positions do
    (∀ p q : EventPosition, p.toid < 10 ^ 19 → q.toid < 10 ^ 19 →
      (p.display < q.display ↔ p < q)) ∧
    -- a ledger ends at its cursor, before the next one begins
    (∀ p : EventPosition, p ≤ endOfLedger p.ledger ∧
      ∀ q : EventPosition, q.ledger = p.ledger + 1 → p < q ∧ endOfLedger p.ledger < q) := by
  refine ⟨fun p => ⟨fromStr_display p, fromStr_padded p 18 4⟩, fun id => ?_, ?_,
    fun p q => lt_iff, fun p q => display_lt_iff, fun p => ?_⟩
  · constructor
    · rintro ⟨p, hp⟩
      obtain ⟨toid, index, hid, -, -⟩ := fromStr_eq_ok_iff.mp hp
      exact ⟨toid, index, hid⟩
    · rintro ⟨toid, index, hid⟩
      exact ⟨_, fromStr_of_isEventId hid⟩
  · intro id toid index id' toid' index' h h'
    have hnumbers : fromStr id = fromStr id' ↔
        decimal toid = decimal toid' ∧ decimal index = decimal index' := by
      simp only [fromStr_of_isEventId h, fromStr_of_isEventId h', Except.ok.injEq,
        EventPosition.mk.injEq]
    refine ⟨hnumbers, hnumbers.trans ?_⟩
    rw [decimal_eq_iff h.toid_ne_nil h.toid_isDigit h'.toid_ne_nil h'.toid_isDigit,
      decimal_eq_iff h.index_ne_nil h.index_isDigit h'.index_ne_nil h'.index_isDigit]
  · refine ⟨(le_endOfLedger_iff p.ledger_lt).mpr le_rfl, fun q hq => ?_⟩
    have hlater : p.ledger < q.ledger := by omega
    exact ⟨lt_of_ledger_lt hlater, endOfLedger_lt hlater⟩

/-- The event of the source's own tests. -/
def samplePosition : EventPosition := ⟨20013091605499905, 1, by decide, by decide⟩

theorem sample_ids_name_one_position :
    samplePosition.display = "0020013091605499905-0000000001".toList ∧
      samplePosition.expertId = "020013091605499905-0001".toList ∧
      fromStr samplePosition.display = fromStr samplePosition.expertId ∧
      samplePosition.display < (firstOperation 4659662 0).display ∧
      samplePosition < firstOperation 4659662 0 := by
  have hrpc := isEventId_padded samplePosition 19 10
  have hexpert := isEventId_padded samplePosition 18 4
  obtain ⟨-, -, hsame, -, htexts, hledger⟩ := event_ids_name_positions
  have hlater : samplePosition < firstOperation 4659662 0 :=
    ((hledger samplePosition).2 _ (by decide)).1
  exact ⟨by decide, by decide, (hsame hrpc hexpert).1.mpr (by decide),
    (htexts _ _ (by decide) (by decide)).mpr hlater, hlater⟩

end EventPosition

end Veil
