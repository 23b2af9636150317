/-
# Honest event sources

What `rpc.rs` relies on of the server behind `getEvents`, as it documents it: a page lists events
after the request's start in order, at most as many as asked for, and comes with a cursor.  The
cursor is the position of an event, or the end of the range the server scanned, with event index
`u32::MAX`; nothing at or before it that the request asks for is left out of the page.

The server's list grows while the indexer reads.  New events lie in later ledgers than any the
server has reported, so what a page served stays served (`Serves.grow`), and committing it makes
the store cover exactly the events up to its cursor (`Serves.stored`).

RPC keeps the newest ledgers only (`History.retained`).  Stellar Expert keeps all, and lists one
contract's events after a position; `expert.rs` and `seed.rs` rely on its list being complete up to
the ledger it named as its newest (`HonestListing`).
-/
import Mathlib.Data.List.Infix
import Veil.Indexer.Ingest
import Veil.Indexer.Verify

namespace Veil

open EventPosition Unsigned

/-- The events of the two contracts, in order of emission, each fit for its columns. -/
structure History where
  events : List EmittedEvent
  sorted : events.Pairwise fun a b => a.position < b.position
  storable : ∀ e ∈ events, e.Storable

theorem History.nodup (history : History) : history.events.Nodup :=
  history.sorted.imp fun hlt hab => absurd (hab ▸ hlt) (lt_irrefl _)

/-- The events a request asks for. -/
def Start.admits : Start → EmittedEvent → Bool
  | .ledger sequence, e => sequence ≤ e.position.ledger
  | .after cursor, e => cursor < e.position

/-- **An honest answer** to a request for at most `limit` events. -/
structure HonestPage (history : History) (start : Start) (limit : Nat) (page : EventsPage) :
    Prop where
  inOrder : (page.events.map (·.toEmittedEvent)).Sublist (history.events.filter start.admits)
  limit : page.events.length ≤ limit
  complete : ∀ e ∈ history.events, start.admits e → e.position ≤ page.cursor →
    e ∈ page.events.map (·.toEmittedEvent)
  cursor : (∃ e ∈ history.events, page.cursor = e.position) ∨
    ∃ l < 2 ^ 32, page.cursor = endOfLedger l
  /-- The cursor lies in the range the request asks the server to scan. -/
  scanned : ∀ l, start = .ledger l → l ≤ page.cursor.ledger

/-- The list has grown, by events in ledgers after `reported` only. -/
structure History.Grows (h h' : History) (reported : Nat) : Prop where
  kept : h.events <+: h'.events
  later : ∀ e ∈ h'.events, e ∈ h.events ∨ reported < e.position.ledger

/-! ## 1. Cursors -/

/-- A cursor that claims a whole ledger is the end of that ledger. -/
def EventPosition.IsCursor (c : EventPosition) : Prop :=
  c.eventIndex = u32Max → c = endOfLedger c.ledger

/-- The last ledger a cursor covers completely. -/
def EventPosition.complete (c : EventPosition) : Nat :=
  if c.eventIndex = u32Max then c.ledger else c.ledger - 1

theorem EmittedEvent.Storable.isCursor {e : EmittedEvent} (h : e.Storable) :
    e.position.IsCursor := by
  intro hmax
  have := h.eventIndex
  unfold u32Max at hmax
  omega

theorem isCursor_endOfLedger {l : Nat} (h : l < 2 ^ 32) : (endOfLedger l).IsCursor := by
  intro _
  rw [endOfLedger_ledger h]

/-- **A cursor covers every event of its complete ledgers.** -/
theorem EventPosition.IsCursor.covers {c p : EventPosition} (hc : c.IsCursor)
    (hp : 0 < p.ledger) (h : p.ledger ≤ c.complete) : p ≤ c := by
  unfold complete at h
  split at h
  · rename_i hmax
    rw [hc hmax, le_endOfLedger_iff c.ledger_lt]
    exact h
  · exact (lt_of_ledger_lt (by omega)).le

theorem Verify.indexedLedger_eq {s : Store} {c : Checkpoint} (h : s.checkpoint .rpc = some c) :
    Verify.indexedLedger s = c.cursor.complete := by
  rw [Verify.indexedLedger, h]
  rfl

/-! ## 2. What a page served -/

/-- What an honest page says of the list, also after the list has grown. -/
structure Serves (history : History) (start : Start) (page : EventsPage) : Prop where
  genuine : ∀ e ∈ page.events.map (·.toEmittedEvent), e ∈ history.events ∧ start.admits e
  complete : ∀ e ∈ history.events, start.admits e → e.position ≤ page.cursor →
    e ∈ page.events.map (·.toEmittedEvent)
  cursor : page.cursor.IsCursor
  scanned : ∀ l, start = .ledger l → l ≤ page.cursor.ledger

variable {history history' : History} {start : Start} {page : EventsPage} {limit reported : Nat}

theorem HonestPage.serves (h : HonestPage history start limit page) :
    Serves history start page where
  genuine := by
    intro e he
    simpa [List.mem_filter] using h.inOrder.subset he
  complete := h.complete
  cursor := by
    rcases h.cursor with ⟨e, he, hc⟩ | ⟨l, hl, hc⟩
    · exact hc ▸ (history.storable e he).isCursor
    · exact hc ▸ isCursor_endOfLedger hl
  scanned := h.scanned

/-- Growth in later ledgers adds nothing at or before the page's cursor. -/
theorem Serves.grow (h : Serves history start page) (hg : history.Grows history' reported)
    (hr : page.cursor.ledger ≤ reported) : Serves history' start page where
  genuine := by
    intro e he
    obtain ⟨hmem, hadmit⟩ := h.genuine e he
    exact ⟨hg.kept.subset hmem, hadmit⟩
  complete := by
    intro e he hadmit hle
    rcases hg.later e he with hold | hnew
    · exact h.complete e hold hadmit hle
    · have := ledger_mono hle
      omega
  cursor := h.cursor
  scanned := h.scanned

/-- **A round over an honest page.**  The store now holds, next to what it held, exactly the
requested events up to the page's cursor. -/
theorem Serves.stored {f : Follower} {next : Option Start} {s s' : Store}
    (h : Serves history start page) (hround : Follower.Round f start page next s s') :
    ∀ e, e ∈ s'.stored ↔
      e ∈ s.stored ∨ (e ∈ history.events ∧ start.admits e ∧ e.position ≤ page.cursor) := by
  have hpage : ∀ e, e ∈ page.events.map (·.toEmittedEvent) ↔
      e ∈ history.events ∧ start.admits e ∧ e.position ≤ page.cursor := by
    intro e
    constructor
    · intro he
      obtain ⟨hmem, hadmit⟩ := h.genuine e he
      obtain ⟨x, hx, rfl⟩ := List.mem_map.mp he
      exact ⟨hmem, hadmit, hround.events x hx⟩
    · rintro ⟨hmem, hadmit, hle⟩
      exact h.complete e hmem hadmit hle
  intro e
  rcases hround.wrote with hw | ⟨-, hempty, rfl⟩
  · rw [hw.stored e, hpage e]
  · rw [← hpage e, hempty]
    simp

/-! ## 3. Growth and retention -/

/-- What is new lies after everything that was there. -/
theorem History.Grows.after (hg : history.Grows history' reported) {e x : EmittedEvent}
    (he : e ∈ history.events) (hx : x ∈ history'.events) (hnew : x ∉ history.events) :
    e.position < x.position := by
  obtain ⟨rest, hrest⟩ := hg.kept
  have hsorted := history'.sorted
  rw [← hrest] at hsorted hx
  rcases List.mem_append.mp hx with hx | hx
  · exact absurd hx hnew
  · exact (List.pairwise_append.mp hsorted).2.2 e he x hx

/-- The events in the ledgers from `oldest` on, which is what RPC has. -/
def History.retained (history : History) (oldest : Nat) : History where
  events := history.events.filter fun e => oldest ≤ e.position.ledger
  sorted := history.sorted.filter _
  storable := fun e he => history.storable e (List.mem_filter.mp he).1

theorem History.mem_retained {oldest : Nat} {e : EmittedEvent} :
    e ∈ (history.retained oldest).events ↔ e ∈ history.events ∧ oldest ≤ e.position.ledger := by
  simp [retained]

theorem History.Grows.retained (hg : history.Grows history' reported) (oldest : Nat) :
    (history.retained oldest).Grows (history'.retained oldest) reported where
  kept := hg.kept.filter _
  later := by
    intro e he
    obtain ⟨he, hold⟩ := mem_retained.mp he
    rcases hg.later e he with hmem | hnew
    · exact .inl (mem_retained.mpr ⟨hmem, hold⟩)
    · exact .inr hnew

/-! ## 4. Stellar Expert -/

/-- The events of one contract after a position. -/
def listed (contract : Address) (previous : Option EventPosition) (e : EmittedEvent) : Bool :=
  decide (e.contract = contract) && previous.all fun p => decide (p < e.position)

theorem listed_iff {contract : Address} {previous : Option EventPosition} {e : EmittedEvent} :
    listed contract previous e = true ↔ e.contract = contract ∧ ∀ p ∈ previous, p < e.position := by
  cases previous <;> simp [listed]

/-- **An honest answer** of the archive: the first `limit` events asked for, out of a list that may
lag behind the chain but is complete up to ledger `tip`. -/
def HonestListing (history : History) (contract : Address) (previous : Option EventPosition)
    (limit tip : Nat) (records : List ContractEvent) : Prop :=
  ∃ listing, listing <+: history.events ∧
    (∀ e ∈ history.events, e.position.ledger ≤ tip → e ∈ listing) ∧
    records.map (·.toEmittedEvent) = (listing.filter (listed contract previous)).take limit

/-- What an honest answer says of the list, also after the list has grown. -/
structure Lists (history : History) (contract : Address) (previous : Option EventPosition)
    (limit tip : Nat) (records : List ContractEvent) : Prop where
  genuine : ∀ e ∈ records.map (·.toEmittedEvent), e ∈ history.events
  upTo : ∀ last ∈ records.getLast?, ∀ e ∈ history.events, listed contract previous e = true →
    e.position ≤ last.position → e ∈ records.map (·.toEmittedEvent)
  complete : records.length < limit → ∀ e ∈ history.events, listed contract previous e = true →
    e.position.ledger ≤ tip → e ∈ records.map (·.toEmittedEvent)

variable {contract : Address} {previous : Option EventPosition} {tip : Nat}
  {records : List ContractEvent}

/-- In a sorted list, what lies at or before an element of an initial part is in that part. -/
theorem mem_of_prefix_of_le {pre events : List EmittedEvent} (hpre : pre <+: events)
    (hsorted : events.Pairwise fun a b => a.position < b.position) {e x : EmittedEvent}
    (hx : x ∈ pre) (he : e ∈ events) (hle : e.position ≤ x.position) : e ∈ pre := by
  obtain ⟨rest, rfl⟩ := hpre
  rcases List.mem_append.mp he with he | he
  · exact he
  · exact absurd ((List.pairwise_append.mp hsorted).2.2 x hx e he) (not_lt.mpr hle)

theorem HonestListing.lists (h : HonestListing history contract previous limit tip records) :
    Lists history contract previous limit tip records := by
  obtain ⟨listing, hpre, hcomplete, hrecords⟩ := h
  have hsorted := (history.sorted.sublist hpre.sublist).filter (listed contract previous)
  have hmem : ∀ e ∈ records.map (·.toEmittedEvent), e ∈ listing := by
    intro e he
    rw [hrecords] at he
    exact (List.mem_filter.mp (List.mem_of_mem_take he)).1
  refine ⟨fun e he => hpre.subset (hmem e he), ?_, ?_⟩
  · intro last hlast e he hlisted hle
    have hlast : last.toEmittedEvent ∈ records.map (·.toEmittedEvent) :=
      List.mem_map_of_mem (List.mem_of_getLast? hlast)
    have hin : e ∈ listing := mem_of_prefix_of_le hpre history.sorted (hmem _ hlast) he hle
    rw [hrecords] at hlast ⊢
    exact mem_of_prefix_of_le (List.take_prefix _ _) hsorted hlast
      (List.mem_filter.mpr ⟨hin, hlisted⟩) hle
  · intro hshort e he hlisted htip
    have hin := List.mem_filter.mpr ⟨hcomplete e he htip, hlisted⟩
    -- a short answer is the whole list
    have hlength := congrArg List.length hrecords
    rw [List.length_map, List.length_take] at hlength
    rw [hrecords, List.take_of_length_le (by omega)]
    exact hin

theorem Lists.grow (h : Lists history contract previous limit tip records)
    (hg : history.Grows history' reported) (hr : tip ≤ reported) :
    Lists history' contract previous limit tip records where
  genuine := fun e he => hg.kept.subset (h.genuine e he)
  upTo := by
    intro last hlast e he hlisted hle
    have hmem : last.toEmittedEvent ∈ history.events :=
      h.genuine _ (List.mem_map_of_mem (List.mem_of_getLast? hlast))
    refine h.upTo last hlast e (by_contra fun hnew => ?_) hlisted hle
    exact absurd (hg.after hmem he hnew) (not_lt.mpr hle)
  complete := by
    intro hshort e he hlisted htip
    rcases hg.later e he with hold | hnew
    · exact h.complete hshort e hold hlisted htip
    · omega

end Veil
