/-
# When a write succeeds

`Store.lean` says what a successful `write_batch` did.  This module says when it succeeds.  An event
that fits its columns is refused for one of three reasons only: its position is taken by another
event, its tree index or its nullifier was claimed by another event (`Tables.Admits`), or it is an
allowlist addition whose index does not fit the signed column (`EmittedEvent.Indexed`).

`insertEvent_fresh` is the case of a new event, `insertEvents_fresh` that of a batch of events that
admit each other.
-/
import Veil.Indexer.Store

namespace Veil

open Tx

/-! ## 1. Positions in the tables -/

/-- Every row of every table sits at a position with `P`. -/
structure Tables.Forall (P : EventPosition → Prop) (t : Tables) : Prop where
  commitments : ∀ r ∈ t.commitments, P r.position
  nullifiers : ∀ r ∈ t.nullifiers, P r.position
  settlements : ∀ r ∈ t.settlements, P r.position
  exits : ∀ r ∈ t.exits, P r.position
  legacyDeposits : ∀ r ∈ t.legacyDeposits, P r.position
  publicKeys : ∀ r ∈ t.publicKeys, P r.position
  allowlist : ∀ r ∈ t.allowlist, P r.position

variable {P Q : EventPosition → Prop}

theorem Tables.forall_empty : Tables.empty.Forall P := by
  constructor <;> simp [Tables.empty]

theorem Tables.Forall.imp {t : Tables} (h : t.Forall P) (hPQ : ∀ p, P p → Q p) : t.Forall Q where
  commitments := fun r hr => hPQ _ (h.commitments r hr)
  nullifiers := fun r hr => hPQ _ (h.nullifiers r hr)
  settlements := fun r hr => hPQ _ (h.settlements r hr)
  exits := fun r hr => hPQ _ (h.exits r hr)
  legacyDeposits := fun r hr => hPQ _ (h.legacyDeposits r hr)
  publicKeys := fun r hr => hPQ _ (h.publicKeys r hr)
  allowlist := fun r hr => hPQ _ (h.allowlist r hr)

theorem VeilEvent.rows_position (event : EmittedEvent) (veil : VeilEvent) :
    (veil.rows event).Forall (· = event.position) := by
  cases veil <;> constructor <;> simp [VeilEvent.rows, Tables.empty]

/-- **A typed row sits at the position of its event.** -/
theorem EmittedEvent.rows_position (e : EmittedEvent) : e.rows.Forall (· = e.position) := by
  unfold EmittedEvent.rows
  cases e.raw.decode with
  | error => exact Tables.forall_empty
  | ok decoded =>
    cases decoded with
    | event veil => exact veil.rows_position e
    | ignored name => exact Tables.forall_empty

theorem Tables.forall_of {events : List EmittedEvent} (h : ∀ e ∈ events, P e.position) :
    (Tables.of events).Forall P := by
  have hrows : ∀ e ∈ events, e.rows.Forall P := fun e he =>
    e.rows_position.imp fun p hp => hp ▸ h e he
  constructor <;> intro r hr <;> obtain ⟨e, he, hr⟩ := List.mem_flatMap.mp hr
  exacts [(hrows e he).commitments r hr, (hrows e he).nullifiers r hr,
    (hrows e he).settlements r hr, (hrows e he).exits r hr, (hrows e he).legacyDeposits r hr,
    (hrows e he).publicKeys r hr, (hrows e he).allowlist r hr]

/-! ## 2. One event -/

/-- The rows of `b` claim no tree index and no nullifier that one of `a` has. -/
structure Tables.Admits (a b : Tables) : Prop where
  leaves : ∀ r ∈ b.commitments, ∀ x ∈ a.commitments, ¬(x.pool = r.pool ∧ x.leafIndex = r.leafIndex)
  nullifiers : ∀ r ∈ b.nullifiers, ∀ x ∈ a.nullifiers,
    ¬(x.pool = r.pool ∧ x.nullifier = r.nullifier)

/-- The allowlist indices fit a signed 64-bit column. -/
def Tables.Indexed (t : Tables) : Prop := ∀ r ∈ t.allowlist, ∀ i ∈ r.leafIndex, i < 2 ^ 63

/-- What a store accepts at a free position: decodable, fit for the columns. -/
structure EmittedEvent.Storing (e : EmittedEvent) : Prop where
  storable : e.Storable
  decodes : ∃ decoded, e.raw.decode = .ok decoded
  indexed : e.rows.Indexed

namespace Store

theorem insertRow_accepts {α : Type} {rows : List α} {row : α} :
    ∀ {unique : List (Constraint × (α → Bool))}, (∀ u ∈ unique, ∀ x ∈ rows, u.2 x = false) →
    insertRow rows row unique = .ok (rows ++ [row])
  | [], _ => rfl
  | u :: unique, h => by
    have hclash : rows.any u.2 = false := by
      rw [List.any_eq_false]
      intro x hx
      simp [h u List.mem_cons_self x hx]
    rw [insertRow, ensure_pos hclash, ok_bind]
    exact insertRow_accepts fun v hv => h v (List.mem_cons_of_mem _ hv)

/-- A table whose only key is the position. -/
theorem insertRow_position {α : Type} {rows : List α} {row : α} {position : α → EventPosition}
    {p : EventPosition} (hfree : ∀ r ∈ rows, position r ≠ p) :
    insertRow rows row [(.primaryKey, (position · = p))] = .ok (rows ++ [row]) := by
  refine insertRow_accepts fun u hu x hx => ?_
  obtain rfl := List.mem_singleton.mp hu
  simpa using hfree x hx

/-- A table with one more key. -/
theorem insertRow_unique {α : Type} {rows : List α} {row : α} {position : α → EventPosition}
    {p : EventPosition} {violated : Constraint} {clash : α → Bool}
    (hfree : ∀ r ∈ rows, position r ≠ p) (hclash : ∀ r ∈ rows, clash r = false) :
    insertRow rows row [(.primaryKey, (position · = p)), (violated, clash)] =
      .ok (rows ++ [row]) := by
  refine insertRow_accepts fun u hu x hx => ?_
  rcases List.mem_cons.mp hu with rfl | hu
  · simpa using hfree x hx
  · obtain rfl := List.mem_singleton.mp hu
    exact hclash x hx

theorem insertTyped_accepts {event : EmittedEvent} {veil : VeilEvent} {t : Tables}
    (hfree : t.Forall (· ≠ event.position)) (hadmits : t.Admits (veil.rows event))
    (hindexed : (veil.rows event).Indexed) : ∃ t', insertTyped event veil t = .ok t' := by
  cases veil with
  | newCommitment commitment index encryptedOutput =>
    have hleaf := hadmits.leaves _ List.mem_cons_self
    exact ⟨_, bind_eq_ok.mpr ⟨_, insertRow_unique hfree.commitments
      fun r hr => decide_eq_false (hleaf r hr), rfl⟩⟩
  | newNullifier nullifier =>
    have hnullifier := hadmits.nullifiers _ List.mem_cons_self
    exact ⟨_, bind_eq_ok.mpr ⟨_, insertRow_unique hfree.nullifiers
      fun r hr => decide_eq_false (hnullifier r hr), rfl⟩⟩
  | settlement fields =>
    exact ⟨_, bind_eq_ok.mpr ⟨_, insertRow_position hfree.settlements, rfl⟩⟩
  | exit fields => exact ⟨_, bind_eq_ok.mpr ⟨_, insertRow_position hfree.exits, rfl⟩⟩
  | legacyDeposit deposit =>
    have hleaf := hadmits.leaves _ List.mem_cons_self
    exact ⟨_, bind_eq_ok.mpr ⟨_, insertRow_unique hfree.commitments
      fun r hr => decide_eq_false (hleaf r hr),
      bind_eq_ok.mpr ⟨_, insertRow_position hfree.legacyDeposits, rfl⟩⟩⟩
  | publicKey owner encryptionKey noteKey =>
    exact ⟨_, bind_eq_ok.mpr ⟨_, insertRow_position hfree.publicKeys, rfl⟩⟩
  | leafAdded leaf index root =>
    have hindex : index < 2 ^ 63 := hindexed _ List.mem_cons_self index rfl
    exact ⟨_, bind_eq_ok.mpr ⟨_, ensure_pos hindex _,
      bind_eq_ok.mpr ⟨_, insertRow_position hfree.allowlist, rfl⟩⟩⟩
  | leafRevoked leaf root =>
    exact ⟨_, bind_eq_ok.mpr ⟨_, insertRow_position hfree.allowlist, rfl⟩⟩

theorem checkColumns_accepts {e : EmittedEvent} (h : e.Storable) : checkColumns e = .ok () := by
  have hledger : e.position.ledger < 2 ^ 31 := by
    have := h.toid
    unfold EventPosition.ledger
    omega
  have htoid : e.position.toid > 0 := by
    have := h.ledger
    unfold EventPosition.ledger at this
    omega
  simp only [checkColumns, toid, eventIndex, ledger, bind_eq_ok, ensure_eq_ok]
  exact ⟨(), h.toid, (), h.eventIndex, (), hledger, (), htoid, (), h.ledger, h.contract⟩

variable {s s' : Store} {st : StoredEvent}

/-- **A new event is stored** unless it claims what another event has. -/
theorem insertEvent_fresh (hs : s.Sound) (hstoring : st.event.toEmittedEvent.Storing)
    (hfree : ∀ e ∈ s.stored, e.position ≠ st.event.position)
    (hadmits : s.tables.Admits st.event.toEmittedEvent.rows) :
    ∃ s', insertEvent st s = .ok (true, s') ∧
      s'.stored = s.stored ++ [st.event.toEmittedEvent] := by
  have hrows : st.event.toEmittedEvent.rows = st.decoded.rows st.event.toEmittedEvent := by
    rw [EmittedEvent.rows, st.decodes]
  have hfind : (s.events.find? fun row => row.position = st.event.position) = none := by
    refine List.find?_eq_none.mpr fun row hrow => ?_
    simpa using hfree _ (mem_stored.mpr ⟨row, hrow, rfl⟩)
  have htables : s.tables.Forall (· ≠ st.event.position) := hs.tables ▸ Tables.forall_of hfree
  obtain ⟨t, ht⟩ : ∃ t, insertDecoded st.event.toEmittedEvent st.decoded s.tables = .ok t := by
    have hindexed := hstoring.indexed
    rw [hrows] at hadmits hindexed
    cases hd : st.decoded with
    | ignored name => exact ⟨_, rfl⟩
    | event veil =>
      rw [hd] at hadmits hindexed
      exact insertTyped_accepts htables hadmits hindexed
  have hinsert : insertUnlessStored st s none = .ok (true, _) := bind_eq_ok.mpr ⟨t, ht, rfl⟩
  rw [← hfind] at hinsert
  exact ⟨_, bind_eq_ok.mpr ⟨(), checkColumns_accepts hstoring.storable, hinsert⟩, List.map_append⟩

/-! ## 3. A batch -/

/-- Two events that may be stored one after the other. -/
def Compatible (a b : EmittedEvent) : Prop := a.position ≠ b.position ∧ a.rows.Admits b.rows

theorem admits_of {events : List EmittedEvent} {t : Tables}
    (h : ∀ e ∈ events, e.rows.Admits t) : (Tables.of events).Admits t where
  leaves := by
    intro r hr x hx
    obtain ⟨e, he, hx⟩ := List.mem_flatMap.mp hx
    exact (h e he).leaves r hr x hx
  nullifiers := by
    intro r hr x hx
    obtain ⟨e, he, hx⟩ := List.mem_flatMap.mp hx
    exact (h e he).nullifiers r hr x hx

/-- **New events that are compatible with each other and with what is stored** are stored, all of
them. -/
theorem insertEvents_fresh : ∀ {batch : List StoredEvent} {o : BatchOutcome} {s : Store}, s.Sound →
    (∀ st ∈ batch, st.event.toEmittedEvent.Storing) →
    (s.stored ++ batch.map (·.event.toEmittedEvent)).Pairwise Compatible →
    ∃ o' s', insertEvents batch o s = .ok (o', s') ∧
      s'.stored = s.stored ++ batch.map (·.event.toEmittedEvent)
  | [], o, s, _, _, _ => ⟨o, s, rfl, (List.append_nil _).symm⟩
  | st :: batch, o, s, hs, hstoring, hpair => by
    have hst : ∀ e ∈ s.stored, Compatible e st.event.toEmittedEvent := by
      intro e he
      exact (List.pairwise_append.mp hpair).2.2 e he _ (List.mem_map_of_mem List.mem_cons_self)
    obtain ⟨s1, h1, hstored1⟩ := insertEvent_fresh hs (hstoring st List.mem_cons_self)
      (fun e he => (hst e he).1) (hs.tables ▸ admits_of fun e he => (hst e he).2)
    have hpair1 : (s1.stored ++ batch.map (·.event.toEmittedEvent)).Pairwise Compatible := by
      rw [hstored1, List.append_assoc]
      exact hpair
    obtain ⟨o', s', hrest, hstored⟩ := insertEvents_fresh (insertEvent_ok hs h1).1
      (fun x hx => hstoring x (List.mem_cons_of_mem _ hx)) hpair1
    refine ⟨o', s', bind_eq_ok.mpr ⟨_, h1, hrest⟩, ?_⟩
    rw [hstored, hstored1, List.append_assoc]
    rfl

end Store

end Veil
