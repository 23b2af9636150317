/-
# What the index shows of a run

The index follows the network from behind, and not ledger by ledger: a page may end inside a ledger,
and a seed reads one contract after the other.  So at any moment the tables may hold some events of
a ledger and lack others.

What can always be said is this (`Mirrored.shows`).  The stored events are those of a part of the
network's log, in its order.  The part begins with the whole log up to `indexed_ledger`; beyond
that, events may be missing, but none is invented and none is out of order.  Every answer that is
read off the tables is an answer for that part of the log.

Section 3 reads the two tables that single values are looked up in: the spends (`Shows.spends`) and
the registered keys (`Places.registrations`).  `Api/Lookups.lean` is about the lookups.
-/
import Veil.Indexer.NoFalseAlarm

namespace Veil

open Tx

/-- The keys an event announces. -/
def PoolEvent.account? : PoolEvent → Option Account
  | .publicKey owner encryptionKey noteKey => some ⟨owner, encryptionKey, noteKey⟩
  | _ => none

namespace Network

open Indexing

variable {ρ : Type}

/-! ## 1. A part of a placed log -/

section Parts

variable {c : Contracts} {log early late : List (Nat × Emission)} {events : List EmittedEvent}

/-- Keeping some of the events keeps the emissions they were placed for. -/
theorem Places.filter (h : Places c log events) (p : EmittedEvent → Bool) :
    ∃ kept, kept.Sublist log ∧ Places c kept (events.filter p) := by
  induction h with
  | nil => exact ⟨[], .slnil, .nil⟩
  | @cons x e log events hx _ ih =>
    obtain ⟨kept, hkept, hplaces⟩ := ih
    by_cases hp : p e = true
    · rw [List.filter_cons_of_pos hp]
      exact ⟨x :: kept, hkept.cons_cons x, .cons hx hplaces⟩
    · rw [List.filter_cons_of_neg hp]
      exact ⟨kept, hkept.cons x, hplaces⟩

theorem Places.split : ∀ {early : List (Nat × Emission)} {events : List EmittedEvent},
    Places c (early ++ late) events →
    ∃ first rest, events = first ++ rest ∧ Places c early first ∧ Places c late rest
  | [], events, h => ⟨[], events, rfl, .nil, h⟩
  | x :: early, _, h => by
    rw [List.cons_append] at h
    cases h with
    | @cons _ e _ events hx h =>
      obtain ⟨first, rest, rfl, hfirst, hrest⟩ := Places.split h
      exact ⟨e :: first, rest, rfl, .cons hx hfirst, hrest⟩

/-- Every placed event has its emission, and every emission its event. -/
theorem Places.emission (h : Places c log events) {e : EmittedEvent} (he : e ∈ events) :
    ∃ x ∈ log, PlacedAt c x e := by
  obtain ⟨k, hk, rfl⟩ := List.mem_iff_getElem.mp he
  have hlog : k < log.length := h.length_eq ▸ hk
  exact ⟨log[k], List.getElem_mem hlog, h.get hlog hk⟩

end Parts

/-! ## 2. An indexed run -/

/-- **An indexed run**: both contracts from their deployment through `calls`, in the order of their
ledgers, and an indexer that came to `w` over what they emitted.  In `reaches` the sources are
honest, RPC still has the first ledger of every request, and following starts through `rpc_start`:
`sync` with a start ledger of its own, which skips `rpc_start`, is no such run. -/
structure Mirrored (ix : Indexer) (L M : Nat) (n : Network ρ) (calls : List (Sent ρ)) (w : World) :
    Prop where
  fresh : Fresh L M n
  hosted : ∀ x ∈ calls, x.call.Hosted ix.contracts
  ordered : calls.Pairwise fun x y => x.ledger ≤ y.ledger
  reaches : ∃ history, Reaches ix 0 (.fresh history) w
  places : Places ix.contracts (run exec calls n).log w.history.events

/-- **The store shows `log`**, a part of `now` that begins with `past`. -/
structure Shows (c : Contracts) (past now log : List (Nat × Emission)) (s : Store) : Prop where
  begins : past <+: log
  within : log.Sublist now
  fits : ∀ x ∈ now, x.2.Fits c
  sound : s.Sound
  stored : ∃ events, Places c log events ∧ s.stored.Perm events ∧
    events.Pairwise fun a b => a.position < b.position

section Runs

variable {ix : Indexer} {L M : Nat} {n : Network ρ} {calls : List (Sent ρ)} {w : World}

theorem Mirrored.announces (h : Mirrored ix L M n calls w) :
    Announces ix.contracts L M (accepted exec calls n) (run exec calls n) :=
  h.fresh.announces_run h.hosted

theorem Mirrored.announces_upTo (h : Mirrored ix L M n calls w) (S : Nat) :
    Announces ix.contracts L M (accepted exec (upTo S calls) n) (run exec (upTo S calls) n) :=
  h.fresh.announces_run fun x hx => h.hosted x (List.mem_filter.mp hx).1

theorem Mirrored.consistent (h : Mirrored ix L M n calls w) :
    Consistent w.history w.reported w.store := by
  obtain ⟨history, hrun⟩ := h.reaches
  exact consistent_of_reaches (fun e he =>
    Places.emit h.places h.announces.fits e ((kept_of_reaches hrun).subset he)) hrun

/-- The log up to a ledger comes first, and the rest is of later ledgers. -/
theorem Mirrored.log_split (h : Mirrored ix L M n calls w) (S : Nat) :
    ∃ late, (run exec calls n).log = (run exec (upTo S calls) n).log ++ late ∧
      ∀ x ∈ (run exec (upTo S calls) n).log, x.1 ≤ S := by
  obtain ⟨late, hlate, -⟩ := run_log (calls.filter fun x => ¬x.ledger ≤ S)
    (run exec (upTo S calls) n)
  rw [← run_append, upTo_append S h.ordered] at hlate
  refine ⟨late, hlate, fun x hx => ?_⟩
  rw [log_asOf h.fresh.log h.ordered S] at hx
  exact of_decide_eq_true (List.mem_filter.mp hx).2

/-- **The index shows a part of the log that begins with the log up to `indexed_ledger`.** -/
theorem Mirrored.shows (h : Mirrored ix L M n calls w) :
    ∃ log, Shows ix.contracts (run exec (upTo (Verify.indexedLedger w.store) calls) n).log
      (run exec calls n).log log w.store := by
  have hconsistent := h.consistent
  have hhistory := h.places
  obtain ⟨late, hlog, hearly⟩ := h.log_split (Verify.indexedLedger w.store)
  rw [hlog] at hhistory
  obtain ⟨first, rest, hevents, hfirst, hrest⟩ := Places.split hhistory
  obtain ⟨kept, hkept, hplaces⟩ := Places.filter hrest fun e => e ∈ w.store.stored
  -- what lies before `indexed_ledger` is stored
  have hstored : ∀ e ∈ first, e ∈ w.store.stored := by
    intro e he
    obtain ⟨x, hx, hplaced⟩ := hfirst.emission he
    refine hconsistent.indexed (hevents ▸ List.mem_append_left _ he) ?_
    rw [hplaced.1]
    exact hearly x hx
  have hall : first.filter (fun e => e ∈ w.store.stored) = first := by
    rw [List.filter_eq_self]
    intro e he
    exact decide_eq_true (hstored e he)
  have hfilter : w.history.events.filter (fun e => e ∈ w.store.stored) =
      first ++ rest.filter fun e => e ∈ w.store.stored := by
    rw [hevents, List.filter_append, hall]
  refine ⟨_, List.prefix_append _ kept, ?_, h.announces.fits, hconsistent.sound,
    first ++ rest.filter (fun e => e ∈ w.store.stored), ?_, ?_, ?_⟩
  · rw [hlog]
    exact hkept.append_left _
  · exact List.rel_append hfirst hplaces
  · rw [← hfilter, List.perm_ext_iff_of_nodup hconsistent.sound.once.of_map
      (w.history.nodup.filter _)]
    intro e
    simp only [List.mem_filter, decide_eq_true_eq]
    exact ⟨fun he => ⟨hconsistent.genuine e he, he⟩, And.right⟩
  · rw [← hfilter]
    exact w.history.sorted.filter _

end Runs

/-! ## 3. The tables -/

section Tables

variable {c : Contracts} {past now log : List (Nat × Emission)} {s : Store}

/-- The rows of the index and those of the events it shows are the same. -/
theorem Shows.tables (h : Shows c past now log s) :
    ∃ events, Places c log events ∧ s.tables.Same (Tables.of events) ∧
      events.Pairwise (fun a b => a.position < b.position) := by
  obtain ⟨events, hplaces, hperm, hsorted⟩ := h.stored
  exact ⟨events, hplaces, h.sound.tables ▸ Tables.same_of_perm hperm, hsorted⟩

theorem Shows.fits_log (h : Shows c past now log s) : ∀ x ∈ log, x.2.Fits c := fun x hx =>
  h.fits x (h.within.subset hx)

/-- The nullifier an emission announces, with its ledger. -/
def spend? (x : Nat × Emission) : Option (Nat × Nat) :=
  (x.2.pool?.bind PoolEvent.nullifier?).map (Prod.mk x.1)

/-- The columns of `pool_nullifiers` with the ledger. -/
theorem Places.spends {events : List EmittedEvent} (h : Places c log events)
    (hfits : ∀ x ∈ log, x.2.Fits c) :
    (Tables.of events).nullifiers.map (fun r => (r.pool, r.ledger, r.nullifier)) =
      (log.filterMap spend?).map (Prod.mk c.pool) := by
  rw [List.map_filterMap]
  refine columns_of_places (fun x => (spend? x).map (Prod.mk c.pool)) ?_ hfits h
  rintro ⟨ledger, x⟩ e hx hf
  rw [hx.rows hf]
  obtain ⟨hledger, hc, -⟩ := hx
  cases x with
  | pool event =>
    cases event <;> simp [Emission.toVeil, PoolEvent.toVeil, VeilEvent.rows, Tables.empty,
      Emission.pool?, PoolEvent.nullifier?, spend?, hc, hledger, Emission.emitter]
  | allowlist event =>
    cases event <;> simp [Emission.toVeil, AspEvent.toVeil, VeilEvent.rows, Tables.empty,
      Emission.pool?, spend?]

/-- Keys an owner announced, with the ledger of the announcement. -/
structure Registration where
  ledger : Nat
  account : Account
  deriving DecidableEq

def registration? (x : Nat × Emission) : Option Registration :=
  (x.2.pool?.bind PoolEvent.account?).map (Registration.mk x.1)

/-- The columns of `pool_public_keys`. -/
theorem Places.registrations {events : List EmittedEvent} (h : Places c log events)
    (hfits : ∀ x ∈ log, x.2.Fits c) :
    (Tables.of events).publicKeys.map
        (fun r => (r.pool, Registration.mk r.ledger ⟨r.owner, r.encryptionKey, r.noteKey⟩)) =
      (log.filterMap registration?).map (Prod.mk c.pool) := by
  rw [List.map_filterMap]
  refine columns_of_places (fun x => (registration? x).map (Prod.mk c.pool)) ?_ hfits h
  rintro ⟨ledger, x⟩ e hx hf
  rw [hx.rows hf]
  obtain ⟨hledger, hc, -⟩ := hx
  cases x with
  | pool event =>
    cases event <;> simp [Emission.toVeil, PoolEvent.toVeil, VeilEvent.rows, Tables.empty,
      Emission.pool?, PoolEvent.account?, registration?, hc, hledger, Emission.emitter]
  | allowlist event =>
    cases event <;> simp [Emission.toVeil, AspEvent.toVeil, VeilEvent.rows, Tables.empty,
      Emission.pool?, registration?]

/-- **The spends in the index** are those of the part of the log it shows. -/
theorem Shows.spends (h : Shows c past now log s) :
    (s.tables.nullifiers.map fun r => (r.pool, r.ledger, r.nullifier)).Perm
      ((log.filterMap spend?).map (Prod.mk c.pool)) := by
  obtain ⟨events, hplaces, hsame, -⟩ := h.tables
  rw [← hplaces.spends h.fits_log]
  exact hsame.nullifiers.map _

end Tables

/-! ## 4. A network for a log, and an indexer for it

Every log of a run has a placing: each event in the first operation of its ledger, numbered
through.  An indexer that is seeded before the first event and then reads one page has it. -/

/-- The events of a log, numbered from `k` on. -/
def placed (c : Contracts) : Nat → List (Nat × Emission) → List EmittedEvent
  | _, [] => []
  | k, x :: log =>
    ⟨.firstOperation x.1 k, x.2.emitter c, x.2.encode⟩ :: placed c (k + 1) log

/-- Ledgers in order, and numbers that fit. -/
structure Placeable (log : List (Nat × Emission)) : Prop where
  ordered : log.Pairwise fun x y => x.1 ≤ y.1
  ledgers : ∀ x ∈ log, 0 < x.1 ∧ x.1 < 2 ^ 31
  length : log.length < 2 ^ 31

section Placing

variable {c : Contracts}

theorem ledger_firstOperation {l i : Nat} (h : l < 2 ^ 31) :
    (EventPosition.firstOperation l i).ledger = l := by
  unfold EventPosition.firstOperation EventPosition.ledger
  dsimp only
  omega

theorem places_placed : ∀ {log : List (Nat × Emission)} (k : Nat), (∀ x ∈ log, x.1 < 2 ^ 31) →
    Places c log (placed c k log)
  | [], _, _ => .nil
  | x :: _, k, h => .cons ⟨ledger_firstOperation (h x List.mem_cons_self), rfl, rfl⟩
    (places_placed (k + 1) fun y hy => h y (List.mem_cons_of_mem _ hy))

theorem mem_placed : ∀ {log : List (Nat × Emission)} {k : Nat} {e : EmittedEvent},
    e ∈ placed c k log → ∃ x ∈ log, ∃ i, k ≤ i ∧ i < k + log.length ∧
      e = ⟨.firstOperation x.1 i, x.2.emitter c, x.2.encode⟩
  | [], _, _, h => by cases h
  | x :: log, k, e, h => by
    rcases List.mem_cons.mp h with rfl | h
    · exact ⟨x, List.mem_cons_self, k, le_refl k, by simp, rfl⟩
    · obtain ⟨y, hy, i, hle, hlt, rfl⟩ := mem_placed h
      exact ⟨y, List.mem_cons_of_mem _ hy, i, by omega, by rw [List.length_cons]; omega, rfl⟩

theorem placed_sorted : ∀ {log : List (Nat × Emission)} {k : Nat},
    log.Pairwise (fun x y => x.1 ≤ y.1) → (∀ x ∈ log, x.1 < 2 ^ 31) →
    k + log.length ≤ 2 ^ 31 → (placed c k log).Pairwise fun a b => a.position < b.position
  | [], _, _, _, _ => .nil
  | x :: log, k, hordered, hledgers, hlength => by
    rw [List.pairwise_cons] at hordered
    rw [List.length_cons] at hlength
    refine List.pairwise_cons.mpr ⟨fun e he => ?_, placed_sorted hordered.2
      (fun y hy => hledgers y (List.mem_cons_of_mem _ hy)) (by omega)⟩
    obtain ⟨y, hy, i, hle, hlt, rfl⟩ := mem_placed he
    have hxy := hordered.1 y hy
    have hx := hledgers x List.mem_cons_self
    have hy := hledgers y (List.mem_cons_of_mem _ hy)
    rw [EventPosition.lt_iff]
    unfold EventPosition.firstOperation
    dsimp only
    omega

/-- The placing as a history of two contracts. -/
def Placeable.history {log : List (Nat × Emission)} (h : Placeable log) (pool allowlist : Nat) :
    History where
  events := placed ⟨.contract pool, .contract allowlist⟩ 0 log
  sorted := placed_sorted h.ordered (fun x hx => (h.ledgers x hx).2) (by have := h.length; omega)
  storable := by
    intro e he
    obtain ⟨x, hx, i, -, hi, rfl⟩ := mem_placed he
    have hledgers := h.ledgers x hx
    have hlength := h.length
    refine ⟨?_, ?_, ?_, ?_⟩
    · unfold EventPosition.firstOperation
      dsimp only
      omega
    · unfold EventPosition.firstOperation
      dsimp only
      omega
    · exact (ledger_firstOperation (i := i) hledgers.2).symm ▸ hledgers.1
    · cases x.2 <;> rfl

end Placing

end Network

end Veil
