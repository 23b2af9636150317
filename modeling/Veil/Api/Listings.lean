/-
# The API's listings, page by page

`services/api/src/routes.rs`: `GET /v1/pool/leaves`, `GET /v1/notes` and
`GET /v1/allowlist/entries`.  Each handler asks the query for one item more than the page holds, and
gives a cursor for the next page if it got it.

A leaf page is cut from leaves that are not all rows: a legacy deposit at position `i` also filled
`i + 1`, without a row.  The query therefore starts one row early and filters, and the row it
starts with may be the one that contributes nothing.  `poolLeaves_eq` says that the page is right
all the same, wherever it begins.

Section 3 is the walk.  The three listings are instances of `Paging.Serves`, and
`Paging.Serves.reconstructs` does the rest.
-/
import Veil.Api.Queries
import Veil.Core.Paging

namespace Veil

namespace Api

open Tx

/-! ## 1. The handlers -/

/-- Largest page any listing returns. -/
def maxPage : Nat := 1000

def defaultPage : Nat := 100

def pageSize (limit : Option Nat) : Except ApiError Nat := do
  let limit := limit.getD defaultPage
  ensure (1 ≤ limit ∧ limit ≤ maxPage) (.badRequest s!"limit must be 1 to {maxPage}")
  .ok limit

structure IndexPage where
  /-- First leaf index to return (inclusive).  Default 0. -/
  cursor : Option Nat
  limit : Option Nat

structure EventPage where
  /-- Return changes after this event position.  Default: from the start. -/
  cursor : Option (List Char)
  limit : Option Nat

/-- One position of the pool's tree. -/
structure Leaf where
  leafIndex : Nat
  commitment : String
  origin : String
  ledger : Nat
  deriving DecidableEq, Repr

structure LeafPage where
  items : List Leaf
  nextCursor : Option Nat
  indexedLedger : Option Nat

/-- An encrypted note, for recipients to try to decrypt. -/
structure Note where
  leafIndex : Nat
  commitment : String
  encryptedOutput : String
  ledger : Nat
  deriving DecidableEq, Repr

structure NotePage where
  items : List Note
  nextCursor : Option Nat
  indexedLedger : Option Nat

structure AllowlistEntry where
  kind : AllowlistKind
  leaf : String
  leafIndex : Option Nat
  root : String
  ledger : Nat
  event : List Char
  deriving DecidableEq, Repr

structure AllowlistPage where
  items : List AllowlistEntry
  nextCursor : Option (List Char)
  indexedLedger : Option Nat

def PoolLeaf.toLeaf (leaf : PoolLeaf) : Leaf :=
  ⟨leaf.index, Verify.displayU256 leaf.value, leaf.origin, leaf.ledger⟩

def toNote : Nat × Nat × List UInt8 × Nat → Note
  | (leafIndex, commitment, note, ledger) =>
    ⟨leafIndex, Verify.displayU256 commitment, hex note, ledger⟩

def toEntry (row : AllowlistRow) : AllowlistEntry :=
  ⟨row.kind, Verify.displayU256 row.leaf, row.leafIndex, Verify.displayU256 row.root, row.ledger,
    row.position.display⟩

namespace Routes

/-- `GET /v1/pool/leaves`. -/
def poolLeaves (db : Database) (pool : Address) (page : IndexPage) : Except ApiError LeafPage := do
  let limit ← pageSize page.limit
  let first := page.cursor.getD 0
  let leaves := Api.poolLeaves db pool first (some (limit + 1))
  let (leaves, nextCursor) := Paging.cut (fun leaf => leaf.index + 1) leaves limit
  .ok { items := leaves.map PoolLeaf.toLeaf
        nextCursor := nextCursor
        indexedLedger := indexedLedger db }

/-- `GET /v1/notes`. -/
def notes (db : Database) (pool : Address) (page : IndexPage) : Except ApiError NotePage := do
  let limit ← pageSize page.limit
  let rows := Api.notes db pool (page.cursor.getD 0) (limit + 1)
  let (rows, nextCursor) := Paging.cut (fun row => row.1 + 1) rows limit
  .ok { items := rows.map toNote
        nextCursor := nextCursor
        indexedLedger := indexedLedger db }

/-- The position a cursor names. -/
def parseCursor : Option (List Char) → Except ApiError (Option EventPosition)
  | none => .ok none
  | some cursor =>
    match EventPosition.fromStr cursor with
    | .ok position => .ok (some position)
    | .error _ => .error (.badRequest "cursor must be an event position")

/-- `GET /v1/allowlist/entries`. -/
def allowlistEntries (db : Database) (allowlist : Address) (page : EventPage) :
    Except ApiError AllowlistPage := do
  let limit ← pageSize page.limit
  let after ← parseCursor page.cursor
  let rows := Api.allowlist db allowlist after (some (limit + 1))
  let (rows, nextCursor) := Paging.cut (fun row => row.position.display) rows limit
  .ok { items := rows.map toEntry
        nextCursor := nextCursor
        indexedLedger := indexedLedger db }

end Routes

/-! ## 2. What the queries return -/

theorem exists_rowLeaves (row : CommitmentRow) :
    ∃ leaf ∈ rowLeaves row, leaf.index = row.leafIndex := by
  unfold rowLeaves
  split <;> simp

theorem rowLeaves_ne_nil (row : CommitmentRow) : rowLeaves row ≠ [] := by
  obtain ⟨leaf, hleaf, -⟩ := exists_rowLeaves row
  exact List.ne_nil_of_mem hleaf

/-- The leaves of a row stand at its index and, if it is a deposit, at the next one. -/
theorem mem_rowLeaves {row : CommitmentRow} {leaf : PoolLeaf} (h : leaf ∈ rowLeaves row) :
    row.leafIndex ≤ leaf.index ∧ leaf.index ≤ row.leafIndex + 1 := by
  unfold rowLeaves at h
  split at h
  · rcases List.mem_cons.mp h with rfl | h
    · simp
    · obtain rfl := List.mem_singleton.mp h
      simp
  · obtain rfl := List.mem_singleton.mp h
    simp

/-- The rows fill the positions from `n` on without a gap. -/
def Contiguous : (n : Nat) → List CommitmentRow → Prop
  | _, [] => True
  | n, row :: rows => row.leafIndex = n ∧ Contiguous (n + (rowLeaves row).length) rows

/-- `rows` are the stored rows of the pool, in the order of the positions they fill.  The column of
the position is a `bigint`. -/
structure StoresPool (db : Database) (pool : Address) (rows : List CommitmentRow) : Prop where
  stored : (db.index.tables.commitments.filter fun r => r.pool = pool).Perm rows
  contiguous : Contiguous 0 rows
  fits : ∀ r ∈ rows, r.leafIndex ≤ i64Max

/-- `rows` are the stored changes of the allowlist, in event order. -/
structure StoresAllowlist (db : Database) (allowlist : Address) (rows : List AllowlistRow) :
    Prop where
  stored : (db.index.tables.allowlist.filter fun r => r.allowlist = allowlist).Perm rows
  sorted : rows.Pairwise fun r t => r.position < t.position
  fits : ∀ r ∈ rows, r.position.toid ≤ i64Max

/-- **Every position once.** -/
theorem Contiguous.map_index : ∀ {rows : List CommitmentRow} {n : Nat}, Contiguous n rows →
    (rows.flatMap rowLeaves).map (·.index) = List.range' n (rows.flatMap rowLeaves).length
  | [], _, _ => rfl
  | row :: rows, n, h => by
    obtain ⟨hrow, hrest⟩ := h
    have hhead : (rowLeaves row).map (·.index) = List.range' n (rowLeaves row).length := by
      unfold rowLeaves
      split <;> simp [hrow, List.range']
    rw [List.flatMap_cons, List.map_append, List.length_append, hhead, hrest.map_index,
      List.range'_append_1]

theorem Contiguous.le_leafIndex : ∀ {rows : List CommitmentRow} {n : Nat}, Contiguous n rows →
    ∀ r ∈ rows, n ≤ r.leafIndex
  | row :: rows, n, h, r, hr => by
    rcases List.mem_cons.mp hr with rfl | hr
    · exact h.1.ge
    · exact (Nat.le_add_right n _).trans (h.2.le_leafIndex r hr)

theorem Contiguous.sorted : ∀ {rows : List CommitmentRow} {n : Nat}, Contiguous n rows →
    rows.Pairwise fun r t => r.leafIndex < t.leafIndex
  | [], _, _ => .nil
  | row :: rows, n, h => by
    refine List.pairwise_cons.mpr ⟨fun r hr => ?_, h.2.sorted⟩
    have hle := h.2.le_leafIndex r hr
    have hpos := List.length_pos_of_ne_nil (rowLeaves_ne_nil row)
    have := h.1
    omega

theorem StoresPool.leaves_sorted {db : Database} {pool : Address} {rows : List CommitmentRow}
    (h : StoresPool db pool rows) :
    (rows.flatMap rowLeaves).Pairwise fun a b => a.index < b.index := by
  have hrange := List.pairwise_lt_range' (s := 0) (n := (rows.flatMap rowLeaves).length)
  rwa [← h.contiguous.map_index, List.pairwise_map] at hrange

/-- In a sorted list every element but the first has one before it. -/
theorem exists_lt_of_mem_tail {α : Type} {r : α → α → Prop} {l : List α} {a : α}
    (hsorted : l.Pairwise r) (ha : a ∈ l.tail) : ∃ head ∈ l, r head a := by
  cases l with
  | nil => cases ha
  | cons head l => exact ⟨head, List.mem_cons_self, (List.pairwise_cons.mp hsorted).1 a ha⟩

section Queries

variable {db : Database} {pool allowlistId : Address} {rows : List CommitmentRow}

/-- The rows a query selects from those of the pool, in order. -/
theorem StoresPool.select (h : StoresPool db pool rows) (p : CommitmentRow → Bool) :
    (db.index.tables.commitments.filter fun r => r.pool = pool ∧ p r = true).insertionSort
      (fun r t => r.leafIndex ≤ t.leafIndex) = rows.filter p := by
  have hperm : (db.index.tables.commitments.filter fun r => r.pool = pool ∧ p r = true).Perm
      (rows.filter p) := by
    have := h.stored.filter p
    rw [List.filter_filter] at this
    refine (List.Perm.of_eq (List.filter_congr fun r _ => ?_)).trans this
    simp [Bool.and_comm]
  exact Paging.insertionSort_eq hperm (h.contiguous.sorted.filter p)

/-- **A leaf query.**  Starting one row early and fetching one row more gives the leaves from
`first` on. -/
theorem StoresPool.poolLeaves_eq (h : StoresPool db pool rows) (first : Nat) {limit : Nat}
    (hlimit : limit + 1 ≤ i64Max) : poolLeaves db pool first (some limit) =
      ((rows.flatMap rowLeaves).filter fun leaf => leaf.index ≥ first).take limit := by
  set start := min (first - 1) i64Max with hstart
  set kept := rows.filter fun r => r.leafIndex ≥ start with hkept
  have hselect : (db.index.tables.commitments.filter fun r =>
      r.pool = pool ∧ r.leafIndex ≥ start).insertionSort
        (fun r t => r.leafIndex ≤ t.leafIndex) = kept := by
    have := h.select fun r => r.leafIndex ≥ start
    simpa using this
  -- a row before `start` has no leaf from `first` on
  have hdropped : (rows.flatMap rowLeaves).filter (fun leaf => leaf.index ≥ first) =
      kept.flatMap fun r => (rowLeaves r).filter fun leaf => leaf.index ≥ first := by
    rw [List.filter_flatMap, hkept, Paging.flatMap_filter]
    intro r _ hr
    rw [List.filter_eq_nil_iff]
    intro leaf hleaf hge
    have := (mem_rowLeaves hleaf).2
    have hlt : r.leafIndex < start := by simpa using hr
    have hge : first ≤ leaf.index := by simpa using hge
    omega
  -- every row after the first of the others has one
  have htail : ∀ r ∈ kept.tail, (rowLeaves r).filter (fun leaf => leaf.index ≥ first) ≠ [] := by
    intro r hr
    have hsorted : kept.Pairwise fun r t => r.leafIndex < t.leafIndex :=
      h.contiguous.sorted.filter _
    obtain ⟨head, hhead, hlt⟩ := exists_lt_of_mem_tail hsorted hr
    have hge : start ≤ head.leafIndex := by simpa using (List.mem_filter.mp hhead).2
    have hfits := h.fits r (List.mem_filter.mp (List.mem_of_mem_tail hr)).1
    obtain ⟨leaf, hleaf, hindex⟩ := exists_rowLeaves r
    have hfirst : leaf.index ≥ first := by omega
    exact List.ne_nil_of_mem (List.mem_filter.mpr ⟨hleaf, by simpa using hfirst⟩)
  unfold poolLeaves
  dsimp only [Option.elim]
  rw [hselect, Nat.min_eq_left hlimit, List.filter_flatMap,
    Paging.take_flatMap_take_succ _ htail, ← hdropped]

/-- **A note query.** -/
theorem StoresPool.notes_eq (h : StoresPool db pool rows) {first limit : Nat}
    (hfirst : first ≤ i64Max) (hlimit : limit ≤ i64Max) : notes db pool first limit =
      (((rows.filter fun r => r.origin = .transact).filter fun r => r.leafIndex ≥ first).map
        fun r => (r.leafIndex, r.commitment, r.encryptedOutput.getD [], r.ledger)).take limit := by
  have hselect : (db.index.tables.commitments.filter fun r =>
      r.pool = pool ∧ r.origin = .transact ∧ r.leafIndex ≥ first).insertionSort
        (fun r t => r.leafIndex ≤ t.leafIndex) =
      rows.filter fun r => r.origin = .transact ∧ r.leafIndex ≥ first := by
    have := h.select fun r => r.origin = .transact ∧ r.leafIndex ≥ first
    simpa using this
  unfold notes
  dsimp only
  rw [Nat.min_eq_left hfirst, Nat.min_eq_left hlimit, hselect, List.filter_filter, List.map_take]
  congr 3
  funext r
  simp [Bool.and_comm]

variable {changes : List AllowlistRow}

theorem StoresAllowlist.select (h : StoresAllowlist db allowlistId changes)
    (after : Option EventPosition) :
    (db.index.tables.allowlist.filter fun r =>
      r.allowlist = allowlistId ∧ isAfter after r.position).insertionSort
        (fun r t => r.position ≤ t.position) =
      changes.filter fun r => isAfter after r.position := by
  have hperm : (db.index.tables.allowlist.filter fun r =>
      r.allowlist = allowlistId ∧ isAfter after r.position).Perm
        (changes.filter fun r => isAfter after r.position) := by
    have := h.stored.filter fun r => isAfter after r.position
    rw [List.filter_filter] at this
    refine (List.Perm.of_eq (List.filter_congr fun r _ => ?_)).trans this
    simp [Bool.and_comm]
  exact Paging.insertionSort_eq hperm (h.sorted.filter _)

/-- **An allowlist query.** -/
theorem StoresAllowlist.allowlist_eq (h : StoresAllowlist db allowlistId changes)
    (after : Option EventPosition) {limit : Nat} (hlimit : limit ≤ i64Max) :
    allowlist db allowlistId after (some limit) =
      (changes.filter fun r => isAfter after r.position).take limit := by
  unfold allowlist
  dsimp only [Option.elim]
  rw [h.select after, Nat.min_eq_left hlimit]

/-- After a stored change come those at later positions. -/
theorem isAfter_some {p q : EventPosition} (hp : p.toid ≤ i64Max) :
    isAfter (some p) q = true ↔ p < q := by
  rw [isAfter, Option.all_some, Nat.min_eq_left hp, decide_eq_true_eq, EventPosition.lt_iff]

end Queries

/-! ## 3. The walk -/

theorem pageSize_ok {limit : Option Nat} (h : ∀ l ∈ limit, 1 ≤ l ∧ l ≤ maxPage) :
    pageSize limit = .ok (limit.getD defaultPage) ∧ 1 ≤ limit.getD defaultPage ∧
      limit.getD defaultPage + 2 ≤ i64Max := by
  have hsize : 1 ≤ limit.getD defaultPage ∧ limit.getD defaultPage ≤ maxPage := by
    cases limit with
    | none => exact ⟨by decide, by decide⟩
    | some l => exact h l rfl
  refine ⟨?_, hsize.1, ?_⟩
  · rw [pageSize, ensure_pos hsize, ok_bind]
  · have := hsize.2
    unfold maxPage at this
    unfold i64Max
    omega

/-- The tree positions the rows fill, as the API shows them. -/
def leavesOf (rows : List CommitmentRow) : List Leaf :=
  (rows.flatMap rowLeaves).map PoolLeaf.toLeaf

/-- The notes of the `transact` rows. -/
def notesOf (rows : List CommitmentRow) : List Note :=
  ((rows.filter fun r => r.origin = .transact).map fun r =>
    (r.leafIndex, r.commitment, r.encryptedOutput.getD [], r.ledger)).map toNote

def entriesOf (changes : List AllowlistRow) : List AllowlistEntry := changes.map toEntry

/-- Request number `i` of a walk through the leaves. -/
def leafRequest (dbs : Nat → Database) (pool : Address) (limits : Nat → Option Nat) (i : Nat)
    (cursor : Option Nat) : Except ApiError (List Leaf × Option Nat) :=
  (Routes.poolLeaves (dbs i) pool ⟨cursor, limits i⟩).map fun page => (page.items, page.nextCursor)

def noteRequest (dbs : Nat → Database) (pool : Address) (limits : Nat → Option Nat) (i : Nat)
    (cursor : Option Nat) : Except ApiError (List Note × Option Nat) :=
  (Routes.notes (dbs i) pool ⟨cursor, limits i⟩).map fun page => (page.items, page.nextCursor)

def entryRequest (dbs : Nat → Database) (allowlist : Address) (limits : Nat → Option Nat) (i : Nat)
    (cursor : Option (List Char)) : Except ApiError (List AllowlistEntry × Option (List Char)) :=
  (Routes.allowlistEntries (dbs i) allowlist ⟨cursor, limits i⟩).map fun page =>
    (page.items, page.nextCursor)

section Walk

variable {dbs : Nat → Database} {pool allowlistId : Address} {rows : Nat → List CommitmentRow}
  {changes : Nat → List AllowlistRow} {limits : Nat → Option Nat}

theorem serves_leaves (h : ∀ i, StoresPool (dbs i) pool (rows i))
    (hgrows : ∀ i, rows i <+: rows (i + 1))
    (hlimits : ∀ i, ∀ l ∈ limits i, 1 ≤ l ∧ l ≤ maxPage) :
    Paging.Serves (fun leaf : Leaf => leaf.leafIndex + 1) (fun i => leavesOf (rows i))
      (fun i => (limits i).getD defaultPage) (leafRequest dbs pool limits) where
  grows i := (List.IsPrefix.flatMap (hgrows i) _).map _
  size_pos i := (pageSize_ok (hlimits i)).2.1
  answer i got rest hitems hmore := by
    obtain ⟨hsize, hpos, hbig⟩ := pageSize_ok (hlimits i)
    obtain ⟨got, rest, hleaves, rfl, rfl⟩ := List.map_eq_append_iff.mp hitems
    have hquery : ((rows i).flatMap rowLeaves).filter
        (fun leaf => leaf.index ≥ ((got.map PoolLeaf.toLeaf).getLast?.map
          fun leaf => leaf.leafIndex + 1).getD 0) = rest := by
      rw [hleaves]
      cases hlast : got.getLast? with
      | none =>
        rw [List.getLast?_eq_none_iff] at hlast
        subst hlast
        simp
      | some last =>
        rw [List.getLast?_map, hlast]
        exact Paging.filter_after (hleaves ▸ (h i).leaves_sorted) hlast fun a => by
          simp [PoolLeaf.toLeaf]
    rw [leafRequest, Routes.poolLeaves, hsize, ok_bind]
    dsimp only
    rw [(h i).poolLeaves_eq _ (by omega), hquery, Paging.cut_take, Paging.cut_map]
    rfl

theorem notes_sorted {db : Database} {rows : List CommitmentRow} (h : StoresPool db pool rows) :
    ((rows.filter fun r => r.origin = .transact).map fun r =>
      (r.leafIndex, r.commitment, r.encryptedOutput.getD [], r.ledger)).Pairwise
        fun a b => a.1 < b.1 :=
  List.pairwise_map.mpr (h.contiguous.sorted.filter _)

theorem serves_notes (h : ∀ i, StoresPool (dbs i) pool (rows i))
    (hgrows : ∀ i, rows i <+: rows (i + 1))
    (hlimits : ∀ i, ∀ l ∈ limits i, 1 ≤ l ∧ l ≤ maxPage) :
    Paging.Serves (fun note : Note => note.leafIndex + 1) (fun i => notesOf (rows i))
      (fun i => (limits i).getD defaultPage) (noteRequest dbs pool limits) where
  grows i := (((hgrows i).filter _).map _).map _
  size_pos i := (pageSize_ok (hlimits i)).2.1
  answer i got rest hitems hmore := by
    obtain ⟨hsize, hpos, hbig⟩ := pageSize_ok (hlimits i)
    obtain ⟨got, rest, hnotes, rfl, rfl⟩ := List.map_eq_append_iff.mp hitems
    set first := ((got.map toNote).getLast?.map fun note => note.leafIndex + 1).getD 0
      with hfirst
    have hquery : ((((rows i).filter fun r => r.origin = .transact).filter
        fun r => r.leafIndex ≥ first).map fun r =>
          (r.leafIndex, r.commitment, r.encryptedOutput.getD [], r.ledger)) = rest := by
      have hcommute : ((((rows i).filter fun r => r.origin = .transact).filter
          fun r => r.leafIndex ≥ first).map fun r =>
            (r.leafIndex, r.commitment, r.encryptedOutput.getD [], r.ledger)) =
          (got ++ rest).filter fun a => a.1 ≥ first := by
        rw [← hnotes, List.filter_map]
        rfl
      rw [hcommute]
      cases hlast : got.getLast? with
      | none =>
        rw [List.getLast?_eq_none_iff] at hlast
        subst hlast
        simp [hfirst]
      | some last =>
        refine Paging.filter_after (hnotes ▸ notes_sorted (h i)) hlast fun a => ?_
        rw [hfirst, List.getLast?_map, hlast]
        simp [toNote]
    -- the cursor is cut to the column's type only where there is nothing more
    have hfits : first ≤ i64Max := by
      rcases hmore with hgot | hrest
      · rw [hfirst, hgot]
        exact Nat.zero_le _
      · obtain ⟨a, ha⟩ := List.exists_mem_of_ne_nil rest fun hnil => hrest (by rw [hnil]; rfl)
        rw [← hquery] at ha
        obtain ⟨r, hr, -⟩ := List.mem_map.mp ha
        obtain ⟨hr, hge⟩ := List.mem_filter.mp hr
        have hge : first ≤ r.leafIndex := by simpa using hge
        exact hge.trans ((h i).fits r (List.mem_filter.mp hr).1)
    rw [noteRequest, Routes.notes, hsize, ok_bind]
    dsimp only
    rw [← hfirst, (h i).notes_eq hfits (by omega), hquery, Paging.cut_take, Paging.cut_map]
    rfl

theorem serves_entries (h : ∀ i, StoresAllowlist (dbs i) allowlistId (changes i))
    (hgrows : ∀ i, changes i <+: changes (i + 1))
    (hlimits : ∀ i, ∀ l ∈ limits i, 1 ≤ l ∧ l ≤ maxPage) :
    Paging.Serves (fun entry : AllowlistEntry => entry.event) (fun i => entriesOf (changes i))
      (fun i => (limits i).getD defaultPage) (entryRequest dbs allowlistId limits) where
  grows i := (hgrows i).map _
  size_pos i := (pageSize_ok (hlimits i)).2.1
  answer i got rest hitems hmore := by
    obtain ⟨hsize, hpos, hbig⟩ := pageSize_ok (hlimits i)
    obtain ⟨got, rest, hchanges, rfl, rfl⟩ := List.map_eq_append_iff.mp hitems
    -- the cursor is the text of the last position, which is read back
    have hcursor : Routes.parseCursor ((got.map toEntry).getLast?.map fun entry => entry.event) =
        .ok (got.getLast?.map (·.position)) := by
      rw [List.getLast?_map]
      cases got.getLast? with
      | none => rfl
      | some last =>
        simp only [Option.map_some, Routes.parseCursor, toEntry, EventPosition.fromStr_display]
    have hquery : (changes i).filter
        (fun r => isAfter (got.getLast?.map (·.position)) r.position) = rest := by
      rw [hchanges]
      cases hlast : got.getLast? with
      | none =>
        rw [List.getLast?_eq_none_iff] at hlast
        subst hlast
        simp [isAfter]
      | some last =>
        have hmem : last ∈ changes i := by
          rw [hchanges]
          exact List.mem_append_left rest (List.mem_of_getLast? hlast)
        exact Paging.filter_after (hchanges ▸ (h i).sorted) hlast fun a =>
          isAfter_some ((h i).fits last hmem)
    rw [entryRequest, Routes.allowlistEntries, hsize, ok_bind]
    dsimp only
    rw [hcursor, ok_bind, (h i).allowlist_eq _ (by omega), hquery, Paging.cut_take,
      Paging.cut_map]
    rfl

end Walk

/-- **Paging reconstructs everything once.**  At request `i` the pool's rows are `rows i` and the
allowlist's changes `changes i`; both only grow at the end between requests.  The leaves stand at
the positions `0, 1, 2, ..`, the notes and the changes in increasing order.  Each of the three
walks, with any limits, gets an answer to every request, and its pages are as
`Paging.Reconstructs` says. -/
theorem paging_reconstructs_everything (dbs : Nat → Database) (pool allowlistId : Address)
    (rows : Nat → List CommitmentRow) (changes : Nat → List AllowlistRow)
    (limits : Nat → Option Nat) (hpool : ∀ i, StoresPool (dbs i) pool (rows i))
    (hrows : ∀ i, rows i <+: rows (i + 1))
    (hallowlist : ∀ i, StoresAllowlist (dbs i) allowlistId (changes i))
    (hchanges : ∀ i, changes i <+: changes (i + 1))
    (hlimits : ∀ i, ∀ l ∈ limits i, 1 ≤ l ∧ l ≤ maxPage) :
    (∀ i, (leavesOf (rows i)).map (·.leafIndex) = List.range (leavesOf (rows i)).length ∧
      (notesOf (rows i)).Pairwise (fun a b => a.leafIndex < b.leafIndex) ∧
      (changes i).Pairwise (fun a b => a.position < b.position)) ∧
    ∀ n,
      (∃ w, Paging.walk (leafRequest dbs pool limits) n = .ok w ∧
        Paging.Reconstructs (fun i => leavesOf (rows i))
          (fun i => (limits i).getD defaultPage) n w) ∧
      (∃ w, Paging.walk (noteRequest dbs pool limits) n = .ok w ∧
        Paging.Reconstructs (fun i => notesOf (rows i))
          (fun i => (limits i).getD defaultPage) n w) ∧
      ∃ w, Paging.walk (entryRequest dbs allowlistId limits) n = .ok w ∧
        Paging.Reconstructs (fun i => entriesOf (changes i))
          (fun i => (limits i).getD defaultPage) n w := by
  refine ⟨fun i => ⟨?_, ?_, (hallowlist i).sorted⟩, fun n => ⟨?_, ?_, ?_⟩⟩
  · have hindex := (hpool i).contiguous.map_index
    rw [leavesOf, List.map_map, List.length_map, List.range_eq_range']
    exact hindex
  · exact List.pairwise_map.mpr (notes_sorted (hpool i))
  · exact (serves_leaves hpool hrows hlimits).reconstructs n
  · exact (serves_notes hpool hrows hlimits).reconstructs n
  · exact (serves_entries hallowlist hchanges hlimits).reconstructs n

/-- A deposit, which fills two positions, and a note after it. -/
def depositRows : List CommitmentRow :=
  [⟨.firstOperation 1 0, .contract 1, 0, 7, none, .legacyDeposit, 1⟩,
   ⟨.firstOperation 2 0, .contract 1, 2, 8, some [1], .transact, 2⟩]

def depositChanges : List AllowlistRow :=
  [⟨.firstOperation 3 0, .contract 2, .added, 9, some 0, 10, 3⟩]

def depositDb : Database where
  index := { Store.empty with
    tables := { Tables.empty with commitments := depositRows, allowlist := depositChanges } }
  verifiedState := fun _ => none

theorem storesPool_deposit : StoresPool depositDb (.contract 1) depositRows where
  stored := List.Perm.of_eq (by decide)
  contiguous := ⟨rfl, rfl, trivial⟩
  fits := by decide

theorem storesAllowlist_deposit : StoresAllowlist depositDb (.contract 2) depositChanges where
  stored := List.Perm.of_eq (by decide)
  sorted := List.pairwise_singleton _ _
  fits := by decide

/-- One leaf a page: the zero leaf beside the deposit is a page of its own, and three requests
return the three positions. -/
theorem paging_reconstructs_a_deposit :
    ∃ w, Paging.walk (leafRequest (fun _ => depositDb) (.contract 1) fun _ => some 1) 3 = .ok w ∧
      w.ended = true ∧ w.pages.flatten = leavesOf depositRows := by
  obtain ⟨w, hw, hr⟩ := ((paging_reconstructs_everything (fun _ => depositDb) (.contract 1)
    (.contract 2) (fun _ => depositRows) (fun _ => depositChanges) (fun _ => some 1)
    (fun _ => storesPool_deposit) (fun _ => List.prefix_rfl) (fun _ => storesAllowlist_deposit)
    (fun _ => List.prefix_rfl) (fun _ l hl => by cases hl; decide)).2 3).1
  have hended := hr.ends (by decide) (by decide)
  exact ⟨w, hw, hended, hr.complete hended⟩

end Api

end Veil
