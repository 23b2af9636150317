/-
# Verification raises no false alarm

`Verified.lean` says what passing checks prove.  Here is the converse: over every run of both
contracts and every run of the indexer against honest sources, the checks pass.

The checks compare the contracts as of the end of a ledger `S` with the stored rows of the ledgers
up to `S`, while the index may hold later events too.  Three facts meet:

* the contracts as of the end of `S` are what the calls up to `S` made them, and their log is the
  part of the log up to `S` (`log_asOf`);
* once `indexed_ledger` has come to `S`, the stored events of the ledgers up to `S` are exactly the
  emitted ones (`stored_upTo`), so the rows the checks select are those of a placed log;
* on such rows the two computations retrace the contracts: the pool's leaves are found at their
  positions (`checkPool_passes`), and the replay of the allowlist meets the announced roots until
  the operator takes over (`checkAllowlist_passes`).
-/
import Veil.Core.Paging
import Veil.Indexer.Progress
import Veil.Indexer.Recovery
import Veil.Indexer.Verified

namespace Veil

open Tx

/-! ## 1. The contracts as of a ledger -/

namespace Network

variable {ρ : Type} {c : Contracts} {calls : List (Sent ρ)} {n n' : Network ρ}

/-- The calls up to the end of a ledger. -/
def upTo (S : Nat) (calls : List (Sent ρ)) : List (Sent ρ) := calls.filter (·.ledger ≤ S)

theorem exec_log {sent : Sent ρ} (h : exec sent n = .ok n') :
    ∃ new : List Emission, n'.log = n.log ++ new.map (Prod.mk sent.ledger) := by
  rcases exec_cases h with ⟨_, env, -, -, rfl⟩ | ⟨_, s, -, -, rfl⟩
  · exact ⟨(env.events.drop n.pool.events.length).map .pool, by simp [emitted, Function.comp_def]⟩
  · exact ⟨(s.events.drop n.allowlist.events.length).map .allowlist,
      by simp [emitted, Function.comp_def]⟩

/-- A run only appends to the log, each event under the ledger of its call. -/
theorem run_log : ∀ (calls : List (Sent ρ)) (n : Network ρ),
    ∃ new, (run exec calls n).log = n.log ++ new ∧ ∀ x ∈ new, ∃ y ∈ calls, y.ledger = x.1
  | [], n => ⟨[], by simp, by simp⟩
  | sent :: calls, n => by
    obtain ⟨new, hnew, hmem⟩ := run_log calls (commit (exec sent n) n)
    cases hr : exec sent n with
    | error e =>
      rw [run_cons]
      rw [hr] at hnew ⊢
      refine ⟨new, hnew, fun x hx => ?_⟩
      obtain ⟨y, hy, hledger⟩ := hmem x hx
      exact ⟨y, List.mem_cons_of_mem _ hy, hledger⟩
    | ok n' =>
      obtain ⟨first, hfirst⟩ := exec_log hr
      rw [run_cons]
      rw [hr, commit_ok, hfirst] at hnew
      rw [hr, commit_ok, hnew]
      refine ⟨first.map (Prod.mk sent.ledger) ++ new, List.append_assoc _ _ _, fun x hx => ?_⟩
      rcases List.mem_append.mp hx with hx | hx
      · obtain ⟨e, -, rfl⟩ := List.mem_map.mp hx
        exact ⟨sent, List.mem_cons_self, rfl⟩
      · obtain ⟨y, hy, hledger⟩ := hmem x hx
        exact ⟨y, List.mem_cons_of_mem _ hy, hledger⟩

/-- Calls in the order of their ledgers: those up to `S` come first. -/
theorem upTo_append (S : Nat) : ∀ {calls : List (Sent ρ)},
    calls.Pairwise (fun x y => x.ledger ≤ y.ledger) →
    upTo S calls ++ calls.filter (fun x => ¬x.ledger ≤ S) = calls
  | [], _ => rfl
  | x :: calls, h => by
    rw [List.pairwise_cons] at h
    have ih := upTo_append S h.2
    unfold upTo at ih ⊢
    by_cases hx : x.ledger ≤ S
    · simpa [List.filter_cons, hx] using ih
    · have hlater : ∀ y ∈ calls, ¬y.ledger ≤ S := fun y hy hle => hx ((h.1 y hy).trans hle)
      have hnone : calls.filter (fun y => y.ledger ≤ S) = [] := by
        simpa [List.filter_eq_nil_iff] using hlater
      have hall : calls.filter (fun y => ¬y.ledger ≤ S) = calls := by
        simpa [List.filter_eq_self] using hlater
      rw [List.filter_cons_of_neg (by simpa using hx), hnone,
        List.filter_cons_of_pos (by simpa using hx), hall]
      rfl

/-- **The log as of the end of a ledger** is the part of the log up to it. -/
theorem log_asOf (hempty : n.log = []) (hordered : calls.Pairwise fun x y => x.ledger ≤ y.ledger)
    (S : Nat) :
    (run exec (upTo S calls) n).log = (run exec calls n).log.filter fun x => x.1 ≤ S := by
  obtain ⟨early, hearly, hle⟩ := run_log (upTo S calls) n
  obtain ⟨late, hlate, hlt⟩ := run_log (calls.filter fun x => ¬x.ledger ≤ S)
    (run exec (upTo S calls) n)
  rw [← run_append, upTo_append S hordered] at hlate
  rw [hempty, List.nil_append] at hearly
  have hkeep : early.filter (fun x => x.1 ≤ S) = early := by
    rw [List.filter_eq_self]
    intro x hx
    obtain ⟨y, hy, hledger⟩ := hle x hx
    have := (List.mem_filter.mp hy).2
    rwa [hledger] at this
  have hdrop : late.filter (fun x => x.1 ≤ S) = [] := by
    rw [List.filter_eq_nil_iff]
    intro x hx
    obtain ⟨y, hy, hledger⟩ := hlt x hx
    have := (List.mem_filter.mp hy).2
    rw [hledger] at this
    simpa using this
  rw [hlate, List.filter_append, hearly, hkeep, hdrop, List.append_nil]

theorem Places.upTo {log : List (Nat × Emission)} {events : List EmittedEvent}
    (h : Places c log events) (S : Nat) :
    Places c (log.filter fun x => x.1 ≤ S) (events.filter fun e => e.position.ledger ≤ S) := by
  induction h with
  | nil => exact .nil
  | @cons x e log events hx _ ih =>
    by_cases hle : x.1 ≤ S
    · have hle' : e.position.ledger ≤ S := hx.1 ▸ hle
      rw [List.filter_cons_of_pos (by simpa using hle),
        List.filter_cons_of_pos (by simpa using hle')]
      exact .cons hx ih
    · have hle' : ¬e.position.ledger ≤ S := hx.1 ▸ hle
      rw [List.filter_cons_of_neg (by simpa using hle),
        List.filter_cons_of_neg (by simpa using hle')]
      exact ih

end Network

/-! ## 2. The rows the checks select -/

/-- The rows of an event name the ledger and the contract it comes from. -/
theorem EmittedEvent.rows_origin (e : EmittedEvent) :
    (∀ r ∈ e.rows.commitments, r.ledger = e.position.ledger) ∧
      ∀ r ∈ e.rows.allowlist, r.ledger = e.position.ledger ∧ r.allowlist = e.contract := by
  unfold EmittedEvent.rows
  cases e.raw.decode with
  | error => simp [Tables.empty]
  | ok decoded =>
    cases decoded with
    | ignored name => simp [Decoded.rows, Tables.empty]
    | event veil => cases veil <;> simp [Decoded.rows, VeilEvent.rows, Tables.empty]

/-- Selecting rows by ledger is selecting events by ledger. -/
theorem filter_flatMap_ledger {α : Type} {rows : EmittedEvent → List α} {ledger : α → Nat}
    (hrows : ∀ e, ∀ r ∈ rows e, ledger r = e.position.ledger) (S : Nat)
    (events : List EmittedEvent) :
    (events.flatMap rows).filter (fun r => ledger r ≤ S) =
      (events.filter fun e => e.position.ledger ≤ S).flatMap rows := by
  induction events with
  | nil => rfl
  | cons e events ih =>
    rw [List.flatMap_cons, List.filter_append, ih]
    by_cases hle : e.position.ledger ≤ S
    · have hall : (rows e).filter (fun r => ledger r ≤ S) = rows e := by
        rw [List.filter_eq_self]
        intro r hr
        simpa [hrows e r hr] using hle
      rw [hall, List.filter_cons_of_pos (by simpa using hle), List.flatMap_cons]
    · have hnone : (rows e).filter (fun r => ledger r ≤ S) = [] := by
        rw [List.filter_eq_nil_iff]
        intro r hr
        simpa [hrows e r hr] using hle
      rw [hnone, List.filter_cons_of_neg (by simpa using hle), List.nil_append]

namespace Indexing

/-- What `indexed_ledger` covers is stored, and nothing else is. -/
theorem Consistent.stored_upTo {history : History} {reported S : Nat} {s : Store}
    (h : Consistent history reported s) (hS : S ≤ Verify.indexedLedger s) :
    (s.stored.filter fun e => e.position.ledger ≤ S).Perm
      (history.events.filter fun e => e.position.ledger ≤ S) := by
  rw [List.perm_ext_iff_of_nodup (h.sound.once.of_map.filter _) (history.nodup.filter _)]
  intro e
  simp only [List.mem_filter, decide_eq_true_eq, and_congr_left_iff]
  intro hle
  exact ⟨h.genuine e, fun he => h.indexed he (hle.trans hS)⟩

variable {history : History} {reported S : Nat} {s : Store}

theorem Consistent.commitments_upTo (h : Consistent history reported s)
    (hS : S ≤ Verify.indexedLedger s) :
    (s.tables.commitments.filter fun r => r.ledger ≤ S).Perm
      (Tables.of (history.events.filter fun e => e.position.ledger ≤ S)).commitments := by
  rw [h.sound.tables]
  exact (filter_flatMap_ledger (fun e => e.rows_origin.1) S _).symm ▸
    (Tables.same_of_perm (h.stored_upTo hS)).commitments

theorem Consistent.allowlist_upTo (h : Consistent history reported s)
    (hS : S ≤ Verify.indexedLedger s) :
    (s.tables.allowlist.filter fun r => r.ledger ≤ S).Perm
      (Tables.of (history.events.filter fun e => e.position.ledger ≤ S)).allowlist := by
  rw [h.sound.tables]
  exact (filter_flatMap_ledger (fun e r hr => (e.rows_origin.2 r hr).1) S _).symm ▸
    (Tables.same_of_perm (h.stored_upTo hS)).allowlist

end Indexing

namespace Verify

/-! ## 3. The pool's checks -/

/-- The first check, forwards: indices `0, .., n - 1` in any order are contiguous. -/
theorem contiguous_of_perm {leaves : List (Nat × F)} {n : Nat}
    (h : (leaves.map Prod.fst).Perm (List.range n)) : contiguous leaves = true := by
  have hsorted : (leaves.map Prod.fst).insertionSort (· ≤ ·) = List.range n := by
    refine ((List.perm_insertionSort _ _).trans h).eq_of_pairwise'
      (List.pairwise_insertionSort _ _) ?_
    exact List.pairwise_lt_range.imp le_of_lt
  rw [contiguous, hsorted, List.all_eq_true]
  rintro ⟨x, i⟩ hx
  rw [List.mem_zipIdx_iff_getElem?, List.getElem?_eq_some_iff] at hx
  obtain ⟨_, hx⟩ := hx
  rw [List.getElem_range] at hx
  exact beq_iff_eq.mpr hx.symm

/-- The rows of `transact` stand for one leaf each. -/
theorem poolLeaves_of_transact : ∀ {rows : List CommitmentRow},
    (∀ r ∈ rows, r.origin = .transact ∧ r.commitment < bn256Modulus) →
    poolLeaves rows = .ok (rows.map fun r => (r.leafIndex, (r.commitment : F)))
  | [], _ => rfl
  | r :: rows, h => by
    obtain ⟨horigin, hlt⟩ := h r List.mem_cons_self
    have ih := poolLeaves_of_transact fun t ht => h t (List.mem_cons_of_mem _ ht)
    have hrow : rowLeaves r = .ok [(r.leafIndex, (r.commitment : F))] := by
      rw [rowLeaves, Tree.fromU256_of_lt hlt, ok_bind, horigin]
      rfl
    rw [poolLeaves, hrow, ih]
    rfl

variable {L ledger : Nat}

/-- **On the pool's own leaves the checks pass.** -/
theorem checkPool_passes {leaves : List Nat} {tree : MerkleStorage} {rows : List CommitmentRow}
    {pool : Address} (h : MerkleTreeWithHistory.Holds L leaves tree)
    (hrows : Network.StoresLeaves pool leaves (rows.filter fun r => r.ledger ≤ ledger)) :
    ∃ checks, checkPool rows pool ⟨ledger, L, leaves.length, treeRoot L leaves⟩ = .ok checks ∧
      ∀ check ∈ checks, check.ok = true := by
  -- every row up to the ledger is this pool's
  have hselected : (poolRows rows pool ledger).Perm (rows.filter fun r => r.ledger ≤ ledger) := by
    refine (List.perm_insertionSort _ _).trans (List.Perm.of_eq ?_)
    refine List.filter_congr fun r hr => ?_
    by_cases hle : r.ledger ≤ ledger
    · have := (hrows.mem (List.mem_filter.mpr ⟨hr, by simpa using hle⟩)).1
      simp [this, hle]
    · simp [hle]
  have hstored := hrows.of_perm hselected
  have hleaves := poolLeaves_of_transact fun r hr =>
    ⟨(hstored.mem hr).2.1, h.field _ (hstored.mem hr).2.2⟩
  have hindexed := hstored.indexed
  have hfit : (leaves.map (Nat.cast : Nat → F)).length ≤ 2 ^ L := by simpa using h.fits
  have hfst := hindexed.map Prod.fst
  rw [Tree.map_fst_indexed, List.length_map] at hfst
  refine ⟨_, by rw [checkPool, hleaves, ok_bind,
    Tree.root_of_perm h.depth.1 h.depth.2 hindexed hfit, ok_bind], ?_⟩
  simp only [List.mem_cons, List.not_mem_nil, or_false, forall_eq_or_imp, forall_eq,
    checkBool_ok, checkNat_ok]
  refine ⟨contiguous_of_perm hfst, nextIndex_of_perm hfst, ?_⟩
  rw [← treeRoot_eq_val h.field]
  simp [checkU256, Check.ok]

/-! ## 4. The allowlist's checks -/

/-- Rows that say what `events` say, in order. -/
def Tells (rows : List AllowlistRow) (events : List AspEvent) : Prop :=
  rows.map (fun r => (r.kind, r.leaf, r.leafIndex, r.root)) = events.map Network.aspColumns

theorem Tells.split {rows : List AllowlistRow} {a b : List AspEvent} (h : Tells rows (a ++ b)) :
    ∃ rows1 rows2, rows = rows1 ++ rows2 ∧ Tells rows1 a ∧ Tells rows2 b := by
  unfold Tells at h ⊢
  rw [List.map_append, List.map_eq_append_iff] at h
  obtain ⟨rows1, rows2, rfl, h1, h2⟩ := h
  exact ⟨rows1, rows2, rfl, h1, h2⟩

theorem Tells.cons {rows : List AllowlistRow} {event : AspEvent} {events : List AspEvent}
    (h : Tells rows (event :: events)) :
    ∃ row rest, rows = row :: rest ∧
      (row.kind, row.leaf, row.leafIndex, row.root) = Network.aspColumns event ∧
      Tells rest events := by
  unfold Tells at h ⊢
  rw [List.map_cons, List.map_eq_cons_iff] at h
  obtain ⟨row, rest, rfl, hrow, hrest⟩ := h
  exact ⟨row, rest, rfl, hrow, hrest⟩

theorem Tells.eq_nil {rows : List AllowlistRow} (h : Tells rows []) : rows = [] :=
  List.map_eq_nil_iff.mp h

theorem Tells.concat {rows : List AllowlistRow} {event : AspEvent} {events : List AspEvent}
    (h : Tells rows (events ++ [event])) :
    ∃ init row, rows = init ++ [row] ∧ Tells init events ∧
      (row.kind, row.leaf, row.leafIndex, row.root) = Network.aspColumns event := by
  obtain ⟨init, last, rfl, hinit, hlast⟩ := h.split
  obtain ⟨row, rest, rfl, hrow, hrest⟩ := hlast.cons
  obtain rfl := hrest.eq_nil
  exact ⟨init, row, rfl, hinit, hrow⟩

/-- The last row has the root of the last event. -/
theorem Tells.last_root {rows : List AllowlistRow} {events : List AspEvent}
    (h : Tells rows events) :
    rows.getLast?.map (·.root) = events.getLast?.map AspEvent.root := by
  have hroots := congrArg (fun l => (l.getLast?.map fun c => c.2.2.2)) h
  simp only [List.getLast?_map, Option.map_map, Function.comp_def] at hroots
  have hcolumn : ∀ e : AspEvent, (Network.aspColumns e).2.2.2 = e.root := by
    intro e
    cases e <;> rfl
  simpa only [hcolumn] using hroots

theorem Replay.rows_append : ∀ (rows rest : List AllowlistRow) (r : Replay),
    Replay.rows (rows ++ rest) r = (Replay.rows rows r >>= Replay.rows rest)
  | [], rest, r => rfl
  | row :: rows, rest, r => by
    rw [List.cons_append, Replay.rows, Replay.rows]
    cases r.row row with
    | error e => rfl
    | ok r' => exact Replay.rows_append rows rest r'

/-- A round takes over the row's root, whatever else it does. -/
theorem Replay.row_latest {r r' : Replay} {row : AllowlistRow} (h : r.row row = .ok r') :
    r'.latestRoot = row.root := by
  unfold Replay.row at h
  dsimp only at h
  split at h
  · rw [← Except.ok.inj h]
  · simp only [Replay.push, bind_eq_ok, Except.ok.injEq] at h
    obtain ⟨leaf, -, tree, -, rfl⟩ := h
    rfl

/-- The latest root is the root of the last row. -/
theorem Replay.rows_latest : ∀ {rows : List AllowlistRow} {r r' : Replay},
    Replay.rows rows r = .ok r' →
    r'.latestRoot = (rows.getLast?.map (·.root)).getD r.latestRoot
  | [], r, r', h => by
    rw [← Except.ok.inj h]
    rfl
  | row :: rows, r, r', h => by
    obtain ⟨r1, hrow, hrest⟩ := bind_eq_ok.mp h
    rw [Replay.rows_latest hrest, Replay.row_latest hrow, List.getLast?_cons]
    cases rows.getLast? <;> rfl

/-- Once the operator has the tree, a replay only follows the roots. -/
theorem Replay.rows_of_handed : ∀ (rows : List AllowlistRow) {r : Replay},
    r.handedToOperator = true → ∃ r', Replay.rows rows r = .ok r' ∧ r'.handedToOperator = true ∧
      r'.emittedRootsMatch = r.emittedRootsMatch
  | [], r, h => ⟨r, rfl, h, rfl⟩
  | row :: rows, r, h => by
    obtain ⟨r', hrest, hset, hmatch⟩ := Replay.rows_of_handed rows
      (r := { r with latestRoot := row.root, handedToOperator := true }) rfl
    refine ⟨r', ?_, hset, hmatch⟩
    rw [Replay.rows, Replay.row, h]
    exact hrest

/-- **The replay has followed the contract** through the insertion of `leaves`. -/
structure Replay.Follows (L : Nat) (leaves : List Nat) (r : Replay) : Prop where
  tree : Tree.IncrementalTree.Replays L (leaves.map Nat.cast) r.tree
  replayed : r.replayed = leaves.length
  emittedRootsMatch : r.emittedRootsMatch = true
  handedToOperator : r.handedToOperator = false

/-- One more insertion: there is room for it, its index is the next one and its root recomputes. -/
theorem Replay.Follows.row {leaves : List Nat} {leaf : Nat} {r : Replay} {row : AllowlistRow}
    (h : r.Follows L leaves) (hfield : ∀ x ∈ leaves ++ [leaf], x < bn256Modulus)
    (hfit : leaves.length < 2 ^ L)
    (hrow : (row.kind, row.leaf, row.leafIndex, row.root) =
      Network.aspColumns (.leafAdded leaf leaves.length (treeRoot L (leaves ++ [leaf])))) :
    ∃ r', r.row row = .ok r' ∧ r'.Follows L (leaves ++ [leaf]) := by
  simp only [Network.aspColumns, Prod.mk.injEq] at hrow
  obtain ⟨hkind, hleaf, hindex, hroot⟩ := hrow
  have hlt : leaf < bn256Modulus := hfield leaf (by simp)
  obtain ⟨tree, hpush, htree⟩ := h.tree.push (leaf : F) (by simpa using hfit)
  have hcast : (leaves ++ [leaf]).map (Nat.cast : Nat → F) =
      leaves.map Nat.cast ++ [(leaf : F)] := by
    simp
  have hrecomputed : tree.root.val = row.root := by
    rw [htree.root, hroot, treeRoot_eq_val hfield, hcast]
  have hnext : row.leafIndex = some r.tree.nextIndex := by
    rw [hindex, h.tree.nextIndex, List.length_map]
  refine ⟨_, by
    rw [Replay.row, h.handedToOperator, hkind, if_neg (by simp), Replay.push, hleaf,
      Tree.fromU256_of_lt hlt, ok_bind, hpush, ok_bind], ?_⟩
  exact {
    tree := by rw [hcast]; exact htree
    replayed := by simp [h.replayed]
    emittedRootsMatch := by simp [h.emittedRootsMatch, hnext, hrecomputed]
    handedToOperator := by simp }

/-- **The insertions.** -/
theorem Replay.Follows.added {r : Replay} (h : r.Follows L []) (leaves : List Nat)
    (hfield : ∀ x ∈ leaves, x < bn256Modulus) (hfit : leaves.length ≤ 2 ^ L) :
    ∀ {rows : List AllowlistRow}, Tells rows (ASPMembership.addedEvents L leaves) →
      ∃ r', Replay.rows rows r = .ok r' ∧ r'.Follows L leaves := by
  induction leaves using List.reverseRecOn with
  | nil =>
    intro rows htells
    obtain rfl : rows = [] := Tells.eq_nil htells
    exact ⟨r, rfl, h⟩
  | append_singleton leaves leaf ih =>
    intro rows htells
    rw [ASPMembership.addedEvents_concat] at htells
    obtain ⟨init, row, rfl, hinit, hrow⟩ := htells.concat
    rw [List.length_append, List.length_singleton] at hfit
    obtain ⟨r1, hr1, h1⟩ := ih (fun x hx => hfield x (List.mem_append_left _ hx)) (by omega) hinit
    obtain ⟨r2, hr2, h2⟩ := h1.row hfield (by omega) hrow
    refine ⟨r2, ?_, h2⟩
    rw [Replay.rows_append, hr1, ok_bind, Replay.rows, hr2]
    rfl

/-- The row of a revocation hands the tree over. -/
theorem Replay.row_revoked {r : Replay} {row : AllowlistRow} (h : row.kind = .revoked) :
    r.row row = .ok { r with latestRoot := row.root, handedToOperator := true } := by
  simp [Replay.row, h]

/-- **On the allowlist's own events the checks pass.** -/
theorem checkAllowlist_passes (h1 : 1 ≤ L) (h2 : L ≤ 32) {s : AspState} {rows : List AllowlistRow}
    {allowlist : Address} (h : ASPMembership.Announced L s)
    (hroot : s.root = some (ASPMembership.announcedRoot L s.events))
    (hrows : Tells (allowlistRows rows allowlist ledger) s.events) :
    ∃ state checks, Chain.allowlistTree allowlist ledger s = .ok state ∧
      checkAllowlist rows allowlist state = .ok checks ∧ ∀ check ∈ checks, check.ok = true := by
  obtain ⟨k, hk⟩ := h.counter
  obtain ⟨tree, htree, hreplays⟩ := Tree.IncrementalTree.replays_new h1 h2
  obtain ⟨leaves, rest, hevents, hfield, hfit, hphase⟩ := h.events
  set start : Replay := ⟨tree, 0, true, false, tree.root.val⟩ with hstart
  have hfollows : start.Follows L [] := ⟨hreplays, rfl, rfl, rfl⟩
  have hstate : Chain.allowlistTree allowlist ledger s = .ok ⟨ledger, L, k,
      ASPMembership.announcedRoot L s.events, ASPMembership.getOperatorMaintained s⟩ := by
    simp only [Chain.allowlistTree, h.levels, hk, hroot, okOr_some, ok_bind]
    rfl
  -- whatever the replay does, it ends at the root the contract announced last
  have hlatest : ∀ r, Replay.rows (allowlistRows rows allowlist ledger) start = .ok r →
      r.latestRoot = ASPMembership.announcedRoot L s.events := by
    intro r hr
    rw [Replay.rows_latest hr, ASPMembership.announcedRoot, hrows.last_root, hstart]
    dsimp only
    rw [hreplays.root, val_fieldRoot]
    rfl
  rw [hevents] at hrows
  obtain ⟨rows1, rows2, hsplit, htells1, htells2⟩ := hrows.split
  obtain ⟨r1, hr1, hf1⟩ := hfollows.added leaves hfield hfit htells1
  rcases hphase with ⟨hopen, rfl, hcount⟩ | ⟨hset, leaf, first, more, rfl⟩
  · -- the contract still has the tree
    obtain rfl := htells2.eq_nil
    rw [List.append_nil] at hsplit hevents
    obtain rfl : k = leaves.length := Option.some.inj (hk.symm.trans hcount)
    have hroot' : r1.tree.root.val = ASPMembership.announcedRoot L s.events := by
      rw [hf1.tree.root, hevents, ASPMembership.announcedRoot_addedEvents, treeRoot_eq_val hfield]
    have hlast := hlatest r1 (hsplit ▸ hr1)
    refine ⟨_, _, hstate, by rw [checkAllowlist, htree, ok_bind, hsplit, hr1, ok_bind], ?_⟩
    simp only [Replay.checks, hf1.handedToOperator, Bool.false_eq_true, if_false, List.cons_append,
      List.nil_append, List.mem_cons, List.not_mem_nil, or_false, forall_eq_or_imp, forall_eq,
      checkBool_ok, checkNat_ok, hlast, hroot', hopen, hf1.emittedRootsMatch, hf1.replayed]
    simp [checkU256, Check.ok]
  · -- the operator has it
    obtain ⟨row, rest, rfl, hrow, -⟩ := htells2.cons
    have hkind : row.kind = .revoked := congrArg Prod.fst hrow
    obtain ⟨r2, hr2, hhanded, hmatch⟩ := Replay.rows_of_handed rest
      (r := { r1 with latestRoot := row.root, handedToOperator := true }) rfl
    have hrun : Replay.rows (allowlistRows rows allowlist ledger) start = .ok r2 := by
      rw [hsplit, Replay.rows_append, hr1, ok_bind, Replay.rows, Replay.row_revoked hkind, ok_bind,
        hr2]
    have hlast := hlatest r2 hrun
    refine ⟨_, _, hstate, by rw [checkAllowlist, htree, ok_bind, hrun, ok_bind], ?_⟩
    simp only [Replay.checks, hhanded, if_true, List.append_nil, List.mem_cons, List.not_mem_nil,
      or_false, forall_eq_or_imp, forall_eq, checkBool_ok, hlast, hset, hmatch,
      hf1.emittedRootsMatch]
    simp [checkU256, Check.ok]

end Verify

/-! ## 5. Whole runs -/

/-- Events in order give allowlist rows in order, each at a position of its own. -/
theorem Tables.allowlist_sorted {events : List EmittedEvent}
    (h : events.Pairwise fun a b => a.position < b.position) :
    (Tables.of events).allowlist.Pairwise fun r t => r.position < t.position := by
  refine List.pairwise_flatMap.mpr ⟨fun e _ => ?_, h.imp fun hlt r hr t ht => ?_⟩
  · unfold EmittedEvent.rows
    cases e.raw.decode with
    | error => exact .nil
    | ok decoded =>
      cases decoded with
      | ignored name => exact .nil
      | event veil => cases veil <;> simp [Decoded.rows, VeilEvent.rows, Tables.empty]
  · rw [(EmittedEvent.rows_position _).allowlist r hr,
      (EmittedEvent.rows_position _).allowlist t ht]
    exact hlt

/-- The query's order is the order of emission. -/
theorem Verify.allowlistRows_eq {events : List EmittedEvent} {rows : List AllowlistRow}
    {allowlist : Address} {ledger : Nat}
    (hsorted : events.Pairwise fun a b => a.position < b.position)
    (hmem : ∀ r ∈ (Tables.of events).allowlist, r.allowlist = allowlist)
    (hrows : (rows.filter fun r => r.ledger ≤ ledger).Perm (Tables.of events).allowlist) :
    allowlistRows rows allowlist ledger = (Tables.of events).allowlist := by
  have hstrict := Tables.allowlist_sorted hsorted
  have hselected : (rows.filter fun r => r.allowlist = allowlist ∧ r.ledger ≤ ledger) =
      rows.filter fun r => r.ledger ≤ ledger := by
    refine List.filter_congr fun r hr => ?_
    by_cases hle : r.ledger ≤ ledger
    · have := hmem r (hrows.subset (List.mem_filter.mpr ⟨hr, by simpa using hle⟩))
      simp [this, hle]
    · simp [hle]
  rw [allowlistRows, hselected]
  exact Paging.insertionSort_eq hrows hstrict

namespace Indexing

/-- What has been emitted stays emitted. -/
theorem kept_of_reaches {ix : Indexer} {floor : Nat} {w w' : World}
    (hrun : Reaches ix floor w w') : w.history.events <+: w'.history.events := by
  induction hrun with
  | refl => exact List.prefix_rfl
  | tail _ hstep ih =>
    refine ih.trans ?_
    cases hstep with
    | grow grows emit => exact grows.kept
    | seed step => cases step <;> exact List.prefix_rfl
    | follow step => cases step <;> exact List.prefix_rfl
    | kill => exact List.prefix_rfl

end Indexing

namespace Network

open Indexing

/-- The events of a placed log are those of the two contracts. -/
theorem Places.emit {c : Contracts} {log : List (Nat × Emission)} {history : History}
    (h : Places c log history.events) (hfits : ∀ x ∈ log, x.2.Fits c) : c.Emit history := by
  intro e he
  obtain ⟨x, -, hplaced, -, -⟩ := Places.check h hfits he
  rw [hplaced.2.1]
  cases x.2 <;> simp [Emission.emitter, Contracts.both]

/-- The entries `pool_tree` reads are there. -/
theorem poolTree_of_holds {L S : Nat} {leaves : List Nat} {s : PoolStorage}
    (h : MerkleTreeWithHistory.Holds L leaves s.tree) (pool : Address) :
    Chain.poolTree pool S s = .ok ⟨S, L, leaves.length, treeRoot L leaves⟩ := by
  obtain ⟨current, hlt, hcurrent, hroot⟩ := h.current
  have hasked : current < Chain.poolRootHistory := hlt
  simp only [Chain.poolTree, h.levels, h.nextIndex, hcurrent, hroot, if_pos hasked, okOr_some,
    ok_bind]

/-- **Verification raises no false alarm.**  For every run of both contracts from their deployment,
calls of either in the order of their ledgers and refused ones among them, and for every run of the
indexer over what they emitted, from an empty database, with any page sizes, killed and restarted,
seeded and then following sources that still retain what it asks for: once `indexed_ledger` has come
to `S`, both contracts' trees as of the end of ledger `S` can be read, `check_pool` and
`check_allowlist` return, and every check passes, whatever later events are stored too. -/
theorem verification_raises_no_false_alarm {ρ : Type} {ix : Indexer} {history : History} {w : World}
    {L M S : Nat} {n : Network ρ} {calls : List (Sent ρ)} (hfresh : Fresh L M n)
    (hosted : ∀ x ∈ calls, x.call.Hosted ix.contracts)
    (hordered : calls.Pairwise fun x y => x.ledger ≤ y.ledger)
    (hrun : Reaches ix 0 (.fresh history) w)
    (hplaces : Places ix.contracts (run exec calls n).log w.history.events)
    (hS : S ≤ Verify.indexedLedger w.store) :
    (∃ state checks,
      Chain.poolTree ix.contracts.pool S (run exec (upTo S calls) n).pool.pool = .ok state ∧
      Verify.checkPool w.store.tables.commitments ix.contracts.pool state = .ok checks ∧
      ∀ check ∈ checks, check.ok = true) ∧
    ∃ state checks,
      Chain.allowlistTree ix.contracts.allowlist S (run exec (upTo S calls) n).allowlist =
        .ok state ∧
      Verify.checkAllowlist w.store.tables.allowlist ix.contracts.allowlist state = .ok checks ∧
      ∀ check ∈ checks, check.ok = true := by
  have hfits := (hfresh.announces_run hosted).fits
  have hemit : ix.contracts.Emit history := fun e he =>
    Places.emit hplaces hfits e ((kept_of_reaches hrun).subset he)
  have hconsistent := consistent_of_reaches hemit hrun
  -- the contracts as of `S`, and the part of the index that is theirs
  have hnow : Announces ix.contracts L M _ (run exec (upTo S calls) n) :=
    hfresh.announces_run fun x hx => hosted x (List.mem_filter.mp hx).1
  have hplaced := Places.upTo hplaces S
  rw [← log_asOf hfresh.log hordered S] at hplaced
  constructor
  · have hstored := (hnow.storesLeaves hplaced).of_perm (hconsistent.commitments_upTo hS)
    obtain ⟨checks, hchecks, hpass⟩ := Verify.checkPool_passes hnow.holds hstored
    exact ⟨_, checks, poolTree_of_holds hnow.holds _, hchecks, hpass⟩
  · obtain ⟨log, hphases⟩ := hnow.phases
    have hcolumns := Places.allowlist hplaced hnow.fits
    rw [hnow.allowlist] at hcolumns
    have hmem : ∀ r ∈ (Tables.of (w.history.events.filter fun e =>
        e.position.ledger ≤ S)).allowlist, r.allowlist = ix.contracts.allowlist := by
      intro r hr
      obtain ⟨event, -, heq⟩ := List.mem_map.mp (hcolumns ▸ List.mem_map_of_mem hr)
      exact (congrArg Prod.fst heq).symm
    have hrows := Verify.allowlistRows_eq (w.history.sorted.filter _) hmem
      (hconsistent.allowlist_upTo hS)
    refine Verify.checkAllowlist_passes hfresh.depth.1 hfresh.depth.2 hnow.announced
      hphases.root_eq ?_
    rw [hrows, Verify.Tells]
    have := congrArg (List.map Prod.snd) hcolumns
    rwa [List.map_map, List.map_map] at this

/-! ### A run -/

/-- The first `k` events, and a cursor at the end of ledger `l`. -/
def pageOf (history : History) (k l : Nat) : EventsPage where
  events := (history.events.take k).map fun e => { e with source := .rpc }
  cursor := EventPosition.endOfLedger l
  latestLedger := l
  oldestLedger := 1

theorem honest_pageOf {history : History} {k l size : Nat}
    (hlate : ∀ e ∈ history.events, 4 < e.position.ledger) (hk : k ≤ size) (h4 : 4 ≤ l)
    (hl : l < 2 ^ 32) (hcomplete : ∀ e ∈ history.events, e.position.ledger ≤ l →
      e ∈ history.events.take k) :
    HonestPage (history.retained 4) (.ledger 4) size (pageOf history k l) where
  inOrder := by
    have hall : (history.retained 4).events.filter (Start.ledger 4).admits = history.events := by
      rw [History.retained, List.filter_filter, List.filter_eq_self]
      intro e he
      have := hlate e he
      simp only [Start.admits, Bool.and_eq_true, decide_eq_true_eq]
      omega
    have hevents : (pageOf history k l).events.map (·.toEmittedEvent) = history.events.take k := by
      rw [pageOf, List.map_map]
      exact List.map_id _
    rw [hall, hevents]
    exact List.take_sublist _ _
  limit := by
    rw [pageOf, List.length_map]
    exact (List.length_take_le _ _).trans hk
  complete := by
    intro e he _ hle
    have hledger : e.position.ledger ≤ l := (EventPosition.le_endOfLedger_iff hl).mp hle
    rw [pageOf, List.map_map]
    exact List.mem_map.mpr ⟨e, hcomplete e (History.mem_retained.mp he).1 hledger, rfl⟩
  cursor := .inr ⟨l, hl, rfl⟩
  scanned := by
    rintro _ ⟨⟩
    exact h4.trans_eq (EventPosition.endOfLedger_ledger hl).symm

/-- A seed up to ledger 4 that finds nothing, and then one page. -/
def seedThenPage (size : Nat) (page : EventsPage) (p : Store → Bool) : Bool :=
  (readContracts ⟨operatorContracts, 2, size⟩ [] 4 1 operatorContracts.both { completeTo := 4 }
    .empty).any fun r => okAnd (finishSeed 4 r.2) fun s =>
      rpcStart s ⟨6, 4, by decide, by decide⟩ 0 = .ok (some 4) ∧ s.checkpoint .rpc = none ∧
        okAnd ((Follower.mk operatorContracts .rpc size).syncPage (.ledger 4) page {} s)
          (fun r => p r.2.2) = true

theorem reaches_seedThenPage {size : Nat} {history : History} {page : EventsPage}
    {p : Store → Bool} (hlate : ∀ e ∈ history.events, 4 < e.position.ledger)
    (honest : HonestPage (history.retained 4) (.ledger 4) size page)
    (h : seedThenPage size page p = true) :
    ∃ w, Reaches ⟨operatorContracts, 2, size⟩ 0 (.fresh history) w ∧ w.history = history ∧
      p w.store = true := by
  obtain ⟨⟨report, read⟩, hreads, hres⟩ := (Option.any_eq_true _ _).mp h
  obtain ⟨seeded, hfinish, hres⟩ := okAnd_eq_true.mp hres
  obtain ⟨hstart, hrpc, hres⟩ := of_decide_eq_true hres
  obtain ⟨⟨next, report, store⟩, hsync, hp⟩ := okAnd_eq_true.mp hres
  have hread : Reseeds ⟨operatorContracts, 2, size⟩ (.fresh history)
      ⟨history, 4, read, .seeding 4 [] _⟩ :=
    reseeds_both List.nil_prefix (fun e he hle => absurd (hlate e he) (not_lt.mpr hle))
      (Nat.zero_le 4) hreads
  have hseeded : Reaches ⟨operatorContracts, 2, size⟩ 0 (.fresh history)
      ⟨history, 4, seeded, .idle⟩ := hread.reaches.tail (.seed (.finish rfl hfinish))
  have hbegan : (Indexer.follower ⟨operatorContracts, 2, size⟩).beginSync (some 4) seeded =
      .ok (.ledger 4, {}) := Follower.beginSync_of_none hrpc 4
  exact ⟨_, ((hseeded.tail (.follow (.begin rfl hstart hbegan))).tail
    (.follow (.answer rfl (le_max_right 0 4) honest))).tail (.follow (.commit rfl hsync)), rfl, hp⟩

/-- Pages of two. -/
def operatorIndexer : Indexer := ⟨operatorContracts, 2, 2⟩

/-- Both events of the operator, up to the end of ledger 6. -/
theorem reaches_operatorPage : ∃ w, Reaches operatorIndexer 0 (.fresh (operatorHistory 2)) w ∧
    w.history = operatorHistory 2 ∧ w.store.stored.length = 2 ∧
    Verify.indexedLedger w.store = 6 := by
  have hpage : seedThenPage 2 (pageOf (operatorHistory 2) 2 6) (fun s =>
      s.stored.length = 2 ∧ Verify.indexedLedger s = 6) = true := by decide +kernel
  have hlate : ∀ e ∈ (operatorHistory 2).events, 4 < e.position.ledger := by decide +kernel
  have honest : HonestPage ((operatorHistory 2).retained 4) (.ledger 4) 2
      (pageOf (operatorHistory 2) 2 6) :=
    honest_pageOf hlate (le_refl 2) (by decide) (by decide) fun _ he _ => he
  obtain ⟨w, hrun, hhistory, hp⟩ := reaches_seedThenPage hlate honest hpage
  exact ⟨w, hrun, hhistory, of_decide_eq_true hp⟩

/-- The leaf published in ledger 6 is stored already; the contracts as of ledger 5 still agree. -/
theorem verification_raises_no_false_alarm_operator : ∃ n w, Fresh 1 1 n ∧
    Reaches operatorIndexer 0 (.fresh (operatorHistory 2)) w ∧ w.store.stored.length = 2 ∧
    ∃ state checks,
      Chain.allowlistTree (.contract 2) 5 (run exec (upTo 5 (operatorCalls 2)) n).allowlist =
        .ok state ∧
      Verify.checkAllowlist w.store.tables.allowlist (.contract 2) state = .ok checks ∧
      ∀ check ∈ checks, check.ok = true := by
  have hlog : (deployed.any fun n => (run exec (operatorCalls 2) n).log = operatorLog 2) =
      true := by decide +kernel
  obtain ⟨n, hfresh, hlog⟩ := deployed_of_any hlog
  obtain ⟨w, hrun, hhistory, hlength, hindexed⟩ := reaches_operatorPage
  have hplaces := places_operatorHistory 2
  rw [← of_decide_eq_true hlog, ← hhistory] at hplaces
  exact ⟨n, w, hfresh, hrun, hlength, (verification_raises_no_false_alarm hfresh
    (hosted_operatorCalls (by decide)) (List.pairwise_pair.mpr (by decide)) hrun hplaces
    (by rw [hindexed]; decide)).2⟩

end Network

end Veil
