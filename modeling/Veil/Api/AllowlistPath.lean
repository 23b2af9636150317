/-
# Who gets an allowlist path

`services/api/src/routes.rs`: `GET /v1/allowlist/leaves/{leaf}/path`.  The handler replays the
stored additions through the incremental tree, compares the root it arrives at with the one the
contract emitted last, and serves the path of the leaf's last addition.  After a revocation there is
nothing to replay: the operator keeps the tree off chain.

The handler has internal-error exits of two kinds.  A row may be no field element, stand at the
wrong index or find the tree full; or the roots may differ.  None is reachable from what the
contract announced:

* Section 1 is the handler, with the text of a leaf as it comes in the URL.
* Section 2 says what the index holds of an allowlist: its raw events, decoded into rows
  (`Indexes.rows`).
* Section 3 replays the rows of a tree filled by insertions (`replayAdditions_added`), and section 4
  puts the contract, the index and the path together.
-/
import Veil.Api.Listings
import Veil.Indexer.MerklePath
import Veil.Indexer.NoFalseAlarm

namespace Veil

open Tx Digits

namespace Api

/-! ## 1. The handler -/

/-- `strip_prefix("0x").unwrap_or(value)`. -/
def stripHex : List Char → List Char
  | '0' :: 'x' :: digits => digits
  | digits => digits

/-- The number 32 bytes of two digits each stand for, most significant first. -/
def parseU256 (value what : String) : Except ApiError Nat := do
  let digits := stripHex value.toList
  ensure (digits.length = 64 ∧ digits.all (fun c => (hexValue c).isSome) = true)
    (.badRequest s!"{what} must be 0x followed by 64 hex digits")
  .ok (digits.foldl (fun n c => 16 * n + (hexValue c).getD 0) 0)

namespace Routes

/-- The loop over the additions: the tree, and the leaves for `path`. -/
def replayAdditions : List AllowlistRow → Tree.IncrementalTree → List (Nat × F) →
    Except ApiError (Tree.IncrementalTree × List (Nat × F))
  | [], incremental, leaves => .ok (incremental, leaves)
  | row :: rows, incremental, leaves => do
    let field ← (Tree.fromU256 row.leaf).mapError .internal
    let position := String.ofList row.position.display
    ensure (row.leafIndex = some incremental.nextIndex)
      (.inconsistent s!"allowlist additions are not contiguous at {position}")
    let incremental ← (incremental.push field).mapError .internal
    replayAdditions rows incremental (leaves ++ [(incremental.nextIndex - 1, field)])

def notListed (wanted : Nat) : ApiError :=
  let leaf := Verify.displayU256 wanted
  .notFound s!"{leaf} is not on the allowlist"

def operatorMaintained : ApiError :=
  .conflict ("this allowlist is maintained by its operator since a revocation: its tree is " ++
    "rebuilt off chain, so paths cannot be derived from its events")

/-- `GET /v1/allowlist/leaves/{leaf}/path`. -/
def allowlistPath (db : Database) (contract : Address) (value : String) :
    Except ApiError MerklePath := do
  let wanted ← parseU256 value "leaf"
  let levels ← levels db contract
  let rows := Api.allowlist db contract none none
  ensure (rows.any (fun row => row.kind = .revoked) = false) operatorMaintained
  let incremental ← (Tree.IncrementalTree.new levels).mapError .internal
  let (incremental, leaves) ← replayAdditions rows incremental []
  ensure (rows.getLast?.all (fun last => incremental.root.val = last.root) = true)
    (.inconsistent "replayed allowlist root does not match the last emitted root")
  let index ← okOr ((rows.reverse.find? fun row => row.leaf = wanted).bind (·.leafIndex))
    (notListed wanted)
  let found ← (Tree.path levels leaves index).mapError .internal
  let proof ← okOr found (notListed wanted)
  .ok (merklePath proof (indexedLedger db))

end Routes

/-- **The text the API writes for a value is the text it reads it from.** -/
theorem parseU256_displayU256 {v : Nat} (h : IsU256 v) (what : String) :
    parseU256 (Verify.displayU256 v) what = .ok v := by
  have hstrip : stripHex (Verify.displayU256 v).toList = hexDigits 64 v := by
    rw [Verify.displayU256, String.toList_ofList]
    rfl
  have hdigits : (hexDigits 64 v).length = 64 ∧
      (hexDigits 64 v).all (fun c => (hexValue c).isSome) = true :=
    ⟨length_hexDigits 64 v, List.all_eq_true.mpr fun _ => hexValue_of_mem⟩
  have hlt : v < 16 ^ 64 := h.trans_eq (by norm_num)
  rw [parseU256, hstrip, ensure_pos hdigits, ok_bind, foldl_hexDigits, Nat.mod_eq_of_lt hlt]

/-! ## 2. What the index holds -/

/-- **The index holds the events `stored` of the contract**, as it published them and in the order
of their positions; the typed rows are decoded from them. -/
structure Indexes (db : Database) (contract : Address) (stored : List AspEvent) : Prop where
  sound : db.index.Sound
  events : ∃ emitted : List EmittedEvent,
    (db.index.stored.filter fun e => e.contract = contract).Perm emitted ∧
    emitted.Pairwise (fun a b => a.position < b.position) ∧
    emitted.map (·.raw) = stored.map AspEvent.encode

theorem allowlist_append (first others : List EmittedEvent) :
    (Tables.of (first ++ others)).allowlist =
      (Tables.of first).allowlist ++ (Tables.of others).allowlist :=
  List.flatMap_append

theorem Indexes.storesAllowlist {db : Database} {contract : Address} {emitted : List EmittedEvent}
    (hsound : db.index.Sound)
    (hperm : (db.index.stored.filter fun e => e.contract = contract).Perm emitted)
    (hsorted : emitted.Pairwise fun a b => a.position < b.position) :
    StoresAllowlist db contract (Tables.of emitted).allowlist where
  stored := by
    have hselect : (db.index.tables.allowlist.filter fun r => r.allowlist = contract) =
        (db.index.stored.filter fun e => e.contract = contract).flatMap (·.rows.allowlist) := by
      rw [hsound.tables, Tables.of, List.filter_flatMap,
        ← Paging.flatMap_filter (p := fun e => e.contract = contract)]
      · refine List.flatMap_congr fun e he => ?_
        have he : e.contract = contract := by simpa using (List.mem_filter.mp he).2
        rw [List.filter_eq_self]
        intro r hr
        simpa [(e.rows_origin.2 r hr).2] using he
      · intro e _ he
        rw [List.filter_eq_nil_iff]
        intro r hr
        simpa [(e.rows_origin.2 r hr).2] using he
    rw [hselect]
    exact hperm.flatMap_right _
  sorted := Tables.allowlist_sorted hsorted
  fits := by
    intro r hr
    obtain ⟨e, he, hr⟩ := List.mem_flatMap.mp hr
    have hstored := (List.mem_filter.mp (hperm.symm.subset he)).1
    have htoid := (hsound.storable e hstored).toid
    rw [(EmittedEvent.rows_position e).allowlist r hr]
    unfold i64Max
    omega

/-- Typed events are told by their rows. -/
theorem tells_of_encode : ∀ {stored : List AspEvent} {emitted : List EmittedEvent},
    emitted.map (·.raw) = stored.map AspEvent.encode → (∀ e ∈ stored, e.Typed) →
    Verify.Tells (Tables.of emitted).allowlist stored
  | [], emitted, h, _ => by
    rw [List.map_nil, List.map_eq_nil_iff] at h
    subst h
    rfl
  | event :: stored, emitted, h, ht => by
    rw [List.map_cons, List.map_eq_cons_iff] at h
    obtain ⟨e, emitted, rfl, hraw, h⟩ := h
    have ih := tells_of_encode h fun x hx => ht x (List.mem_cons_of_mem _ hx)
    have hrows : e.rows = event.toVeil.rows e := by
      rw [EmittedEvent.rows, hraw, AspEvent.decode_encode (ht event List.mem_cons_self)]
      rfl
    have hhead : e.rows.allowlist.map (fun r => (r.kind, r.leaf, r.leafIndex, r.root)) =
        [Network.aspColumns event] := by
      rw [hrows]
      cases event <;> rfl
    have hcons : (Tables.of (e :: emitted)).allowlist =
        e.rows.allowlist ++ (Tables.of emitted).allowlist := by
      simp only [Tables.of, List.flatMap_cons]
    unfold Verify.Tells at ih ⊢
    rw [hcons, List.map_append, hhead, ih, List.map_cons, List.singleton_append]

/-- **The rows of the index**: those of the typed events first, then those of the others. -/
theorem Indexes.rows {db : Database} {contract : Address} {typed more : List AspEvent}
    (h : Indexes db contract (typed ++ more)) (ht : ∀ e ∈ typed, e.Typed) :
    ∃ rows rest, StoresAllowlist db contract (rows ++ rest) ∧ Verify.Tells rows typed ∧
      (more = [] → rest = []) := by
  obtain ⟨emitted, hperm, hsorted, hraw⟩ := h.events
  have hstores := Indexes.storesAllowlist h.sound hperm hsorted
  rw [List.map_append, List.map_eq_append_iff] at hraw
  obtain ⟨first, others, rfl, hfirst, hothers⟩ := hraw
  refine ⟨(Tables.of first).allowlist, (Tables.of others).allowlist, ?_,
    tells_of_encode hfirst ht, ?_⟩
  · rwa [allowlist_append] at hstores
  · rintro rfl
    rw [List.map_nil, List.map_eq_nil_iff] at hothers
    rw [hothers]
    rfl

/-- The whole listing, up to the largest limit there is. -/
theorem StoresAllowlist.allowlist_all {db : Database} {contract : Address}
    {changes : List AllowlistRow} (h : StoresAllowlist db contract changes) :
    allowlist db contract none none = changes.take i64Max := by
  unfold allowlist
  dsimp only [Option.elim]
  have hall : changes.filter (fun r => isAfter none r.position) = changes :=
    List.filter_eq_self.mpr fun _ _ => rfl
  rw [h.select none, hall]

/-! ## 3. The replay -/

namespace Routes

theorem replayAdditions_append : ∀ (rows rest : List AllowlistRow) (t : Tree.IncrementalTree)
    (leaves : List (Nat × F)), replayAdditions (rows ++ rest) t leaves =
      (replayAdditions rows t leaves >>= fun r => replayAdditions rest r.1 r.2)
  | [], rest, t, leaves => rfl
  | row :: rows, rest, t, leaves => by
    rw [List.cons_append, replayAdditions, replayAdditions]
    cases (Tree.fromU256 row.leaf).mapError ApiError.internal with
    | error e => rfl
    | ok field =>
      rw [ok_bind, ok_bind]
      dsimp only
      by_cases hindex : row.leafIndex = some t.nextIndex
      · rw [ensure_pos hindex, ok_bind, ok_bind]
        cases (t.push field).mapError ApiError.internal with
        | error e => rfl
        | ok t' => exact replayAdditions_append rows rest t' _
      · rw [ensure_neg hindex]
        rfl

theorem indexed_concat (ls : List F) (x : F) :
    Tree.indexed (ls ++ [x]) = Tree.indexed ls ++ [(ls.length, x)] := by
  simp [Tree.indexed, List.zipIdx_append]

/-- **The additions of a tree filled by insertions replay**: no row is refused, and the tree ends at
the contract's root. -/
theorem replayAdditions_added {L : Nat} {t : Tree.IncrementalTree}
    (h : Tree.IncrementalTree.Replays L [] t) (leaves : List Nat)
    (hfield : ∀ x ∈ leaves, x < bn256Modulus) (hfit : leaves.length ≤ 2 ^ L) :
    ∀ {rows : List AllowlistRow}, Verify.Tells rows (ASPMembership.addedEvents L leaves) →
      ∃ t', replayAdditions rows t [] = .ok (t', Tree.indexed (leaves.map Nat.cast)) ∧
        Tree.IncrementalTree.Replays L (leaves.map Nat.cast) t' := by
  induction leaves using List.reverseRecOn with
  | nil =>
    intro rows htells
    obtain rfl : rows = [] := Verify.Tells.eq_nil htells
    exact ⟨t, rfl, h⟩
  | append_singleton leaves leaf ih =>
    intro rows htells
    rw [ASPMembership.addedEvents_concat] at htells
    obtain ⟨init, row, rfl, hinit, hrow⟩ := htells.concat
    simp only [Network.aspColumns, Prod.mk.injEq] at hrow
    obtain ⟨-, hleaf, hindex, -⟩ := hrow
    rw [List.length_append, List.length_singleton] at hfit
    obtain ⟨t₁, ht₁, h₁⟩ := ih (fun x hx => hfield x (List.mem_append_left _ hx)) (by omega) hinit
    obtain ⟨t₂, ht₂, h₂⟩ := h₁.push (leaf : F) (by simpa using hfit)
    have hcast : (leaves ++ [leaf]).map (Nat.cast : Nat → F) =
        leaves.map Nat.cast ++ [(leaf : F)] := by
      simp
    have hnext : row.leafIndex = some t₁.nextIndex := by
      rw [hindex, h₁.nextIndex, List.length_map]
    refine ⟨t₂, ?_, hcast ▸ h₂⟩
    rw [replayAdditions_append, ht₁, ok_bind, replayAdditions, hleaf,
      Tree.fromU256_of_lt (hfield leaf (by simp))]
    dsimp only [Except.mapError]
    rw [ok_bind, ensure_pos hnext, ok_bind, ht₂, hcast, indexed_concat]
    dsimp only [Except.mapError]
    rw [ok_bind, replayAdditions, h₂.nextIndex, List.length_append, List.length_singleton,
      Nat.add_sub_cancel]

end Routes

/-! ## 4. Members and their paths -/

section Members

variable {L : Nat} {leaves : List Nat}

/-- The events of a tree filled by insertions fit their types. -/
theorem typed_addedEvents (h2 : L ≤ 32) (hfield : ∀ x ∈ leaves, x < bn256Modulus)
    (hfit : leaves.length ≤ 2 ^ L) : ∀ e ∈ ASPMembership.addedEvents L leaves, e.Typed := by
  intro e he
  have hpow : 2 ^ L ≤ 2 ^ 32 := Nat.pow_le_pow_right (by omega) h2
  obtain ⟨⟨leaf, i⟩, hmem, rfl⟩ := List.mem_map.mp he
  have hi : i < leaves.length := by simpa using List.snd_lt_add_of_mem_zipIdx hmem
  refine ⟨Network.lt_two_pow_of_lt (hfield leaf (List.fst_mem_of_mem_zipIdx hmem)), by omega, ?_⟩
  exact Network.lt_two_pow_of_lt (Network.treeRoot_lt fun x hx =>
    hfield x (List.mem_of_mem_take hx))

/-- A row of such a tree is an addition, at the position of its leaf. -/
theorem row_added {rows : List AllowlistRow}
    (h : Verify.Tells rows (ASPMembership.addedEvents L leaves)) {row : AllowlistRow}
    (hrow : row ∈ rows) :
    row.kind = .added ∧ ∃ i, row.leafIndex = some i ∧ leaves[i]? = some row.leaf := by
  have hmem := List.mem_map_of_mem (f := fun r : AllowlistRow =>
    (r.kind, r.leaf, r.leafIndex, r.root)) hrow
  rw [h] at hmem
  obtain ⟨e, he, hcolumns⟩ := List.mem_map.mp hmem
  obtain ⟨⟨leaf, i⟩, hleaf, rfl⟩ := List.mem_map.mp he
  simp only [Network.aspColumns, Prod.mk.injEq] at hcolumns
  obtain ⟨hkind, hleafEq, hindex, -⟩ := hcolumns
  exact ⟨hkind.symm, i, hindex.symm, hleafEq ▸ List.mem_zipIdx_iff_getElem?.mp hleaf⟩

theorem exists_row {rows : List AllowlistRow}
    (h : Verify.Tells rows (ASPMembership.addedEvents L leaves)) {leaf : Nat}
    (hleaf : leaf ∈ leaves) : ∃ row ∈ rows, row.leaf = leaf := by
  obtain ⟨i, hi, hget⟩ := List.mem_iff_getElem.mp hleaf
  have hevent : .leafAdded leaf i (treeRoot L (leaves.take (i + 1))) ∈
      ASPMembership.addedEvents L leaves :=
    List.mem_map.mpr ⟨(leaf, i), by simp [List.mem_zipIdx_iff_getElem?, hi, hget], rfl⟩
  have hmem := List.mem_map_of_mem (f := Network.aspColumns) hevent
  rw [← h] at hmem
  obtain ⟨row, hrow, hcolumns⟩ := List.mem_map.mp hmem
  exact ⟨row, hrow, congrArg (fun c => c.2.1) hcolumns⟩

theorem mem_leaves_iff (L : Nat) (leaves : List Nat) (leaf : Nat) :
    (∃ index root, .leafAdded leaf index root ∈ ASPMembership.addedEvents L leaves) ↔
      leaf ∈ leaves := by
  constructor
  · rintro ⟨index, root, h⟩
    obtain ⟨⟨x, i⟩, hx, heq⟩ := List.mem_map.mp h
    obtain ⟨rfl, -, -⟩ := AspEvent.leafAdded.inj heq
    exact List.fst_mem_of_mem_zipIdx hx
  · intro h
    obtain ⟨i, hi, hget⟩ := List.mem_iff_getElem.mp h
    exact ⟨i, _, List.mem_map.mpr
      ⟨(leaf, i), by simp [List.mem_zipIdx_iff_getElem?, hi, hget], rfl⟩⟩

variable {db : Database} {contract : Address} {rows : List AllowlistRow} {value : String} {v : Nat}

/-- **Before a revocation**: the handler gets to the look-up, with the contract's leaves and
root. -/
theorem allowlistPath_added (h1 : 1 ≤ L) (h2 : L ≤ 32) (hfield : ∀ x ∈ leaves, x < bn256Modulus)
    (hfit : leaves.length ≤ 2 ^ L) (hlevels : levels db contract = .ok L)
    (hstores : StoresAllowlist db contract rows)
    (htells : Verify.Tells rows (ASPMembership.addedEvents L leaves))
    (hparse : parseU256 value "leaf" = .ok v) :
    Routes.allowlistPath db contract value = (do
      let index ← okOr ((rows.reverse.find? fun row => row.leaf = v).bind (·.leafIndex))
        (Routes.notListed v)
      let found ← (Tree.path L (Tree.indexed (leaves.map Nat.cast)) index).mapError .internal
      let proof ← okOr found (Routes.notListed v)
      .ok (merklePath proof (indexedLedger db))) := by
  have hpow : 2 ^ L ≤ 2 ^ 32 := Nat.pow_le_pow_right (by omega) h2
  have hlen : rows.length ≤ i64Max := by
    have := congrArg List.length htells
    simp only [ASPMembership.addedEvents, List.length_map, List.length_zipIdx] at this
    unfold i64Max
    omega
  have hquery : Api.allowlist db contract none none = rows := by
    rw [hstores.allowlist_all, List.take_of_length_le hlen]
  have hopen : rows.any (fun row => row.kind = .revoked) = false := by
    rw [List.any_eq_false]
    intro row hrow
    simp [(row_added htells hrow).1]
  obtain ⟨t, ht, hreplays⟩ := Tree.IncrementalTree.replays_new h1 h2
  obtain ⟨t', ht', hreplays'⟩ := Routes.replayAdditions_added hreplays leaves hfield hfit htells
  have hroot : rows.getLast?.all (fun last => t'.root.val = last.root) = true := by
    cases hlast : rows.getLast? with
    | none => rfl
    | some last =>
      have hannounced := ASPMembership.announcedRoot_addedEvents L leaves
      rw [ASPMembership.announcedRoot, ← htells.last_root, hlast, Option.map_some,
        Option.getD_some] at hannounced
      rw [Option.all_some, decide_eq_true_eq, hannounced, hreplays'.root, treeRoot_eq_val hfield]
  unfold Routes.allowlistPath
  rw [hparse, ok_bind, hlevels, ok_bind]
  dsimp only
  rw [hquery, ensure_pos hopen, ok_bind, ht]
  dsimp only [Except.mapError]
  rw [ok_bind, ht', ok_bind]
  dsimp only
  rw [ensure_pos hroot, ok_bind]

/-- A member's path is served, at the position of one of its additions. -/
theorem allowlistPath_member (lib : Circuit.Circomlib) (h1 : 1 ≤ L) (h2 : L ≤ 32)
    (hfield : ∀ x ∈ leaves, x < bn256Modulus) (hfit : leaves.length ≤ 2 ^ L)
    (hlevels : levels db contract = .ok L) (hstores : StoresAllowlist db contract rows)
    (htells : Verify.Tells rows (ASPMembership.addedEvents L leaves))
    (hparse : parseU256 value "leaf" = .ok v) (hmember : v ∈ leaves) :
    ∃ proof, Routes.allowlistPath db contract value = .ok (merklePath proof (indexedLedger db)) ∧
      proof.leaf.val = v ∧ proof.siblings.length = L ∧ proof.root.val = treeRoot L leaves ∧
      proof.computedRoot = proof.root ∧
      ∀ out, Circuit.merkleProof lib L proof.leaf proof.siblings proof.pathIndices out ↔
        out = proof.root := by
  have hpath := allowlistPath_added h1 h2 hfield hfit hlevels hstores htells hparse
  obtain ⟨found, hfound⟩ : ∃ found, rows.reverse.find? (fun row => row.leaf = v) = some found := by
    obtain ⟨row, hrow, hleaf⟩ := exists_row htells hmember
    rw [← Option.isSome_iff_exists, List.find?_isSome]
    exact ⟨row, List.mem_reverse.mpr hrow, by simpa using hleaf⟩
  have hleaf : found.leaf = v := by simpa using List.find?_some hfound
  have hrow := List.mem_reverse.mp (List.mem_of_find?_eq_some hfound)
  obtain ⟨-, i, hindex, hget⟩ := row_added htells hrow
  rw [hleaf] at hget
  have hmem : (i, (v : F)) ∈ Tree.indexed (leaves.map Nat.cast) := by
    refine List.mem_map.mpr ⟨((v : F), i), ?_, rfl⟩
    rw [List.mem_zipIdx_iff_getElem?, List.getElem?_map, hget]
    rfl
  have hfits : Tree.Fits L (Tree.indexed (leaves.map Nat.cast)) := by
    refine ⟨fun p hp => ?_, Tree.nodup_fst_indexed _⟩
    have := List.mem_map_of_mem (f := Prod.fst) hp
    rw [Tree.map_fst_indexed, List.mem_range, List.length_map] at this
    omega
  obtain ⟨proof, hproof, hpleaf, hlen, hroot, hfold, hcircuit, -⟩ :=
    Tree.path_of_mem lib h1 h2 hfits hmem
  refine ⟨proof, ?_, ?_, hlen, ?_, hfold, hcircuit⟩
  · rw [hpath, hfound, Option.bind_some, hindex, okOr_some, ok_bind, hproof]
    rfl
  · rw [hpleaf, ZMod.val_natCast_of_lt (hfield v hmember)]
  · rw [hroot, Tree.leafAt_indexed, treeRoot_eq_val hfield]
    rfl

theorem allowlistPath_stranger (h1 : 1 ≤ L) (h2 : L ≤ 32) (hfield : ∀ x ∈ leaves, x < bn256Modulus)
    (hfit : leaves.length ≤ 2 ^ L) (hlevels : levels db contract = .ok L)
    (hstores : StoresAllowlist db contract rows)
    (htells : Verify.Tells rows (ASPMembership.addedEvents L leaves))
    (hparse : parseU256 value "leaf" = .ok v) (hstranger : v ∉ leaves) :
    Routes.allowlistPath db contract value = .error (Routes.notListed v) := by
  have hpath := allowlistPath_added h1 h2 hfield hfit hlevels hstores htells hparse
  have hnone : rows.reverse.find? (fun row => row.leaf = v) = none := by
    rw [List.find?_eq_none]
    intro row hrow hleaf
    obtain ⟨-, i, -, hget⟩ := row_added htells (List.mem_reverse.mp hrow)
    have hleaf : row.leaf = v := by simpa using hleaf
    exact hstranger (hleaf ▸ List.mem_of_getElem? hget)
  rw [hpath, hnone]
  rfl

/-- **After a revocation** there is no path for anyone.  The revocation comes right after the
insertions, so it is among the rows the query returns however many come later. -/
theorem allowlistPath_revoked {leaf root : Nat} {rest : List AllowlistRow} (h2 : L ≤ 32)
    (hfit : leaves.length ≤ 2 ^ L) (hlevels : levels db contract = .ok L)
    (hstores : StoresAllowlist db contract (rows ++ rest))
    (htells : Verify.Tells rows (ASPMembership.addedEvents L leaves ++ [.leafRevoked leaf root]))
    (hparse : parseU256 value "leaf" = .ok v) :
    Routes.allowlistPath db contract value = .error Routes.operatorMaintained := by
  have hpow : 2 ^ L ≤ 2 ^ 32 := Nat.pow_le_pow_right (by omega) h2
  have hlen : rows.length ≤ i64Max := by
    have := congrArg List.length htells
    simp only [ASPMembership.addedEvents, List.length_map, List.length_append,
      List.length_zipIdx, List.length_singleton] at this
    unfold i64Max
    omega
  have hrevoked : ¬(Api.allowlist db contract none none).any (fun row => row.kind = .revoked) =
      false := by
    obtain ⟨init, last, rfl, -, hlast⟩ := htells.split
    obtain ⟨row, others, rfl, hrow, -⟩ := hlast.cons
    have hkind : row.kind = .revoked := congrArg Prod.fst hrow
    rw [hstores.allowlist_all, List.take_append, List.take_of_length_le hlen,
      Bool.not_eq_false, List.any_eq_true]
    exact ⟨row, by simp, by simpa using hkind⟩
  unfold Routes.allowlistPath
  rw [hparse, ok_bind, hlevels, ok_bind]
  dsimp only
  rw [ensure_neg hrevoked]
  rfl

end Members

/-- **Allowlist paths are served exactly to members.**  The index holds a beginning `stored` of the
contract's events, which was all of them after the first calls `first`, and the depth is recorded.

* If nothing is revoked in it, then for every value the handler serves a path exactly if the value
  was inserted; the path starts at the value, folds to its root, satisfies `MerkleProof`, and its
  root is the one the contract held then.  Otherwise the value is not found; there is no internal
  error.
* If something is, the answer is a conflict for every value. -/
theorem paths_served_to_members (lib : Circuit.Circomlib) {L : Nat} (h1 : 1 ≤ L) (h2 : L ≤ 32)
    {admin : Address} {s0 : AspState} (h0 : ASPMembership.constructor admin L = .ok s0)
    (calls : List ASPMembership.Invocation) {stored : List AspEvent}
    (hstored : stored <+: (run ASPMembership.exec calls s0).events) {db : Database}
    {contract : Address} (hdb : Indexes db contract stored) {state : VerifiedState}
    (hstate : db.verifiedState contract = some state) (hlevels : state.levels = L) :
    (∀ v, IsU256 v → parseU256 (Verify.displayU256 v) "leaf" = .ok v) ∧
    (∃ first, first <+: calls ∧ (run ASPMembership.exec first s0).events = stored) ∧
    ((∀ leaf root, .leafRevoked leaf root ∉ stored) →
      ∀ value v, parseU256 value "leaf" = .ok v →
        ((∃ path, Routes.allowlistPath db contract value = .ok path) ↔
          ∃ index root, .leafAdded v index root ∈ stored) ∧
        (∀ path, Routes.allowlistPath db contract value = .ok path →
          ∃ proof, path = merklePath proof (indexedLedger db) ∧ proof.leaf.val = v ∧
            proof.siblings.length = L ∧ proof.computedRoot = proof.root ∧
            (∀ out, Circuit.merkleProof lib L proof.leaf proof.siblings proof.pathIndices out ↔
              out = proof.root) ∧
            ∀ first, first <+: calls → (run ASPMembership.exec first s0).events = stored →
              (run ASPMembership.exec first s0).root = some proof.root.val) ∧
        ∀ error, Routes.allowlistPath db contract value = .error error →
          error = Routes.notListed v) ∧
    ∀ leaf root, .leafRevoked leaf root ∈ stored → ∀ value v, parseU256 value "leaf" = .ok v →
      Routes.allowlistPath db contract value = .error Routes.operatorMaintained := by
  obtain ⟨s1, hs1, -, hnone, -⟩ := ASPMembership.maintains_constructor admin h1 h2
  obtain rfl : s1 = s0 := Except.ok.inj (hs1.symm.trans h0)
  have hdepth : levels db contract = .ok L := by
    rw [levels, onChain, hstate, ← hlevels]
    rfl
  obtain ⟨leaves, rest, rfl, hfield, hfit, hrest⟩ :=
    (ASPMembership.announced_run h1 h2 h0 calls).initial hstored
  have htyped := typed_addedEvents h2 hfield hfit
  refine ⟨fun v hv => parseU256_displayU256 hv "leaf",
    ASPMembership.exists_run_events hnone hstored, fun hopen value v hparse => ?_,
    fun leaf root hrevoked value v hparse => ?_⟩
  · obtain rfl : rest = [] := by
      rcases hrest with rfl | ⟨leaf, root, more, rfl⟩
      · rfl
      · exact absurd (List.mem_append_right _ List.mem_cons_self) (hopen leaf root)
    obtain ⟨rows, others, hstores, htells, hothers⟩ := hdb.rows htyped
    rw [hothers rfl, List.append_nil] at hstores
    rw [List.append_nil]
    by_cases hmember : v ∈ leaves
    · obtain ⟨proof, hpath, hleaf, hlen, hroot, hfold, hcircuit⟩ := allowlistPath_member lib h1 h2
        hfield hfit hdepth hstores htells hparse hmember
      rw [hpath]
      refine ⟨⟨fun _ => (mem_leaves_iff L leaves v).mpr hmember, fun _ => ⟨_, rfl⟩⟩,
        fun path heq => ⟨proof, (Except.ok.inj heq).symm, hleaf, hlen, hfold, hcircuit, ?_⟩,
        fun error heq => by cases heq⟩
      -- the contract's root is the one its events announce
      intro first _ hevents
      rw [(ASPMembership.phases_run h1 h2 h0 first).root_eq, hevents,
        ASPMembership.announcedRoot_addedEvents, hroot]
    · rw [allowlistPath_stranger h1 h2 hfield hfit hdepth hstores htells hparse hmember]
      refine ⟨⟨?_, fun hlisted => ?_⟩, fun path heq => ?_, fun error heq => ?_⟩
      · rintro ⟨path, heq⟩
        cases heq
      · exact absurd ((mem_leaves_iff L leaves v).mp hlisted) hmember
      · cases heq
      · exact (Except.error.inj heq).symm
  · rcases hrest with rfl | ⟨leaf', root', more, rfl⟩
    · rw [List.append_nil] at hrevoked
      obtain ⟨⟨x, i⟩, -, heq⟩ := List.mem_map.mp hrevoked
      cases heq
    · have hfirst : .leafRevoked leaf' root' ∈ (run ASPMembership.exec calls s1).events :=
        hstored.subset (List.mem_append_right _ List.mem_cons_self)
      obtain ⟨hleaf', hroot'⟩ := ASPMembership.revoked_lt hnone calls leaf' root' hfirst
      rw [← List.singleton_append, ← List.append_assoc] at hdb
      obtain ⟨rows, others, hstores, htells, -⟩ := hdb.rows fun e he => by
        rcases List.mem_append.mp he with he | he
        · exact htyped e he
        · obtain rfl := List.mem_singleton.mp he
          exact ⟨Network.lt_two_pow_of_lt hleaf', Network.lt_two_pow_of_lt hroot'⟩
      exact allowlistPath_revoked h2 hfit hdepth hstores htells hparse

/-- The first insertion into a tree of two leaves. -/
def memberEvents : List AspEvent := ASPMembership.addedEvents 1 [5]

def memberEmitted : List EmittedEvent :=
  memberEvents.map fun event => ⟨.firstOperation 1 0, .contract 2, event.encode⟩

/-- The index after it. -/
def memberDb : Database where
  index :=
    { events := memberEmitted.map fun e => ⟨e, 1, .rpc, "LeafAdded"⟩
      tables := Tables.of memberEmitted
      checkpoint := fun _ => none }
  verifiedState := fun _ => some ⟨1, 1, 1, treeRoot 1 [5], false, true⟩

theorem indexes_member : Indexes memberDb (.contract 2) memberEvents where
  sound :=
    { once := List.nodup_singleton _
      storable := fun e he => by
        obtain rfl := List.mem_singleton.mp he
        exact ⟨by decide, by decide, by decide, rfl⟩
      tables := rfl }
  events := ⟨memberEmitted, List.Perm.of_eq rfl, List.pairwise_singleton _ _, rfl⟩

/-- The member gets its path, and the next leaf does not. -/
theorem paths_served_to_members_first :
    (∃ path, Routes.allowlistPath memberDb (.contract 2) (Verify.displayU256 5) = .ok path) ∧
      ¬∃ path, Routes.allowlistPath memberDb (.contract 2) (Verify.displayU256 6) = .ok path := by
  obtain ⟨s0, h0, hm, hnone, hadmin⟩ := ASPMembership.maintains_constructor (.account 1) (L := 1)
    (by decide) (by decide)
  have hauth : ASPMembership.authorizeInsert (fun _ => true) s0 = .ok () := by
    unfold ASPMembership.authorizeInsert
    rw [hadmin]
    split <;> rfl
  have hleaf : 5 < bn256Modulus := by decide
  obtain ⟨s1, hs1, -, hevents, -⟩ := hm.insertLeaf hleaf (by decide) hauth
  have hrun : (run ASPMembership.exec [⟨.insertLeaf 5, fun _ => true⟩] s0).events =
      memberEvents := by
    have hexec : ASPMembership.exec ⟨.insertLeaf 5, fun _ => true⟩ s0 = .ok s1 := hs1
    rw [run_cons, hexec, commit_ok, run_nil, hevents, hnone]
    rfl
  obtain ⟨hdisplay, -, hopen, -⟩ := paths_served_to_members Circuit.Circomlib.standard (by decide)
    (by decide) h0 [⟨.insertLeaf 5, fun _ => true⟩] (hrun ▸ List.prefix_rfl) indexes_member
    rfl rfl
  have hnever : ∀ leaf root, AspEvent.leafRevoked leaf root ∉ memberEvents := by
    simp [memberEvents, ASPMembership.addedEvents]
  refine ⟨((hopen hnever _ 5 (hdisplay 5 (by decide))).1).mpr ⟨0, _, List.mem_cons_self⟩, ?_⟩
  rw [(hopen hnever _ 6 (hdisplay 6 (by decide))).1]
  simp [memberEvents, ASPMembership.addedEvents]

end Api

end Veil
