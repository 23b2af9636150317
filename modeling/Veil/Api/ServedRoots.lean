/-
# Which roots the API serves

`pool_state` and `pool_path` rebuild the tree from every stored commitment, up to the cursor and not
up to `indexed_ledger`.  The pool inserts two leaves in one transaction and announces them in two
events.  A page ends where its limit says, so the cursor may come to lie between the two, and the
tree then has a number of leaves the pool never had.

Everything is decided by one number, how many leaves the cursor has passed:

* the roots the pool held are those of its first `0, 2, 4, ..` leaves (`rootHeld_iff`);
* the root served is that of the leaves passed, however many (`serves_root`);
* their number is odd exactly if the cursor cuts a transaction in two (`cutsTransact_iff`).

That roots of different numbers of leaves differ is the hash's part (`Merkle.fullRoot_take_inj`).
-/
import Veil.Indexer.Following
import Veil.Indexer.Progress
import Veil.Merkle.Binding

namespace Veil

open Tx

/-! ## 1. The roots the pool held -/

namespace Network

variable {ρ : Type} {c : Contracts} {L M : Nat} {calls : List (Sent ρ)} {n n' : Network ρ}

/-- The pool's `get_root` returned `root` after some of the calls. -/
def RootHeld (calls : List (Sent ρ)) (n : Network ρ) (root : Nat) : Prop :=
  ∃ k, Pool.getRoot (run exec (calls.take k) n).pool.pool = .ok root

theorem Announces.getRoot {sent : List (Sent ρ)} (h : Announces c L M sent n) :
    Pool.getRoot n.pool.pool = .ok (treeRoot L n.leaves) := by
  rw [Pool.getRoot, h.holds.getLastRoot]
  rfl

/-- **One accepted call** adds two leaves or none. -/
theorem Announces.leaves_exec {log : List (Sent ρ)} {sent : Sent ρ} (h : Announces c L M log n)
    (hosted : sent.call.Hosted c) (hok : Network.exec sent n = .ok n') :
    n'.leaves = n.leaves ∨ ∃ a b, n'.leaves = n.leaves ++ [a, b] := by
  obtain ⟨settled, hreplay⟩ := h.replayable
  rcases exec_cases hok with ⟨entry, env, hcall, henv, hn'⟩ | ⟨i, s, -, -, rfl⟩
  · rw [hcall] at hosted
    have hafter : Pool.Replayable L (settled ++ entry.settled) n'.pool := by
      rw [hn']
      exact hreplay.exec hosted.quiet henv
    rw [leaves_eq hafter, leaves_eq hreplay, Pool.outputs_append]
    cases entry with
    | request r ext =>
      cases hexit : r.isExit with
      | true => exact .inl (by simp [Pool.Entry.settled, Pool.outputs, Pool.Settled.outputs, hexit])
      | false =>
        exact .inr ⟨r.proof.outputCommitment0, r.proof.outputCommitment1, by
          simp [Pool.Entry.settled, Pool.outputs, Pool.Settled.outputs, hexit]⟩
    | _ => exact .inl (by simp [Pool.Entry.settled, Pool.outputs])
  · exact .inl rfl

/-- **Every run** passes each even number of leaves on its way, and no other. -/
theorem Fresh.leaves_run (hfresh : Fresh L M n) : ∀ (calls : List (Sent ρ)),
    (∀ x ∈ calls, x.call.Hosted c) →
    (∀ k, ∃ m, 2 * m ≤ (run exec calls n).leaves.length ∧
      (run exec (calls.take k) n).leaves = (run exec calls n).leaves.take (2 * m)) ∧
    ∀ m, 2 * m ≤ (run exec calls n).leaves.length → ∃ k,
      (run exec (calls.take k) n).leaves = (run exec calls n).leaves.take (2 * m) := by
  intro calls
  induction calls using List.reverseRecOn with
  | nil =>
    intro _
    have hnone : n.leaves = [] := by simp [leaves, hfresh.events]
    refine ⟨fun k => ⟨0, by simp, by simp [hnone]⟩, fun m hm => ⟨0, ?_⟩⟩
    simp [hnone]
  | append_singleton calls x ih =>
    intro hosted
    obtain ⟨hpasses, hreached⟩ := ih fun y hy => hosted y (List.mem_append_left _ hy)
    have hann := hfresh.announces_run fun y hy => hosted y (List.mem_append_left _ hy)
    have hlast := hfresh.announces_run hosted
    have heven := hlast.holds.even
    have htake : ∀ k ≤ calls.length, (calls ++ [x]).take k = calls.take k := fun k hk =>
      List.take_append_of_le_length hk
    have hfull : ∀ k, calls.length < k → (calls ++ [x]).take k = calls ++ [x] := fun k hk =>
      List.take_of_length_le (by simpa using hk)
    -- the last call adds at most two leaves to those of the calls before it
    have hgrow : ∃ new, (run exec (calls ++ [x]) n).leaves = (run exec calls n).leaves ++ new ∧
        new.length ≤ 2 := by
      rw [run_concat]
      cases hr : exec x (run exec calls n) with
      | error e => exact ⟨[], by simp, by simp⟩
      | ok n' =>
        rcases hann.leaves_exec (hosted x (by simp)) hr with hsame | ⟨a, b, htwo⟩
        · exact ⟨[], by simpa using hsame, by simp⟩
        · exact ⟨[a, b], htwo, by simp⟩
    obtain ⟨new, hnew, htwo⟩ := hgrow
    have hlen := congrArg List.length hnew
    rw [List.length_append] at hlen
    constructor
    · intro k
      rcases Nat.lt_or_ge calls.length k with hk | hk
      · refine ⟨(run exec (calls ++ [x]) n).leaves.length / 2, by omega, ?_⟩
        rw [hfull k hk, List.take_of_length_le (by omega)]
      · obtain ⟨m, hm, heq⟩ := hpasses k
        refine ⟨m, by omega, ?_⟩
        rw [htake k hk, heq, hnew, List.take_append_of_le_length hm]
    · intro m hm
      rcases Nat.lt_or_ge (run exec calls n).leaves.length (2 * m) with hmore | hold
      · have heven' := hann.holds.even
        refine ⟨calls.length + 1, ?_⟩
        rw [hfull _ (by omega), List.take_of_length_le (by omega)]
      · obtain ⟨k, hk⟩ := hreached m hold
        refine ⟨min k calls.length, ?_⟩
        rw [htake _ (by omega), hnew, List.take_append_of_le_length hold, ← hk]
        congr 2
        rcases Nat.le_total k calls.length with h | h
        · rw [Nat.min_eq_left h]
        · rw [Nat.min_eq_right h, List.take_length, List.take_of_length_le h]

/-- **The roots the pool held** are those of its first `0, 2, 4, ..` leaves. -/
theorem Fresh.rootHeld_iff (hfresh : Fresh L M n) (hosted : ∀ x ∈ calls, x.call.Hosted c)
    {root : Nat} : RootHeld calls n root ↔ ∃ m, 2 * m ≤ (run exec calls n).leaves.length ∧
      root = treeRoot L ((run exec calls n).leaves.take (2 * m)) := by
  obtain ⟨hpasses, hreached⟩ := hfresh.leaves_run calls hosted
  have hroot : ∀ k, Pool.getRoot (run exec (calls.take k) n).pool.pool =
      .ok (treeRoot L (run exec (calls.take k) n).leaves) := fun k =>
    (hfresh.announces_run fun x hx => hosted x (List.mem_of_mem_take hx)).getRoot
  constructor
  · rintro ⟨k, hk⟩
    obtain ⟨m, hm, heq⟩ := hpasses k
    refine ⟨m, hm, ?_⟩
    rw [← heq]
    exact Except.ok.inj (hk.symm.trans (hroot k))
  · rintro ⟨m, hm, rfl⟩
    obtain ⟨k, hk⟩ := hreached m hm
    exact ⟨k, by rw [hroot k, hk]⟩

end Network

/-! ## 2. The root served -/

namespace Api

variable {db : Database} {pool : Address} {ls : List Nat}

theorem asTree_of_lt : ∀ {leaves : List PoolLeaf}, (∀ l ∈ leaves, l.value < bn256Modulus) →
    asTree leaves = .ok (leaves.map fun l => (l.index, (l.value : F)))
  | [], _ => rfl
  | l :: leaves, h => by
    have ih := asTree_of_lt fun x hx => h x (List.mem_cons_of_mem _ hx)
    rw [asTree, Tree.fromU256_of_lt (h l List.mem_cons_self), ih]
    rfl

/-- Both handlers build the tree of the stored leaves. -/
theorem asTree_poolLeaves (h : Network.StoresLeaves pool ls db.index.tables.commitments)
    (hfield : ∀ x ∈ ls, x < bn256Modulus) (hlen : ls.length ≤ i64Max) :
    ∃ tree, asTree (poolLeaves db pool 0 none) = .ok tree ∧
      tree.Perm (Tree.indexed (ls.map Nat.cast)) := by
  set rows := db.index.tables.commitments.insertionSort fun r t => r.leafIndex ≤ t.leafIndex
    with hrows
  have hstored : Network.StoresLeaves pool ls rows := h.of_perm (List.perm_insertionSort _ _)
  have hcount : rows.length = ls.length := by
    have := hstored.length_eq
    simpa using this
  -- nothing is filtered out and nothing is cut
  have hselected : (db.index.tables.commitments.filter fun r =>
      r.pool = pool ∧ r.leafIndex ≥ min (0 - 1) i64Max) = db.index.tables.commitments := by
    rw [List.filter_eq_self]
    intro r hr
    simpa using (h.mem hr).1
  have hleaves : poolLeaves db pool 0 none =
      rows.map fun r => ⟨r.leafIndex, r.commitment, "transact", r.ledger⟩ := by
    unfold poolLeaves
    dsimp only [Option.elim]
    rw [hselected, ← hrows, List.take_of_length_le (by omega), List.filter_eq_self.mpr (by simp),
      List.map_eq_flatMap]
    refine List.flatMap_congr fun r hr => ?_
    rw [rowLeaves, if_neg (by simp [(hstored.mem hr).2.1])]
  have hlt : ∀ l ∈ poolLeaves db pool 0 none, l.value < bn256Modulus := by
    rw [hleaves]
    intro l hl
    obtain ⟨r, hr, rfl⟩ := List.mem_map.mp hl
    exact hfield _ (hstored.mem hr).2.2
  refine ⟨_, asTree_of_lt hlt, ?_⟩
  rw [hleaves, List.map_map]
  exact hstored.indexed

variable {L : Nat} {v : VerifiedState}

/-- **The root served** is that of the stored leaves, by `pool_state` and for every stored leaf by
`pool_path`. -/
theorem serves_root (db : Database) (h1 : 1 ≤ L) (h2 : L ≤ 32) (hv : db.verifiedState pool = some v)
    (hlevels : v.levels = L) (h : Network.StoresLeaves pool ls db.index.tables.commitments)
    (hfield : ∀ x ∈ ls, x < bn256Modulus) (hfit : ls.length ≤ 2 ^ L) :
    (∃ state, poolState db pool = .ok state ∧
      state.root = Verify.displayU256 (treeRoot L ls)) ∧
    ∀ row ∈ db.index.tables.commitments, ∃ path, poolPath db pool row.leafIndex = .ok path ∧
      path.leafIndex = row.leafIndex ∧ path.root = Verify.displayU256 (treeRoot L ls) := by
  have hpow : 2 ^ L ≤ 2 ^ 32 := Nat.pow_le_pow_right (by omega) h2
  obtain ⟨tree, htree, hperm⟩ := asTree_poolLeaves h hfield (by unfold i64Max; omega)
  have hdepth : levels db pool = .ok L := by
    rw [levels, onChain, hv, ← hlevels]
    rfl
  have hfit' : (ls.map (Nat.cast : Nat → F)).length ≤ 2 ^ L := by simpa using hfit
  have hfst := hperm.map Prod.fst
  rw [Tree.map_fst_indexed, List.length_map] at hfst
  constructor
  · refine ⟨_, by
      rw [poolState, hdepth, ok_bind]
      dsimp only
      rw [htree, ok_bind, Tree.root_of_perm h1 h2 hperm hfit']
      rfl, ?_⟩
    rw [treeRoot_eq_val hfield]
  · intro row hrow
    have hindex : row.leafIndex ∈ List.range ls.length :=
      h.leafIndices.subset (List.mem_map_of_mem hrow)
    have hlt : ∀ p ∈ tree, p.1 < 2 ^ L := fun p hp =>
      (List.mem_range.mp (hfst.subset (List.mem_map_of_mem hp))).trans_le hfit
    have hnd : (tree.map Prod.fst).Nodup := hfst.nodup_iff.mpr List.nodup_range
    obtain ⟨found, hpath, hsome, hfound⟩ := Tree.path_eq h1 h2 hlt hnd row.leafIndex
    have hstored : (tree.lookup row.leafIndex).isSome = true :=
      Assoc.isSome_lookup_iff.mpr (hfst.symm.subset hindex)
    rw [← hsome] at hstored
    obtain ⟨proof, rfl⟩ := Option.isSome_iff_exists.mp hstored
    obtain ⟨hi, -, hroot⟩ := hfound proof rfl
    refine ⟨_, by
      rw [poolPath, hdepth, ok_bind]
      dsimp only
      rw [htree, ok_bind, hpath]
      rfl, hi, ?_⟩
    rw [merklePath, hroot, Tree.leafAt_of_perm hperm, treeRoot_eq_val hfield]
    rfl

end Api

/-! ## 3. What the cursor has passed -/

/-- What is selected from a sorted list by a downward closed condition is its beginning. -/
theorem filter_prefix_of_closed {α : Type} {R : α → α → Prop} {p : α → Bool}
    (hclosed : ∀ a b, R a b → p b = true → p a = true) :
    ∀ {l : List α}, l.Pairwise R → l.filter p <+: l
  | [], _ => List.prefix_rfl
  | a :: l, h => by
    rw [List.pairwise_cons] at h
    cases hp : p a with
    | true =>
      rw [List.filter_cons_of_pos hp, List.prefix_cons_inj]
      exact filter_prefix_of_closed hclosed h.2
    | false =>
      have hnone : l.filter p = [] := by
        rw [List.filter_eq_nil_iff]
        intro b hb hpb
        rw [hclosed a b (h.1 b hb) hpb] at hp
        cases hp
      rw [List.filter_cons_of_neg (by simp [hp]), hnone]
      exact List.nil_prefix

namespace Network

variable {ρ : Type} {c : Contracts} {L M : Nat} {n : Network ρ} {sent : List (Sent ρ)}
  {events first : List EmittedEvent}

/-- The leaves announced by the first events are the first leaves. -/
theorem Announces.storesLeaves_first (h : Announces c L M sent n) (hplaces : Places c n.log events)
    (hfirst : first <+: events) :
    StoresLeaves c.pool (n.leaves.take (Tables.of first).commitments.length)
      (Tables.of first).commitments := by
  rw [List.prefix_iff_eq_take] at hfirst
  have hplaced := List.forall₂_take first.length hplaces
  rw [← hfirst] at hplaced
  have hcolumns := Places.commitments hplaced fun x hx => h.fits x (List.mem_of_mem_take hx)
  have hbegin : ((n.log.take first.length).filterMap (·.2.pool?)).filterMap PoolEvent.leaf? <+:
      n.leaves.zipIdx.map Prod.swap := by
    rw [← h.leaf_events, ← h.pool]
    exact ((List.take_prefix _ _).filterMap _).filterMap _
  have hlen := congrArg List.length hcolumns
  rw [List.length_map, List.length_map] at hlen
  have htake : ∀ k, n.leaves.zipIdx.take k = (n.leaves.take k).zipIdx := fun k =>
    List.ext_getElem (by simp) fun i _ _ => by simp
  rw [List.prefix_iff_eq_take.mp hbegin, ← hlen, ← List.map_take, htake] at hcolumns
  exact List.Perm.of_eq hcolumns

end Network

namespace Following

open Network

variable {ρ : Type} {c : Contracts} {L M s : Nat} {n : Network ρ} {sent : List (Sent ρ)} {w : World}

/-- How many leaves the cursor has passed. -/
def leavesPassed (s : Nat) (w : World) : Nat :=
  (Tables.of (w.history.events.filter (covered s w))).commitments.length

/-- The stored cursor lies between the events of the two leaves of one `transact`. -/
def CutsTransact (w : World) : Prop :=
  ∃ checkpoint, w.store.checkpoint .rpc = some checkpoint ∧
    ∃ first ∈ w.history.events, ∃ second ∈ w.history.events,
      ∃ r ∈ first.rows.commitments, ∃ t ∈ second.rows.commitments,
        r.leafIndex % 2 = 0 ∧ t.leafIndex = r.leafIndex + 1 ∧
          first.position ≤ checkpoint.cursor ∧ checkpoint.cursor < second.position

/-- A follower that starts at or before the first event has passed a beginning of the list. -/
theorem covered_initial (hstart : ∀ e ∈ w.history.events, s ≤ e.position.ledger) :
    w.history.events.filter (covered s w) <+: w.history.events := by
  have hsorted : w.history.events.Pairwise fun a b => a.position < b.position ∧
      s ≤ a.position.ledger := by
    rw [List.pairwise_iff_forall_sublist]
    intro a b hab
    exact ⟨List.pairwise_iff_forall_sublist.mp w.history.sorted hab,
      hstart a (hab.subset List.mem_cons_self)⟩
  refine filter_prefix_of_closed (fun a b hab hb => ?_) hsorted
  cases hc : w.store.checkpoint .rpc with
  | none =>
    rw [covered_of_none hc] at hb
    cases hb
  | some checkpoint =>
    rw [covered_of_some hc] at hb ⊢
    exact ⟨hab.2, hab.1.le.trans hb.2⟩

theorem storesLeaves_covered (hann : Announces c L M sent n)
    (hplaces : Places c n.log w.history.events)
    (hstart : ∀ e ∈ w.history.events, s ≤ e.position.ledger) :
    StoresLeaves c.pool (n.leaves.take (leavesPassed s w))
      (Tables.of (w.history.events.filter (covered s w))).commitments :=
  hann.storesLeaves_first hplaces (covered_initial hstart)

/-- **The index holds the leaves the cursor has passed.** -/
theorem Inv.storesLeaves (h : Inv s w) (hann : Announces c L M sent n)
    (hplaces : Places c n.log w.history.events)
    (hstart : ∀ e ∈ w.history.events, s ≤ e.position.ledger) :
    StoresLeaves c.pool (n.leaves.take (leavesPassed s w)) w.store.tables.commitments := by
  rw [h.sound.tables]
  exact (storesLeaves_covered hann hplaces hstart).of_perm
    (Tables.same_of_perm h.perm).commitments

theorem leavesPassed_le (hann : Announces c L M sent n) (hplaces : Places c n.log w.history.events)
    (hstart : ∀ e ∈ w.history.events, s ≤ e.position.ledger) :
    leavesPassed s w ≤ n.leaves.length := by
  have hlen := (storesLeaves_covered (s := s) hann hplaces hstart).length_eq
  simp only [List.length_map, List.length_zipIdx, List.length_take] at hlen
  have hcount : (Tables.of (w.history.events.filter (covered s w))).commitments.length =
    leavesPassed s w := rfl
  omega

/-- The event of a leaf is passed if the leaf is one of those passed. -/
theorem covered_iff (hann : Announces c L M sent n) (hplaces : Places c n.log w.history.events)
    (hstart : ∀ e ∈ w.history.events, s ≤ e.position.ledger) {e : EmittedEvent}
    (he : e ∈ w.history.events) {r : CommitmentRow} (hr : r ∈ e.rows.commitments) :
    covered s w e = true ↔ r.leafIndex < leavesPassed s w := by
  have hindices := (storesLeaves_covered (s := s) hann hplaces hstart).leafIndices
  rw [List.length_take, Nat.min_eq_left (leavesPassed_le hann hplaces hstart)] at hindices
  constructor
  · intro hcov
    have hmem : r ∈ (Tables.of (w.history.events.filter (covered s w))).commitments :=
      List.mem_flatMap.mpr ⟨e, List.mem_filter.mpr ⟨he, hcov⟩, hr⟩
    exact List.mem_range.mp (hindices.subset (List.mem_map_of_mem hmem))
  · intro hlt
    obtain ⟨t, ht, hti⟩ := List.mem_map.mp (hindices.symm.subset (List.mem_range.mpr hlt))
    obtain ⟨e', he', ht⟩ := List.mem_flatMap.mp ht
    obtain ⟨he', hcov⟩ := List.mem_filter.mp he'
    -- no other event announced this position
    have hall := (hann.storesLeaves hplaces).leafIndices
    have heq : t = r := List.inj_on_of_nodup_map (hall.nodup_iff.mpr List.nodup_range)
      (List.mem_flatMap.mpr ⟨e', he', ht⟩) (List.mem_flatMap.mpr ⟨e, he, hr⟩) hti
    have hpos : e.position = e'.position := by
      rw [← e.rows_position.commitments r hr, ← heq, e'.rows_position.commitments t ht]
    unfold covered at hcov ⊢
    rwa [hpos]

/-- **Their number is odd exactly if the cursor cuts a transaction.** -/
theorem cutsTransact_iff (hann : Announces c L M sent n)
    (hplaces : Places c n.log w.history.events)
    (hstart : ∀ e ∈ w.history.events, s ≤ e.position.ledger) :
    CutsTransact w ↔ leavesPassed s w % 2 = 1 := by
  have hiff := fun {e} (he : e ∈ w.history.events) {r} (hr : r ∈ e.rows.commitments) =>
    covered_iff hann hplaces hstart he hr
  constructor
  · rintro ⟨checkpoint, hc, first, hfirst, second, hsecond, r, hr, t, ht, heven, hnext, hle, hlt⟩
    have h1 := (hiff hfirst hr).mp ((covered_of_some hc _).mpr ⟨hstart _ hfirst, hle⟩)
    have h2 : ¬t.leafIndex < leavesPassed s w := fun hpassed =>
      absurd ((covered_of_some hc _).mp ((hiff hsecond ht).mpr hpassed)).2 (not_le.mpr hlt)
    omega
  · intro hodd
    have hle := leavesPassed_le (s := s) hann hplaces hstart
    have heven := hann.holds.even
    have hrow : ∀ i < n.leaves.length, ∃ e ∈ w.history.events, ∃ r ∈ e.rows.commitments,
        r.leafIndex = i := by
      intro i hi
      have hall := (hann.storesLeaves hplaces).leafIndices
      obtain ⟨r, hr, hri⟩ := List.mem_map.mp (hall.symm.subset (List.mem_range.mpr hi))
      obtain ⟨e, he, hr⟩ := List.mem_flatMap.mp hr
      exact ⟨e, he, r, hr, hri⟩
    obtain ⟨first, hfirst, r, hr, hri⟩ := hrow (leavesPassed s w - 1) (by omega)
    obtain ⟨second, hsecond, t, ht, hti⟩ := hrow (leavesPassed s w) (by omega)
    have h1 := (hiff hfirst hr).mpr (by omega)
    have h2 : ¬covered s w second = true := fun hcov => by
      have := (hiff hsecond ht).mp hcov
      omega
    cases hc : w.store.checkpoint .rpc with
    | none =>
      rw [covered_of_none hc] at h1
      cases h1
    | some checkpoint =>
      rw [covered_of_some hc] at h1 h2
      refine ⟨checkpoint, hc, first, hfirst, second, hsecond, r, hr, t, ht, by omega, by omega,
        h1.2, not_le.mp fun hle => h2 ⟨hstart _ hsecond, hle⟩⟩

/-! ## 4. Whole runs -/

/-- Both handlers answer, `pool_path` for every stored leaf of the pool, and the root in the answer
is one the pool held. -/
def ServesHeldRoots (calls : List (Sent ρ)) (n : Network ρ) (db : Database) (pool : Address) :
    Prop :=
  (∃ state, Api.poolState db pool = .ok state ∧
    ∃ root, RootHeld calls n root ∧ state.root = Verify.displayU256 root) ∧
  ∀ row ∈ db.index.tables.commitments, row.pool = pool →
    ∃ path, Api.poolPath db pool row.leafIndex = .ok path ∧ path.leafIndex = row.leafIndex ∧
      ∃ root, RootHeld calls n root ∧ path.root = Verify.displayU256 root

theorem displayU256_inj {a b : Nat} (ha : a < bn256Modulus) (hb : b < bn256Modulus)
    (h : Verify.displayU256 a = Verify.displayU256 b) : a = b := by
  have hok : (Verify.checkU256 "" a b).ok = true := by simp [Verify.checkU256, Verify.Check.ok, h]
  exact (Verify.checkU256_ok (lt_two_pow_of_lt ha) (lt_two_pow_of_lt hb)).mp hok

/-- **The API serves roots the pool held, unless the cursor cuts a transaction.**  For every run of
both contracts from their deployment, wherever the network places the events, and every moment of
every run of the follower, of any page size, that starts at or before the ledger of the first event;
with the depth of the pool's tree in `verified_state`:

* if the stored cursor does not lie between the events of the two leaves of a `transact`, then
  `pool_state`, and `pool_path` for every stored leaf, answer with a root that the pool's `get_root`
  returned after some of the calls;
* only then, if no leaf is the empty one and the hash has no collision among the pairs that the
  trees of the pool's first leaves hash. -/
theorem serves_held_roots_unless_cut {pageSize : Nat} {calls : List (Sent ρ)} {history : History}
    {verified : Address → Option VerifiedState} {v : VerifiedState} (hfresh : Fresh L M n)
    (hosted : ∀ x ∈ calls, x.call.Hosted c)
    (hrun : Reaches ⟨c, .rpc, pageSize⟩ s (.fresh history) w)
    (hplaces : Places c (run exec calls n).log w.history.events)
    (hstart : ∀ e ∈ w.history.events, s ≤ e.position.ledger)
    (hv : verified c.pool = some v) (hlevels : v.levels = L) :
    (¬CutsTransact w → ServesHeldRoots calls n ⟨w.store, verified⟩ c.pool) ∧
    (emptyLeafNat ∉ (run exec calls n).leaves →
      Merkle.NoCollision compress
        (Merkle.growthPairs compress emptyLeaf L ((run exec calls n).leaves.map Nat.cast)) →
      ServesHeldRoots calls n ⟨w.store, verified⟩ c.pool → ¬CutsTransact w) := by
  have hann := hfresh.announces_run hosted
  have hholds := hann.holds
  have hinv : Inv s w := (inv_fresh s history).run hrun
  have hle := leavesPassed_le (s := s) hann hplaces hstart
  have hfield : ∀ k, ∀ x ∈ (run exec calls n).leaves.take k, x < bn256Modulus := fun k x hx =>
    hholds.field x (List.mem_of_mem_take hx)
  obtain ⟨hstate, hpath⟩ := Api.serves_root ⟨w.store, verified⟩ hholds.depth.1
    hholds.depth.2 hv hlevels (hinv.storesLeaves hann hplaces hstart) (hfield _)
    ((List.length_take_le' _ _).trans hholds.fits)
  rw [cutsTransact_iff hann hplaces hstart]
  constructor
  · intro hwhole
    have hheld : RootHeld calls n
        (treeRoot L ((run exec calls n).leaves.take (leavesPassed s w))) :=
      (hfresh.rootHeld_iff hosted).mpr ⟨leavesPassed s w / 2, by omega, by
        rw [show 2 * (leavesPassed s w / 2) = leavesPassed s w by omega]⟩
    obtain ⟨state, hok, hroot⟩ := hstate
    refine ⟨⟨state, hok, _, hheld, hroot⟩, fun row hrow _ => ?_⟩
    obtain ⟨path, hok, hindex, hroot⟩ := hpath row hrow
    exact ⟨path, hok, hindex, _, hheld, hroot⟩
  · rintro hnew hS ⟨⟨state, hok, root, hheld, hroot⟩, -⟩ hodd
    obtain ⟨state', hok', hroot'⟩ := hstate
    obtain rfl : state = state' := Except.ok.inj (hok.symm.trans hok')
    obtain ⟨m, hm, rfl⟩ := (hfresh.rootHeld_iff hosted).mp hheld
    have heq := displayU256_inj (treeRoot_lt (hfield _)) (treeRoot_lt (hfield _))
      (hroot.symm.trans hroot')
    rw [treeRoot_eq_val (hfield _), treeRoot_eq_val (hfield _), List.map_take, List.map_take] at heq
    have hempty : emptyLeaf ∉ (run exec calls n).leaves.map (Nat.cast : Nat → F) := by
      intro hmem
      obtain ⟨x, hx, hxe⟩ := List.mem_map.mp hmem
      refine hnew ?_
      rwa [emptyLeafNat, ← hxe, ZMod.val_natCast_of_lt (hholds.field x hx)]
    have hlen : ((run exec calls n).leaves.map (Nat.cast : Nat → F)).length =
        (run exec calls n).leaves.length := List.length_map _
    have := Merkle.fullRoot_take_inj hS hempty (by omega) (by omega) (hlen ▸ hholds.fits)
      (ZMod.val_injective _ heq)
    omega

/-! ### A transaction, cut and whole -/

/-- One `transact` with two inputs, in ledger 5. -/
def transferCalls : List (Sent Unit) :=
  let request : Pool.Request := { Pool.fillingCall.request with
    proof := { Pool.fillingCall.request.proof with inputNullifiers := [5, 6] } }
  [⟨5, .pool (.request request (Pool.fillingCall.externals (.contract 1) fun _ => 0))⟩]

/-- Its events: the nullifiers, the two leaves, and what was settled. -/
def transferLog : List (Nat × Emission) :=
  [(5, .pool (.newNullifier 5)), (5, .pool (.newNullifier 6)),
   (5, .pool (.newCommitment 11 0 [])), (5, .pool (.newCommitment 12 1 [])),
   (5, .pool (.settlement 5 (.contract 1) 11 12 0 1 0 0 none (.contract 3))),
   (5, .pool (.settlement 6 (.contract 1) 11 12 0 1 0 0 none (.contract 3)))]

/-- The place of its event number `i`. -/
def transferAt (i : Fin 6) : EventPosition := .firstOperation 5 i

theorem storable_transferAt : ∀ i, (transferAt i).toid < 2 ^ 63 ∧
    (transferAt i).eventIndex < 2 ^ 31 ∧ 0 < (transferAt i).ledger := by
  decide

def transferHistory : History where
  events := (transferLog.zip ((List.finRange 6).map transferAt)).map fun p =>
    ⟨p.2, .contract 1, p.1.2.encode⟩
  sorted := by decide +kernel
  storable := by
    intro e he
    obtain ⟨p, hp, rfl⟩ := List.mem_map.mp he
    obtain ⟨i, -, hi⟩ := List.mem_map.mp (List.of_mem_zip hp).2
    obtain ⟨htoid, hindex, hledger⟩ := storable_transferAt i
    rw [hi] at htoid hindex hledger
    exact ⟨htoid, hindex, hledger, rfl⟩

theorem places_transferHistory : Places operatorContracts transferLog transferHistory.events :=
  .cons ⟨rfl, rfl, rfl⟩ (.cons ⟨rfl, rfl, rfl⟩ (.cons ⟨rfl, rfl, rfl⟩ (.cons ⟨rfl, rfl, rfl⟩
    (.cons ⟨rfl, rfl, rfl⟩ (.cons ⟨rfl, rfl, rfl⟩ .nil)))))

theorem hosted_transferCalls : ∀ x ∈ transferCalls, x.call.Hosted operatorContracts := by
  intro x hx
  obtain rfl := List.mem_singleton.mp hx
  exact ⟨Pool.PoolCall.quiet _, rfl⟩

theorem start_transferHistory : ∀ e ∈ transferHistory.events, 2 ≤ e.position.ledger := by
  decide +kernel

/-- The first `k` events, and a cursor. -/
def transferPage (k : Nat) (cursor : EventPosition) : EventsPage where
  events := (transferHistory.events.take k).map fun e => { e with source := .rpc }
  cursor := cursor
  latestLedger := 6
  oldestLedger := 1

theorem honest_transferPage {k : Nat} {cursor : EventPosition}
    (hcursor : (∃ e ∈ transferHistory.events, cursor = e.position) ∨
      ∃ l < 2 ^ 32, cursor = EventPosition.endOfLedger l)
    (hledger : 2 ≤ cursor.ledger)
    (hcomplete : ∀ e ∈ transferHistory.events, e.position ≤ cursor →
      e ∈ transferHistory.events.take k) :
    HonestPage transferHistory (.ledger 2) k (transferPage k cursor) where
  inOrder := by
    have hall : transferHistory.events.filter (Start.ledger 2).admits = transferHistory.events :=
      List.filter_eq_self.mpr fun e he => by
        simpa [Start.admits] using start_transferHistory e he
    have hevents : (transferPage k cursor).events.map (·.toEmittedEvent) =
        transferHistory.events.take k := by
      rw [transferPage, List.map_map]
      exact List.map_id _
    rw [hall, hevents]
    exact List.take_sublist _ _
  limit := by
    rw [transferPage, List.length_map]
    exact List.length_take_le _ _
  complete := by
    intro e he _ hle
    rw [transferPage, List.map_map]
    exact List.mem_map.mpr ⟨e, hcomplete e he hle, rfl⟩
  cursor := hcursor
  scanned := by
    rintro l hl
    cases hl
    exact hledger

/-- The index was verified before the transaction. -/
def depthOne : VerifiedState := ⟨4, 1, 0, treeRoot 1 [], false, true⟩

/-- One page of `k` events, fetched and committed. -/
theorem reaches_transferPage {k : Nat} {cursor : EventPosition} (p : Store → Bool)
    (honest : HonestPage transferHistory (.ledger 2) k (transferPage k cursor))
    (hsync : okAnd ((Follower.mk operatorContracts .rpc k).syncPage (.ledger 2)
      (transferPage k cursor) {} .empty) (fun r => p r.2.2) = true) :
    ∃ w, Reaches ⟨operatorContracts, .rpc, k⟩ 2 (.fresh transferHistory) w ∧
      w.history = transferHistory ∧ p w.store = true := by
  obtain ⟨⟨next, report, store⟩, hok, hp⟩ := okAnd_eq_true.mp hsync
  refine ⟨_, ((Relation.ReflTransGen.single (Step.begin rfl (.inl rfl) rfl)).tail
    (Step.answer rfl honest)).tail (Step.commit rfl hok), rfl, hp⟩

/-- Both handlers answer with the root of `leaves`. -/
def answersWith (leaves : List Nat) (store : Store) : Bool :=
  okAnd (Api.poolState ⟨store, fun _ => some depthOne⟩ (.contract 1)) (fun state =>
    state.root = Verify.displayU256 (treeRoot 1 leaves)) &&
  okAnd (Api.poolPath ⟨store, fun _ => some depthOne⟩ (.contract 1) 0) (fun path =>
    path.root = Verify.displayU256 (treeRoot 1 leaves))

/-- A page of three ends at the first leaf.  Both handlers then serve the root of a tree with one
leaf, which the pool never had. -/
theorem cut_page_serves_unheld_root : ∃ n w, Fresh 1 1 n ∧
    Reaches ⟨operatorContracts, .rpc, 3⟩ 2 (.fresh transferHistory) w ∧
    Places operatorContracts (run exec transferCalls n).log w.history.events ∧
    (∃ state, Api.poolState ⟨w.store, fun _ => some depthOne⟩ (.contract 1) = .ok state ∧
      ∀ root, RootHeld transferCalls n root → state.root ≠ Verify.displayU256 root) ∧
    ∃ path, Api.poolPath ⟨w.store, fun _ => some depthOne⟩ (.contract 1) 0 = .ok path ∧
      ∀ root, RootHeld transferCalls n root → path.root ≠ Verify.displayU256 root := by
  have hcalls : (deployed.any fun n => decide ((run exec transferCalls n).log = transferLog) &&
      okAnd (Pool.getRoot n.pool.pool) (fun root =>
        Verify.displayU256 root ≠ Verify.displayU256 (treeRoot 1 [11])) &&
      okAnd (Pool.getRoot (run exec transferCalls n).pool.pool) (fun root =>
        Verify.displayU256 root ≠ Verify.displayU256 (treeRoot 1 [11]))) = true := by
    decide +kernel
  obtain ⟨n, hfresh, hn⟩ := deployed_of_any hcalls
  simp only [Bool.and_eq_true, decide_eq_true_eq] at hn
  obtain ⟨⟨hlog, hbefore⟩, hafter⟩ := hn
  obtain ⟨root0, hroot0, hne0⟩ := okAnd_eq_true.mp hbefore
  obtain ⟨root1, hroot1, hne1⟩ := okAnd_eq_true.mp hafter
  have hheld : ∀ root, RootHeld transferCalls n root →
      Verify.displayU256 (treeRoot 1 [11]) ≠ Verify.displayU256 root := by
    rintro root ⟨k, hk⟩
    cases k with
    | zero =>
      obtain rfl : root0 = root := Except.ok.inj (hroot0.symm.trans hk)
      exact (of_decide_eq_true hne0).symm
    | succ k =>
      rw [List.take_of_length_le (by simp [transferCalls])] at hk
      obtain rfl : root1 = root := Except.ok.inj (hroot1.symm.trans hk)
      exact (of_decide_eq_true hne1).symm
  have hsync : okAnd ((Follower.mk operatorContracts .rpc 3).syncPage (.ledger 2)
      (transferPage 3 (transferAt 2)) {} .empty) (fun r => answersWith [11] r.2.2) = true := by
    decide +kernel
  have honest : HonestPage transferHistory (.ledger 2) 3 (transferPage 3 (transferAt 2)) :=
    honest_transferPage (.inl (by decide +kernel)) (by decide) (by decide +kernel)
  obtain ⟨w, hrun, hhistory, hw⟩ := reaches_transferPage (answersWith [11]) honest hsync
  rw [answersWith, Bool.and_eq_true] at hw
  obtain ⟨state, hstate, hroot⟩ := okAnd_eq_true.mp hw.1
  obtain ⟨path, hpath, hroot'⟩ := okAnd_eq_true.mp hw.2
  refine ⟨n, w, hfresh, hrun, ?_, ⟨state, hstate, ?_⟩, ⟨path, hpath, ?_⟩⟩
  · rw [hlog, hhistory]
    exact places_transferHistory
  · rw [of_decide_eq_true hroot]
    exact hheld
  · rw [of_decide_eq_true hroot']
    exact hheld

/-- A page that takes the whole ledger cuts nothing. -/
theorem serves_held_roots_whole_ledger : ∃ n w, Fresh 1 1 n ∧
    Reaches ⟨operatorContracts, .rpc, 6⟩ 2 (.fresh transferHistory) w ∧
    w.store.stored.length = 6 ∧
    ServesHeldRoots transferCalls n ⟨w.store, fun _ => some depthOne⟩ (.contract 1) := by
  have hcalls : (deployed.any fun n => (run exec transferCalls n).log = transferLog) = true := by
    decide +kernel
  obtain ⟨n, hfresh, hlog⟩ := deployed_of_any hcalls
  have hsync : okAnd ((Follower.mk operatorContracts .rpc 6).syncPage (.ledger 2)
      (transferPage 6 (EventPosition.endOfLedger 5)) {} .empty) (fun r =>
        decide (r.2.2.stored.length = 6 ∧ (r.2.2.checkpoint .rpc).map (·.cursor) =
          some (EventPosition.endOfLedger 5))) = true := by
    decide +kernel
  have honest : HonestPage transferHistory (.ledger 2) 6
      (transferPage 6 (EventPosition.endOfLedger 5)) :=
    honest_transferPage (.inr ⟨5, by decide, rfl⟩) (by decide) (by decide +kernel)
  obtain ⟨w, hrun, hhistory, hw⟩ := reaches_transferPage (fun store =>
    decide (store.stored.length = 6 ∧ (store.checkpoint .rpc).map (·.cursor) =
      some (EventPosition.endOfLedger 5))) honest hsync
  obtain ⟨hlength, hcursor⟩ := of_decide_eq_true hw
  have hplaces := places_transferHistory
  rw [← of_decide_eq_true hlog, ← hhistory] at hplaces
  have hwhole : ¬CutsTransact w := by
    rintro ⟨checkpoint, hc, first, -, second, hsecond, r, -, t, -, -, -, -, hlt⟩
    rw [hc] at hcursor
    have hend : checkpoint.cursor = EventPosition.endOfLedger 5 := Option.some.inj hcursor
    rw [hend] at hlt
    rw [hhistory] at hsecond
    have hall : ∀ e ∈ transferHistory.events, e.position ≤ EventPosition.endOfLedger 5 := by
      decide +kernel
    exact absurd (hall second hsecond) (not_le.mpr hlt)
  exact ⟨n, w, hfresh, hrun, hlength, (serves_held_roots_unless_cut hfresh hosted_transferCalls hrun
    hplaces (hhistory ▸ start_transferHistory) rfl rfl).1 hwhole⟩

end Following

end Veil
