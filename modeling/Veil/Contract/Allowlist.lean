/-
# The allowlist as a state machine

A history of the allowlist contract is any list of calls, with any arguments and any
authorisations, some accepted and some refused.  What the contract stores is determined by the
accepted ones, and by which of two phases they have reached:

* before the first accepted revocation the root is the root of the tree of the inserted leaves,
  and each event names a leaf, its position, and the root right after it;
* from the first accepted revocation on, the root is whatever the operator published last, and
  no leaf is ever inserted again.

`Phases` is that as a relation between the log of accepted calls and the state.  One accepted call
extends it (`Phases.step`), so every history satisfies it.
-/
import Veil.Contract.AspMembership

namespace Veil

open Tx

namespace ASPMembership

/-! ## 1. Reading the log -/

/-- The leaf an insertion appends. -/
def Call.inserted? : Call → Option Nat
  | .insertLeaf leaf => some leaf
  | _ => none

/-- The root an operator's call publishes. -/
def Call.published? : Call → Option Nat
  | .revokeLeaf _ newRoot => some newRoot
  | .publishLeaf _ _ newRoot => some newRoot
  | _ => none

def Call.isRevoke : Call → Bool
  | .revokeLeaf _ _ => true
  | _ => false

def insertedLeaves (log : List Invocation) : List Nat := log.filterMap (·.call.inserted?)

def publishedRoots (log : List Invocation) : List Nat := log.filterMap (·.call.published?)

/-- The tree has been handed to the operator. -/
def HandedOver (log : List Invocation) : Prop := ∃ i ∈ log, i.call.isRevoke = true

instance (log : List Invocation) : Decidable (HandedOver log) :=
  inferInstanceAs (Decidable (∃ i ∈ log, i.call.isRevoke = true))

/-- The events of a tree filled by insertions: each leaf with its position and the root of the
tree that ends at it. -/
def addedEvents (L : Nat) (leaves : List Nat) : List AspEvent :=
  leaves.zipIdx.map fun (leaf, i) => .leafAdded leaf i (treeRoot L (leaves.take (i + 1)))

/-- The root an event list ends at: that of its last event, or the empty tree's. -/
def announcedRoot (L : Nat) (events : List AspEvent) : Nat :=
  (events.getLast?.map AspEvent.root).getD (treeRoot L [])

theorem announcedRoot_concat (L : Nat) (events : List AspEvent) (e : AspEvent) :
    announcedRoot L (events ++ [e]) = e.root := by
  simp [announcedRoot]

theorem addedEvents_concat (L : Nat) (leaves : List Nat) (leaf : Nat) :
    addedEvents L (leaves ++ [leaf]) = addedEvents L leaves ++
      [.leafAdded leaf leaves.length (treeRoot L (leaves ++ [leaf]))] := by
  unfold addedEvents
  rw [List.zipIdx_append, List.map_append]
  congr 1
  · refine List.map_congr_left fun ⟨x, i⟩ hx => ?_
    have hi : i < leaves.length := by simpa using List.snd_lt_add_of_mem_zipIdx hx
    simp only [List.take_append_of_le_length (show i + 1 ≤ leaves.length by omega)]
  · simp [List.take_of_length_le]

theorem announcedRoot_addedEvents (L : Nat) (leaves : List Nat) :
    announcedRoot L (addedEvents L leaves) = treeRoot L leaves := by
  induction leaves using List.reverseRecOn with
  | nil => simp [addedEvents, announcedRoot]
  | append_singleton leaves leaf _ => rw [addedEvents_concat, announcedRoot_concat]; rfl

theorem handedOver_concat {log : List Invocation} {i : Invocation} :
    HandedOver (log ++ [i]) ↔ HandedOver log ∨ i.call.isRevoke = true := by
  simp [HandedOver, or_and_right, exists_or]

/-! ## 2. The two phases -/

/-- The first phase: the contract maintains the tree of the inserted leaves. -/
structure Inserting (L : Nat) (log : List Invocation) (s : AspState) : Prop where
  maintains : Maintains L (insertedLeaves log) s
  events : s.events = addedEvents L (insertedLeaves log)

/-- The second phase: the operator publishes the roots. -/
structure Publishing (log : List Invocation) (s : AspState) : Prop where
  operator : getOperatorMaintained s = true
  root : s.root = (publishedRoots log).getLast?
  announced : ∃ e, s.events.getLast? = some e ∧ s.root = some e.root

/-- **The state of the contract after the accepted calls `log`.** -/
structure Phases (L : Nat) (log : List Invocation) (s : AspState) : Prop where
  before : ¬HandedOver log → Inserting L log s
  after : HandedOver log → Publishing log s

theorem phases_nil {L : Nat} {s : AspState} (h : Maintains L [] s) (he : s.events = []) :
    Phases L [] s where
  before _ := ⟨h, he⟩
  after h := by simp [HandedOver] at h

variable {L : Nat} {log : List Invocation} {s s' : AspState} {i : Invocation}

/-- A call that changes only who may do what keeps both phases. -/
theorem Phases.of_settings (h : Phases L log s) (hins : i.call.inserted? = none)
    (hpub : i.call.published? = none) (hrev : i.call.isRevoke = false)
    (hs : ∃ a b, s' = { s with admin := a, adminInsertOnly := b }) : Phases L (log ++ [i]) s' := by
  obtain ⟨a, b, rfl⟩ := hs
  have hL : insertedLeaves (log ++ [i]) = insertedLeaves log := by simp [insertedLeaves, hins]
  have hR : publishedRoots (log ++ [i]) = publishedRoots log := by simp [publishedRoots, hpub]
  have hH : HandedOver (log ++ [i]) ↔ HandedOver log := by simp [handedOver_concat, hrev]
  refine ⟨fun hn => ?_, fun hy => ?_⟩
  · obtain ⟨hm, he⟩ := h.before (hn ∘ hH.mpr)
    exact ⟨hL ▸ hm.congr rfl rfl rfl rfl rfl rfl, hL ▸ he⟩
  · obtain ⟨ho, hr, ha⟩ := h.after (hH.mp hy)
    exact ⟨ho, hR ▸ hr, ha⟩

/-- **One accepted call.** -/
theorem Phases.step (h : Phases L log s) (hok : exec i s = .ok s') : Phases L (log ++ [i]) s' := by
  obtain ⟨call, auth⟩ := i
  cases call with
  | insertLeaf leaf =>
    -- an accepted insertion shows that the tree has not been handed over
    have hopen : getOperatorMaintained s = false := (insertLeaf_ok hok).2.1
    have hnot : ¬HandedOver log := fun hy => by simp [(h.after hy).operator] at hopen
    obtain ⟨hm, he⟩ := h.before hnot
    obtain ⟨-, hm', he'⟩ := hm.of_insertLeaf hok
    have hL : insertedLeaves (log ++ [⟨.insertLeaf leaf, auth⟩]) =
        insertedLeaves log ++ [leaf] := by
      simp [insertedLeaves, Call.inserted?]
    refine ⟨fun _ => ⟨hL ▸ hm', ?_⟩, fun hy => ?_⟩
    · rw [he', he, hL, addedEvents_concat]
    · rcases handedOver_concat.mp hy with hy | hy
      · exact absurd hy hnot
      · simp [Call.isRevoke] at hy
  | revokeLeaf leaf newRoot =>
    obtain ⟨-, -, rfl⟩ := revokeLeaf_ok hok
    refine ⟨fun hn => absurd (handedOver_concat.mpr (.inr rfl)) hn, fun _ => ⟨rfl, ?_, ?_⟩⟩
    · simp [publishedRoots, Call.published?]
    · exact ⟨_, List.getLast?_concat, rfl⟩
  | publishLeaf leaf index newRoot =>
    obtain ⟨-, -, hop, rfl⟩ := publishLeaf_ok hok
    -- an accepted publication shows that it has
    have hyes : HandedOver log := by
      by_contra hn
      simp [(h.before hn).maintains.notOperator] at hop
    refine ⟨fun hn => absurd (handedOver_concat.mpr (.inl hyes)) hn, fun _ => ⟨hop, ?_, ?_⟩⟩
    · simp [publishedRoots, Call.published?]
    · exact ⟨_, List.getLast?_concat, rfl⟩
  | setAdminInsertOnly adminOnly =>
    exact h.of_settings rfl rfl rfl ⟨_, _, setAdminInsertOnly_ok hok⟩
  | updateAdmin newAdmin =>
    exact h.of_settings rfl rfl rfl ⟨_, _, updateAdmin_ok hok⟩

/-- **Every history.** -/
theorem phases_run {admin : Address} {s0 : AspState} (h1 : 1 ≤ L) (h2 : L ≤ 32)
    (h0 : constructor admin L = .ok s0) (calls : List Invocation) :
    Phases L (accepted exec calls s0) (run exec calls s0) := by
  obtain ⟨s1, hs1, hm, he, -⟩ := maintains_constructor admin h1 h2
  obtain rfl : s1 = s0 := Except.ok.inj (hs1.symm.trans h0)
  exact accepted_induction (fun _ _ _ _ hP => hP.step) calls [] s1 (phases_nil hm he)

/-! ## 3. What a caller sees -/

theorem exec_publishLeaf_refused (h : getOperatorMaintained s = false) (auth : Address → Bool)
    (leaf index newRoot : Nat) :
    ∃ e, exec ⟨.publishLeaf leaf index newRoot, auth⟩ s = .error e := by
  cases hr : exec ⟨.publishLeaf leaf index newRoot, auth⟩ s with
  | error e => exact ⟨e, rfl⟩
  | ok s' => simp [(publishLeaf_ok hr).2.2.1] at h

theorem exec_insertLeaf_refused (h : getOperatorMaintained s = true) (auth : Address → Bool)
    (leaf : Nat) : ∃ e, exec ⟨.insertLeaf leaf, auth⟩ s = .error e := by
  cases hr : exec ⟨.insertLeaf leaf, auth⟩ s with
  | error e => exact ⟨e, rfl⟩
  | ok s' => simp [(insertLeaf_ok hr).2.1] at h

theorem Phases.root_eq (h : Phases L log s) : s.root = some (announcedRoot L s.events) := by
  by_cases hH : HandedOver log
  · obtain ⟨e, he, hr⟩ := (h.after hH).announced
    rw [hr, announcedRoot, he]
    rfl
  · obtain ⟨hm, he⟩ := h.before hH
    rw [hm.root, he, announcedRoot_addedEvents]

theorem HandedOver.append {more : List Invocation} (h : HandedOver log) :
    HandedOver (log ++ more) := by
  obtain ⟨i, hi, hr⟩ := h
  exact ⟨i, List.mem_append_left _ hi, hr⟩

/-- **The allowlist is a two-phase state machine.**  For every depth the constructor accepts and
every history of calls, accepted and refused:

* as long as no revocation has been accepted, the root is that of the full tree of the inserted
  leaves, the events are those leaves with their positions and the roots right after them, and
  a publication is refused;
* once one has been accepted, then whatever calls follow (`more`) the flag stays set, insertions
  are refused, and the root is the last one a revocation or publication carried;
* always, the root is the one the last event announced, and a refused call changes nothing. -/
theorem allowlist_two_phases (admin : Address) {L : Nat} (h1 : 1 ≤ L) (h2 : L ≤ 32)
    (calls : List Invocation) :
    ∃ s0, constructor admin L = .ok s0 ∧
      (¬HandedOver (accepted exec calls s0) →
        (run exec calls s0).root = some (treeRoot L (insertedLeaves (accepted exec calls s0))) ∧
        (run exec calls s0).events = addedEvents L (insertedLeaves (accepted exec calls s0)) ∧
        ∀ auth leaf index newRoot,
          ∃ e, exec ⟨.publishLeaf leaf index newRoot, auth⟩ (run exec calls s0) = .error e) ∧
      (HandedOver (accepted exec calls s0) → ∀ more,
        getOperatorMaintained (run exec (calls ++ more) s0) = true ∧
        (∀ auth leaf,
          ∃ e, exec ⟨.insertLeaf leaf, auth⟩ (run exec (calls ++ more) s0) = .error e) ∧
        (run exec (calls ++ more) s0).root =
          (publishedRoots (accepted exec (calls ++ more) s0)).getLast? ∧
        (run exec (calls ++ more) s0).root =
          (run exec (calls ++ more) s0).events.getLast?.map AspEvent.root) ∧
      (run exec calls s0).root = some (announcedRoot L (run exec calls s0).events) ∧
      ∀ i e, exec i (run exec calls s0) = .error e →
        run exec (calls ++ [i]) s0 = run exec calls s0 := by
  obtain ⟨s0, h0, -⟩ := maintains_constructor admin h1 h2
  refine ⟨s0, h0, fun hn => ?_, fun hy more => ?_, (phases_run h1 h2 h0 calls).root_eq, ?_⟩
  · obtain ⟨hm, he⟩ := (phases_run h1 h2 h0 calls).before hn
    exact ⟨hm.root, he, exec_publishLeaf_refused hm.notOperator⟩
  · have hy' : HandedOver (accepted exec (calls ++ more) s0) := by
      rw [accepted_append]
      exact hy.append
    obtain ⟨ho, hr, e, he, hroot⟩ := (phases_run h1 h2 h0 (calls ++ more)).after hy'
    exact ⟨ho, exec_insertLeaf_refused ho, hr, by rw [hroot, he]; rfl⟩
  · intro i e he
    rw [run_concat, he, commit_error]

/-- An admin inserts a leaf and hands the tree over; the next insertion is refused. -/
theorem allowlist_two_phases_handover :
    ∃ s0, constructor (.account 1) 2 = .ok s0 ∧ ∀ more auth leaf, ∃ e,
      exec ⟨.insertLeaf leaf, auth⟩ (run exec ([⟨.insertLeaf 5, fun _ => true⟩,
        ⟨.revokeLeaf 5 7, fun _ => true⟩] ++ more) s0) = .error e := by
  obtain ⟨s0, h0, -, hafter, -⟩ := allowlist_two_phases (.account 1) (L := 2) (by decide)
    (by decide) [⟨.insertLeaf 5, fun _ => true⟩, ⟨.revokeLeaf 5 7, fun _ => true⟩]
  have hrev : (match constructor (.account 1) 2 with
      | .ok s => decide (HandedOver (accepted exec [⟨.insertLeaf 5, fun _ => true⟩,
          ⟨.revokeLeaf 5 7, fun _ => true⟩] s))
      | .error _ => false) = true := by decide +kernel
  rw [h0] at hrev
  exact ⟨s0, h0, fun more => (hafter (of_decide_eq_true hrev) more).2.1⟩

/-! ## 4. What the events say -/

/-- **The events tell the phase.**  They start with the insertions; the first revocation, if there
is one, comes right after them.  The depth stays, and so does the counter. -/
structure Announced (L : Nat) (s : AspState) : Prop where
  levels : s.levels = some L
  counter : ∃ k, s.nextIndex = some k
  events : ∃ leaves rest, s.events = addedEvents L leaves ++ rest ∧
    (∀ x ∈ leaves, x < bn256Modulus) ∧ leaves.length ≤ 2 ^ L ∧
    ((getOperatorMaintained s = false ∧ rest = [] ∧ s.nextIndex = some leaves.length) ∨
      (getOperatorMaintained s = true ∧ ∃ leaf root more, rest = .leafRevoked leaf root :: more))

theorem Inserting.announced (h : Inserting L log s) : Announced L s where
  levels := h.maintains.levels
  counter := ⟨_, h.maintains.nextIndex⟩
  events := ⟨_, [], by rw [h.events, List.append_nil], h.maintains.field, h.maintains.fits,
    .inl ⟨h.maintains.notOperator, rfl, h.maintains.nextIndex⟩⟩

/-- An event of the operator. -/
theorem Announced.operator (h : Announced L s) {event : AspEvent} {root : Option Nat}
    (hfirst : getOperatorMaintained s = true ∨ ∃ leaf newRoot, event = .leafRevoked leaf newRoot) :
    Announced L { s with
      operatorMaintained := some true, root := root, events := s.events ++ [event] } := by
  obtain ⟨leaves, rest, hevents, hfield, hfits, hphase⟩ := h.events
  refine ⟨h.levels, h.counter, leaves, rest ++ [event], ?_, hfield, hfits, .inr ⟨rfl, ?_⟩⟩
  · rw [hevents, List.append_assoc]
  · rcases hphase with ⟨hopen, rfl, -⟩ | ⟨-, leaf, first, more, rfl⟩
    · rcases hfirst with hset | ⟨leaf, newRoot, rfl⟩
      · rw [hset] at hopen
        cases hopen
      · exact ⟨leaf, newRoot, [], rfl⟩
    · exact ⟨leaf, first, more ++ [event], rfl⟩

/-- **One accepted call.** -/
theorem Announced.step (h : Announced L s) (hphases : Phases L log s) (hok : exec i s = .ok s') :
    Announced L s' := by
  have hafter := hphases.step hok
  obtain ⟨call, auth⟩ := i
  cases call with
  | insertLeaf leaf =>
    have hopen : getOperatorMaintained s = false := (insertLeaf_ok hok).2.1
    refine (hafter.before fun hy => ?_).announced
    rcases handedOver_concat.mp hy with hy | hy
    · simp [(hphases.after hy).operator] at hopen
    · cases hy
  | revokeLeaf leaf newRoot =>
    obtain ⟨-, -, rfl⟩ := revokeLeaf_ok hok
    exact h.operator (.inr ⟨leaf, newRoot, rfl⟩)
  | publishLeaf leaf index newRoot =>
    obtain ⟨-, -, hop, rfl⟩ := publishLeaf_ok hok
    have hset : s.operatorMaintained = some true := by
      unfold getOperatorMaintained at hop
      cases hs : s.operatorMaintained with
      | none => simp [hs] at hop
      | some b => simpa [hs] using hop
    have hoperator : Announced L { s with
        operatorMaintained := some true, root := some newRoot
        events := s.events ++ [.leafAdded leaf index newRoot] } := h.operator (.inl hop)
    rwa [← hset] at hoperator
  | setAdminInsertOnly adminOnly =>
    rw [setAdminInsertOnly_ok hok]
    exact ⟨h.levels, h.counter, h.events⟩
  | updateAdmin newAdmin =>
    rw [updateAdmin_ok hok]
    exact ⟨h.levels, h.counter, h.events⟩

/-! ## 5. Beginnings of the event list -/

theorem addedEvents_take (L k : Nat) (leaves : List Nat) :
    (addedEvents L leaves).take k = addedEvents L (leaves.take k) := by
  refine List.ext_getElem (by simp [addedEvents]) fun j hj hj' => ?_
  have hjk : j < k := (List.length_take .. ▸ hj).trans_le (Nat.min_le_left _ _)
  simp [addedEvents, List.take_take, Nat.min_eq_left (show j + 1 ≤ k from hjk)]

/-- Every history announces itself. -/
theorem announced_run {admin : Address} {s0 : AspState} (h1 : 1 ≤ L) (h2 : L ≤ 32)
    (h0 : constructor admin L = .ok s0) (calls : List Invocation) :
    Announced L (run exec calls s0) := by
  obtain ⟨s1, hs1, hm, he, -⟩ := maintains_constructor admin h1 h2
  obtain rfl : s1 = s0 := Except.ok.inj (hs1.symm.trans h0)
  have hstart : Phases L [] s1 ∧ Announced L s1 :=
    ⟨phases_nil hm he, ((phases_nil hm he).before (by simp [HandedOver])).announced⟩
  exact (accepted_induction (P := fun log s => Phases L log s ∧ Announced L s)
    (fun _ _ _ _ hP hok => ⟨hP.1.step hok, hP.2.step hP.1 hok⟩) calls [] s1 hstart).2

/-- **An accepted call publishes one event or none**; what it revokes and the root it revokes to are
field elements. -/
theorem exec_events (hok : exec i s = .ok s') : ∃ new, s'.events = s.events ++ new ∧
    new.length ≤ 1 ∧ ∀ leaf root, .leafRevoked leaf root ∈ new →
      leaf < bn256Modulus ∧ root < bn256Modulus := by
  obtain ⟨call, auth⟩ := i
  cases call with
  | insertLeaf leaf =>
    simp only [exec, insertLeaf, bind_eq_ok, Except.ok.injEq] at hok
    obtain ⟨-, -, -, -, -, -, -, -, index, -, -, -, -, -, ⟨root, _⟩, -, -, -, rfl⟩ := hok
    exact ⟨[.leafAdded leaf index root], rfl, le_rfl, by simp⟩
  | revokeLeaf leaf newRoot =>
    obtain ⟨hleaf, hroot, rfl⟩ := revokeLeaf_ok hok
    refine ⟨[.leafRevoked leaf newRoot], rfl, le_rfl, fun leaf' root' hmem => ?_⟩
    obtain ⟨rfl, rfl⟩ := AspEvent.leafRevoked.inj (List.mem_singleton.mp hmem)
    exact ⟨hleaf, hroot⟩
  | publishLeaf leaf index newRoot =>
    obtain ⟨-, -, -, rfl⟩ := publishLeaf_ok hok
    exact ⟨[.leafAdded leaf index newRoot], rfl, le_rfl, by simp⟩
  | setAdminInsertOnly adminOnly =>
    rw [setAdminInsertOnly_ok hok]
    exact ⟨[], by simp, by simp, by simp⟩
  | updateAdmin newAdmin =>
    rw [updateAdmin_ok hok]
    exact ⟨[], by simp, by simp, by simp⟩

/-- A beginning of a list that is at most one longer is a beginning of the list, or all of it. -/
theorem initial_or_all {α : Type} {stored l new : List α} (hlen : new.length ≤ 1)
    (h : stored <+: l ++ new) : stored <+: l ∨ stored = l ++ new := by
  rcases Nat.lt_or_ge l.length stored.length with hlt | hle
  · exact .inr (h.eq_of_length_le (by rw [List.length_append]; omega))
  · exact .inl (List.prefix_of_prefix_length_le h (List.prefix_append l new) hle)

/-- **Every beginning of the event list was once all of it.** -/
theorem exists_run_events (hnone : s.events = []) {stored : List AspEvent} :
    ∀ {calls : List Invocation}, stored <+: (run exec calls s).events →
      ∃ first, first <+: calls ∧ (run exec first s).events = stored := by
  intro calls
  induction calls using List.reverseRecOn with
  | nil =>
    intro h
    rw [run_nil, hnone, List.prefix_nil] at h
    exact ⟨[], List.prefix_rfl, by rw [run_nil, hnone, h]⟩
  | append_singleton calls i ih =>
    intro h
    have hearlier : stored <+: (run exec calls s).events →
        ∃ first, first <+: calls ++ [i] ∧ (run exec first s).events = stored := fun h => by
      obtain ⟨first, hfirst, hevents⟩ := ih h
      exact ⟨first, hfirst.trans (List.prefix_append calls [i]), hevents⟩
    cases hok : exec i (run exec calls s) with
    | error e =>
      rw [run_concat, hok, commit_error] at h
      exact hearlier h
    | ok s' =>
      have hrun : run exec (calls ++ [i]) s = s' := by rw [run_concat, hok, commit_ok]
      obtain ⟨new, hnew, hlen, -⟩ := exec_events hok
      rw [hrun, hnew] at h
      -- the call added one event at most: either it is left out, or nothing is
      rcases initial_or_all hlen h with hold | hall
      · exact hearlier hold
      · exact ⟨calls ++ [i], List.prefix_rfl, by rw [hrun, hnew, hall]⟩

/-- What is revoked, and the root it is revoked to, are field elements. -/
theorem revoked_lt (hnone : s.events = []) (calls : List Invocation) :
    ∀ leaf root, .leafRevoked leaf root ∈ (run exec calls s).events →
      leaf < bn256Modulus ∧ root < bn256Modulus := by
  refine run_induction (P := fun s : AspState => ∀ leaf root, .leafRevoked leaf root ∈ s.events →
    leaf < bn256Modulus ∧ root < bn256Modulus) (fun i _ s s' hP hok leaf root hmem => ?_)
    (fun leaf root hmem => ?_)
  · obtain ⟨new, hnew, -, hlt⟩ := exec_events hok
    rw [hnew, List.mem_append] at hmem
    rcases hmem with hmem | hmem
    · exact hP leaf root hmem
    · exact hlt leaf root hmem
  · rw [hnone] at hmem
    cases hmem

/-- **What a beginning of the event list looks like**: insertions, and then nothing or a
revocation. -/
theorem Announced.initial (h : Announced L s) {stored : List AspEvent}
    (hstored : stored <+: s.events) :
    ∃ leaves rest, stored = addedEvents L leaves ++ rest ∧ (∀ x ∈ leaves, x < bn256Modulus) ∧
      leaves.length ≤ 2 ^ L ∧
      (rest = [] ∨ ∃ leaf root more, rest = .leafRevoked leaf root :: more) := by
  obtain ⟨leaves, rest, hevents, hfield, hfits, hphase⟩ := h.events
  have htake := List.prefix_iff_eq_take.mp hstored
  rw [hevents, List.take_append, addedEvents_take] at htake
  refine ⟨leaves.take stored.length, _, htake, fun x hx => hfield x (List.mem_of_mem_take hx),
    (List.length_take_le' _ _).trans hfits, ?_⟩
  rcases hphase with ⟨-, rfl, -⟩ | ⟨-, leaf, root, more, rfl⟩
  · exact .inl List.take_nil
  · cases stored.length - (addedEvents L leaves).length with
    | zero => exact .inl rfl
    | succ j => exact .inr ⟨leaf, root, more.take j, rfl⟩

end ASPMembership

end Veil
