/-
# What the API says of the allowlist was true

`services/api/src/routes.rs`: `GET /v1/allowlist` and `GET /v1/allowlist/leaves/{leaf}/path`, over a
database that any number of indexers write to.

The index lags behind, so an answer may be old.  But it is never mixed: the index holds a beginning
of the allowlist's events (`Service.Gapless.holdsBeginning`), each accepted call publishes one event
at most, and so every moment of the index is a moment the contract itself has been in.  Both
endpoints then answer as that past contract would (`Api.AnswersAs`).

The pool has no such property: a settlement publishes several events, and an index may hold some of
them only.
-/
import Veil.Api.AllowlistPath
import Veil.Api.Lookups
import Veil.Indexer.NoGaps

namespace Veil

open Tx

/-! ## 1. The handler -/

namespace Api

structure AllowlistState where
  contract : Address
  levels : Nat
  operatorMaintained : Bool
  additions : Nat
  revocations : Nat
  root : Option String
  indexedLedger : Option Nat
  onChain : Option OnChain
  deriving DecidableEq, Repr

/-- `GET /v1/allowlist`. -/
def Routes.allowlistState (db : Database) (contract : Address) :
    Except ApiError AllowlistState := do
  let levels ← levels db contract
  let rows := Api.allowlist db contract none none
  let revocations := (rows.filter fun row => row.kind = .revoked).length
  .ok { contract := contract
        levels := levels
        operatorMaintained := decide (revocations > 0)
        additions := rows.length - revocations
        revocations := revocations
        root := rows.getLast?.map fun row => Verify.displayU256 row.root
        indexedLedger := indexedLedger db
        onChain := (onChain db contract).map Prod.fst }

/-! ## 2. The answers of an allowlist -/

/-- A revocation among the events. -/
def revoked : AspEvent → Bool
  | .leafRevoked _ _ => true
  | .leafAdded _ _ _ => false

/-- **The API answers as the contract in state `s` would**, of an allowlist of depth `M`. -/
structure AnswersAs (db : Database) (contract : Address) (M : Nat) (s : AspState) : Prop where
  state : ∃ served, Routes.allowlistState db contract = .ok served ∧ served.levels = M ∧
    served.operatorMaintained = ASPMembership.getOperatorMaintained s ∧
    served.additions = (s.events.filter fun e => !revoked e).length ∧
    served.revocations = (s.events.filter revoked).length ∧
    -- without an event the handler knows no root
    served.root = if s.events = [] then none else s.root.map Verify.displayU256
  member : ASPMembership.getOperatorMaintained s = false → ∀ value v,
    parseU256 value "leaf" = .ok v → (∃ index root, .leafAdded v index root ∈ s.events) →
    ∃ proof, Routes.allowlistPath db contract value = .ok (merklePath proof (indexedLedger db)) ∧
      proof.leaf.val = v ∧ proof.siblings.length = M ∧ s.root = some proof.root.val ∧
      proof.computedRoot = proof.root
  stranger : ASPMembership.getOperatorMaintained s = false → ∀ value v,
    parseU256 value "leaf" = .ok v → (∀ index root, .leafAdded v index root ∉ s.events) →
    Routes.allowlistPath db contract value = .error (Routes.notListed v)
  operator : ASPMembership.getOperatorMaintained s = true → ∀ value v,
    parseU256 value "leaf" = .ok v →
    Routes.allowlistPath db contract value = .error Routes.operatorMaintained

section Answers

variable {db : Database} {contract : Address} {M : Nat} {s : AspState} {rows : List AllowlistRow}
  {events : List AspEvent}

theorem levels_of_verified {state : VerifiedState} (h : db.verifiedState contract = some state) :
    levels db contract = .ok state.levels := by
  rw [levels, onChain, h]
  rfl

theorem length_revoked (h : Verify.Tells rows events) :
    (rows.filter fun row => row.kind = .revoked).length = (events.filter revoked).length := by
  have hkinds : rows.map (·.kind) = events.map fun e => (Network.aspColumns e).1 := by
    have := congrArg (List.map Prod.fst) h
    simpa only [List.map_map, Function.comp_def] using this
  have hrows : (rows.filter fun row => row.kind = .revoked).length =
      ((rows.map (·.kind)).filter fun kind => kind = .revoked).length := by
    rw [List.filter_map, List.length_map]
    rfl
  have hevents : (events.filter revoked).length =
      ((events.map fun e => (Network.aspColumns e).1).filter
        fun kind => kind = .revoked).length := by
    rw [List.filter_map, List.length_map]
    congr 2
    funext e
    cases e <;> rfl
  rw [hrows, hkinds, hevents]

theorem length_added (events : List AspEvent) :
    events.length - (events.filter revoked).length =
      (events.filter fun e => !revoked e).length := by
  have := List.length_eq_length_filter_add (l := events) revoked
  omega

/-- The flag of the contract is whether it has announced a revocation. -/
theorem flag_eq (h : ASPMembership.Announced M s) :
    decide ((s.events.filter revoked).length > 0) = ASPMembership.getOperatorMaintained s := by
  obtain ⟨leaves, rest, hevents, -, -, hphase⟩ := h.events
  have hadded : (ASPMembership.addedEvents M leaves).filter revoked = [] := by
    rw [List.filter_eq_nil_iff]
    intro e he
    obtain ⟨_, -, rfl⟩ := List.mem_map.mp he
    exact Bool.false_ne_true
  rw [hevents, List.filter_append, hadded, List.nil_append]
  rcases hphase with ⟨hflag, rfl, -⟩ | ⟨hflag, leaf, root, more, rfl⟩
  · rw [hflag]
    rfl
  · rw [hflag, List.filter_cons_of_pos rfl, List.length_cons]
    exact decide_eq_true (Nat.succ_pos _)

theorem root_eq {log : List ASPMembership.Invocation} (h : ASPMembership.Phases M log s) :
    (s.events.getLast?.map AspEvent.root).map Verify.displayU256 =
      if s.events = [] then none else s.root.map Verify.displayU256 := by
  rw [h.root_eq, ASPMembership.announcedRoot]
  cases hlast : s.events.getLast? with
  | none => rw [if_pos (List.getLast?_eq_none_iff.mp hlast)]; rfl
  | some e =>
    rw [if_neg fun hempty => by rw [hempty] at hlast; cases hlast]
    rfl

/-- As long as the flag is not set, the events are those of the inserted leaves. -/
theorem added_of_open (h : ASPMembership.Announced M s)
    (hopen : ASPMembership.getOperatorMaintained s = false) :
    ∃ leaves, s.events = ASPMembership.addedEvents M leaves ∧ (∀ x ∈ leaves, x < bn256Modulus) ∧
      leaves.length ≤ 2 ^ M := by
  obtain ⟨leaves, rest, hevents, hfield, hfit, ⟨-, rfl, -⟩ | ⟨hflag, -⟩⟩ := h.events
  · exact ⟨leaves, by rw [hevents, List.append_nil], hfield, hfit⟩
  · rw [hopen] at hflag
    cases hflag

/-- **An index of all its events answers as the contract.** -/
theorem answersAs {log : List ASPMembership.Invocation} (h1 : 1 ≤ M) (h2 : M ≤ 32)
    (hphases : ASPMembership.Phases M log s) (hannounced : ASPMembership.Announced M s)
    (htyped : ∀ e ∈ s.events, e.Typed) (hcount : s.events.length ≤ i64Max)
    (hdb : Indexes db contract s.events) (hlevels : levels db contract = .ok M) :
    AnswersAs db contract M s := by
  have hdb : Indexes db contract (s.events ++ []) := (List.append_nil s.events).symm ▸ hdb
  obtain ⟨rows, rest, hstores, htells, hrest⟩ := hdb.rows htyped
  rw [hrest rfl, List.append_nil] at hstores
  have hlength : rows.length = s.events.length := by
    simpa [Verify.Tells] using congrArg List.length htells
  have hquery : Api.allowlist db contract none none = rows := by
    rw [hstores.allowlist_all, List.take_of_length_le (hlength ▸ hcount)]
  refine ⟨?_, fun hopen value v hparse hlisted => ?_, fun hopen value v hparse hnot => ?_,
    fun hset value v hparse => ?_⟩
  · have hroot : (rows.getLast?.map fun row => Verify.displayU256 row.root) =
        (s.events.getLast?.map AspEvent.root).map Verify.displayU256 := by
      rw [← htells.last_root, Option.map_map]
      rfl
    unfold Routes.allowlistState
    rw [hlevels, ok_bind, hquery]
    refine ⟨_, rfl, rfl, ?_, ?_, ?_, ?_⟩
    · dsimp only
      rw [length_revoked htells, flag_eq hannounced]
    · dsimp only
      rw [length_revoked htells, hlength, length_added]
    · exact length_revoked htells
    · dsimp only
      rw [hroot, root_eq hphases]
  · obtain ⟨leaves, hevents, hfield, hfit⟩ := added_of_open hannounced hopen
    rw [hevents] at htells hlisted
    obtain ⟨proof, hpath, hleaf, hlen, hroot, hfold, -⟩ :=
      allowlistPath_member Circuit.Circomlib.standard h1 h2 hfield hfit hlevels hstores htells
        hparse ((mem_leaves_iff M leaves v).mp hlisted)
    refine ⟨proof, hpath, hleaf, hlen, ?_, hfold⟩
    rw [hphases.root_eq, hevents, ASPMembership.announcedRoot_addedEvents, hroot]
  · obtain ⟨leaves, hevents, hfield, hfit⟩ := added_of_open hannounced hopen
    rw [hevents] at htells hnot
    refine allowlistPath_stranger h1 h2 hfield hfit hlevels hstores htells hparse fun hmem => ?_
    obtain ⟨index, root, hadded⟩ := (mem_leaves_iff M leaves v).mpr hmem
    exact hnot index root hadded
  · obtain ⟨leaves, more, hevents, -, hfit, hphase⟩ := hannounced.events
    rcases hphase with ⟨hflag, -⟩ | ⟨-, leaf, root, more', rfl⟩
    · rw [hset] at hflag
      cases hflag
    · rw [hevents, ← List.singleton_append, ← List.append_assoc] at htells
      obtain ⟨first, others, rfl, hfirst, -⟩ := htells.split
      exact allowlistPath_revoked h2 hfit hlevels hstores hfirst hparse

end Answers

end Api

/-! ## 3. A network that a fleet of indexers follows -/

namespace Service

variable {ι : Type} [DecidableEq ι] {sources : Sources} {config : ServiceConfig} {ix : Indexer}
  {i : ι} {s s' : Shared ι} {p p' : Instance} {drops : Bool} {w w' : Fleet ι}

/-- What the contracts emit is not an instance's to change. -/
theorem Act.history (hstep : Act sources config ix i s p s' p') : s'.history = s.history := by
  cases hstep with
  | manage step => cases step <;> rfl
  | seed step =>
    cases step with
    | openRecords _ _ _ => exact (unwritten_lockRow s i _).history
    | openMark _ _ => exact (unwritten_lockRow s i _).history
    | _ => rfl
  | follow step =>
    cases step with
    | openPage _ _ _ => exact (unwritten_lockRow s i _).history
    | _ => rfl

theorem history_of_reaches (hrun : Reaches config ix drops w w') :
    w.shared.history.events <+: w'.shared.history.events := by
  induction hrun with
  | refl => exact List.prefix_rfl
  | tail _ hstep ih =>
    cases hstep with
    | env step =>
      cases step with
      | grow grows emit => exact ih.trans grows.kept
      | tick later => exact ih
      | drop allowed => exact ih
    | act i step =>
      dsimp only
      rw [step.history]
      exact ih

end Service

namespace Network

variable {ρ ι : Type}

/-- **A run of both contracts under the eyes of a fleet**: the instances have come to `w` over what
the contracts emitted. -/
structure Watched [DecidableEq ι] (config : ServiceConfig) (ix : Indexer) (drops : Bool) (L M : Nat)
    (n : Network ρ) (calls : List (Sent ρ)) (w : Service.Fleet ι) : Prop where
  fresh : Fresh L M n
  hosted : ∀ x ∈ calls, x.call.Hosted ix.contracts
  ordered : calls.Pairwise fun x y => x.ledger ≤ y.ledger
  reaches : ∃ history, Service.Reaches config ix drops (.fresh history) w
  places : Places ix.contracts (run exec calls n).log w.shared.history.events

section Watched

variable [DecidableEq ι] {config : ServiceConfig} {ix : Indexer} {drops : Bool} {L M : Nat}
  {n : Network ρ} {calls : List (Sent ρ)} {w : Service.Fleet ι}

theorem Watched.announces (h : Watched config ix drops L M n calls w) :
    Announces ix.contracts L M (accepted exec calls n) (run exec calls n) :=
  h.fresh.announces_run h.hosted

/-- The same of a part of the calls. -/
theorem Watched.announces_part (h : Watched config ix drops L M n calls w) {part : List (Sent ρ)}
    (hpart : part.Sublist calls) :
    Announces ix.contracts L M (accepted exec part n) (run exec part n) :=
  h.fresh.announces_run fun x hx => h.hosted x (hpart.subset hx)

theorem Watched.holds (h : Watched config ix drops L M n calls w) (contract : Address) :
    Service.IndexTrue ix w.shared ∧ Service.HoldsBeginning contract w.shared := by
  obtain ⟨history, hrun⟩ := h.reaches
  have hemit : ix.contracts.Emit history := fun e he =>
    Places.emit h.places h.announces.fits e ((Service.history_of_reaches hrun).subset he)
  have hindex := (Service.holds_of_reaches hemit hrun).shared
  exact ⟨hindex, (Service.gapless_of_reaches hemit hrun).holdsBeginning hindex contract⟩

end Watched

/-- **The allowlist's part of a placed log**: its events, in order and in their encoding. -/
theorem Places.raw_allowlist {c : Contracts} (hdistinct : c.pool ≠ c.allowlist)
    {log : List (Nat × Emission)} {events : List EmittedEvent} (h : Places c log events) :
    (events.filter fun e => e.contract = c.allowlist).map (·.raw) =
      (log.filterMap (·.2.allowlist?)).map AspEvent.encode := by
  induction h with
  | nil => rfl
  | @cons x e log events hx _ ih =>
    obtain ⟨ledger, x⟩ := x
    obtain ⟨-, hcontract, hraw⟩ := hx
    cases x with
    | pool event =>
      have hother : ¬e.contract = c.allowlist := by
        rw [hcontract]
        exact hdistinct
      rw [List.filter_cons_of_neg (by simpa using hother), ih]
      rfl
    | allowlist event =>
      have hown : e.contract = c.allowlist := hcontract
      rw [List.filter_cons_of_pos (by simpa using hown), List.map_cons, ih, hraw]
      rfl

/-- A call of the allowlist. -/
def Call.allowlist? : Call ρ → Option ASPMembership.Invocation
  | .allowlist i => some i
  | .pool _ => none

/-- The allowlist sees its own calls only. -/
theorem run_allowlist (calls : List (Sent ρ)) (n : Network ρ) :
    (run exec calls n).allowlist =
      run ASPMembership.exec (calls.filterMap (·.call.allowlist?)) n.allowlist := by
  induction calls generalizing n with
  | nil => rfl
  | cons x calls ih =>
    rw [run_cons, ih]
    cases hcall : x.call with
    | pool entry =>
      have hsame : (commit (exec x n) n).allowlist = n.allowlist := by
        rw [exec, hcall]
        dsimp only
        cases entry.exec n.pool <;> rfl
      rw [hsame, List.filterMap_cons_none (by rw [hcall]; rfl)]
    | allowlist i =>
      have hown : (commit (exec x n) n).allowlist =
          commit (ASPMembership.exec i n.allowlist) n.allowlist := by
        rw [exec, hcall]
        dsimp only
        cases ASPMembership.exec i n.allowlist <;> rfl
      rw [hown, List.filterMap_cons_some (by rw [hcall]; rfl), run_cons]

/-- **Every beginning of the allowlist's events was once all of them.** -/
theorem exists_allowlist_events {n : Network ρ} (hnone : n.allowlist.events = [])
    {calls : List (Sent ρ)} {stored : List AspEvent}
    (h : stored <+: (run exec calls n).allowlist.events) :
    ∃ first, first <+: calls ∧ (run exec first n).allowlist.events = stored := by
  rw [run_allowlist] at h
  obtain ⟨own, hown, hevents⟩ := ASPMembership.exists_run_events hnone h
  obtain ⟨first, hfirst, rfl⟩ := List.prefix_filterMap_iff.mp hown
  exact ⟨first, hfirst, by rw [run_allowlist, hevents]⟩

/-- Nothing has been announced at the deployment. -/
theorem Fresh.allowlist_events {L M : Nat} {n : Network ρ} (h : Fresh L M n) :
    n.allowlist.events = [] := by
  obtain ⟨owner, hallowlist⟩ := h.allowlist
  obtain ⟨s, hs, -, hevents, -⟩ := ASPMembership.maintains_constructor owner h.depth.1 h.depth.2
  rw [← Except.ok.inj (hs.symm.trans hallowlist), hevents]

section Past

variable [DecidableEq ι] {config : ServiceConfig} {ix : Indexer} {drops : Bool} {L M : Nat}
  {n : Network ρ} {calls : List (Sent ρ)} {w : Service.Fleet ι}

/-- How many events of the allowlist the index holds. -/
def held (ix : Indexer) (w : Service.Fleet ι) : Nat :=
  (Service.storedOf ix.contracts.allowlist w.shared.store).length

/-- What the index holds of the allowlist are its first announcements. -/
theorem Watched.indexes (h : Watched config ix drops L M n calls w)
    (hdistinct : ix.contracts.pool ≠ ix.contracts.allowlist)
    (verifiedState : Address → Option VerifiedState) :
    Api.Indexes ⟨w.shared.store, verifiedState⟩ ix.contracts.allowlist
      ((run exec calls n).allowlist.events.take (held ix w)) := by
  obtain ⟨hindex, hbeginning⟩ := h.holds ix.contracts.allowlist
  refine ⟨hindex.consistent.sound, _, hbeginning, ?_, ?_⟩
  · exact (w.shared.history.sorted.filter _).sublist (List.take_sublist _ _)
  · rw [List.map_take, Service.emittedBy, Places.raw_allowlist hdistinct h.places,
      h.announces.allowlist, List.map_take, held]

/-- **The beginning reaches to the indexed ledger.** -/
theorem Watched.indexed_le (h : Watched config ix drops L M n calls w)
    (hdistinct : ix.contracts.pool ≠ ix.contracts.allowlist) :
    (run exec (upTo (Verify.indexedLedger w.shared.store) calls) n).allowlist.events <+:
      (run exec calls n).allowlist.events.take (held ix w) := by
  obtain ⟨hindex, -⟩ := h.holds ix.contracts.allowlist
  generalize hS : Verify.indexedLedger w.shared.store = S
  have hlog := log_asOf h.fresh.log h.ordered S
  have hearly : Announces ix.contracts L M (accepted exec (upTo S calls) n)
      (run exec (upTo S calls) n) := h.announces_part List.filter_sublist
  refine List.prefix_take_iff.mpr ⟨?_, ?_⟩
  · obtain ⟨late, hlate, -⟩ := run_log (calls.filter fun x => ¬x.ledger ≤ S)
      (run exec (upTo S calls) n)
    rw [← run_append, upTo_append S h.ordered] at hlate
    rw [← h.announces.allowlist, ← hearly.allowlist, hlate, List.filterMap_append]
    exact List.prefix_append _ _
  · -- the events up to the ledger are stored, each once
    have hraw := Places.raw_allowlist hdistinct (Places.upTo h.places S)
    rw [← hlog, hearly.allowlist] at hraw
    have hlength := congrArg List.length hraw
    rw [List.length_map, List.length_map] at hlength
    rw [← hlength]
    refine (List.subperm_of_subset ((w.shared.history.nodup.filter _).filter _) ?_).length_le
    intro e he
    obtain ⟨he, hcontract⟩ := List.mem_filter.mp he
    obtain ⟨he, hle⟩ := List.mem_filter.mp he
    refine List.mem_filter.mpr ⟨hindex.consistent.indexed he ?_, hcontract⟩
    rw [hS]
    exact of_decide_eq_true hle

/-- **What the API says of the allowlist was true.**  Any number of indexers write the index of a
run of both contracts, from honest sources that retain what is asked for; the depth of the allowlist
is recorded, without which both endpoints say that it is not verified yet.  At every moment there is
a beginning `first` of the calls such that both endpoints answer as the contract would have answered
after `first`: the flag, the counts, the root, a path for every member and for no one else, and no
path for anyone after a revocation.  What the contract had announced by then is what the index
holds, and that reaches to the end of the indexed ledger. -/
theorem allowlist_answers_are_past (h : Watched config ix drops L M n calls w)
    (hdistinct : ix.contracts.pool ≠ ix.contracts.allowlist)
    (hcount : (run exec calls n).allowlist.events.length ≤ Api.i64Max)
    {verifiedState : Address → Option VerifiedState} {state : VerifiedState}
    (hstate : verifiedState ix.contracts.allowlist = some state) (hlevels : state.levels = M) :
    ∃ first, first <+: calls ∧
      (run exec first n).allowlist.events =
        (run exec calls n).allowlist.events.take (held ix w) ∧
      (run exec (upTo (Verify.indexedLedger w.shared.store) calls) n).allowlist.events <+:
        (run exec first n).allowlist.events ∧
      Api.AnswersAs ⟨w.shared.store, verifiedState⟩ ix.contracts.allowlist M
        (run exec first n).allowlist := by
  obtain ⟨first, hfirst, hevents⟩ := exists_allowlist_events h.fresh.allowlist_events
    (List.take_prefix (held ix w) (run exec calls n).allowlist.events)
  have hannounces := h.announces_part hfirst.sublist
  obtain ⟨log, hphases⟩ := hannounces.phases
  refine ⟨first, hfirst, hevents, hevents ▸ h.indexed_le hdistinct, ?_⟩
  refine Api.answersAs h.fresh.depth.1 h.fresh.depth.2 hphases hannounces.announced ?_ ?_
    (hevents ▸ h.indexes hdistinct verifiedState) ?_
  · intro e he
    rw [← hannounces.allowlist] at he
    obtain ⟨x, hx, hxe⟩ := List.mem_filterMap.mp he
    have hfits := hannounces.fits x hx
    obtain ⟨ledger, x⟩ := x
    cases x with
    | pool event => cases hxe
    | allowlist event =>
      obtain rfl := Option.some.inj hxe
      exact hfits
  · rw [hevents]
    exact (List.length_take_le' _ _).trans hcount
  · rw [← hlevels]
    exact Api.levels_of_verified hstate

end Past

/-! ### An index that is one insertion behind -/

/-- Two insertions, in the ledgers 5 and 7. -/
def listingCalls : List (Sent Unit) :=
  [⟨5, .allowlist ⟨.insertLeaf 5, fun _ => true⟩⟩, ⟨7, .allowlist ⟨.insertLeaf 6, fun _ => true⟩⟩]

def listingLog : List (Nat × Emission) :=
  [(5, .allowlist (.leafAdded 5 0 (treeRoot 1 [5]))),
    (7, .allowlist (.leafAdded 6 1 (treeRoot 1 [5, 6])))]

theorem placeable_listingLog : Placeable listingLog := ⟨by decide, by decide, by decide⟩

/-- The first instance has read up to ledger 6. -/
theorem watched_listing : ∃ n w,
    Watched (ι := Bool) Service.sampleConfig Service.sampleIndexer false 1 1 n listingCalls w ∧
    (run exec listingCalls n).allowlist.events = ASPMembership.addedEvents 1 [5, 6] ∧
    held Service.sampleIndexer w = 1 ∧ Verify.indexedLedger w.shared.store = 6 := by
  have hcalls : (deployed.any fun n => (run exec listingCalls n).log = listingLog ∧
      (run exec listingCalls n).allowlist.events = ASPMembership.addedEvents 1 [5, 6]) = true := by
    decide +kernel
  obtain ⟨n, hfresh, hlog⟩ := deployed_of_any hcalls
  obtain ⟨hlog, hevents⟩ := of_decide_eq_true hlog
  have hpage : okAnd (Service.sampleIndexer.follower.syncPage (.ledger 4)
      (pageOf (placeable_listingLog.history 1 2) 1 6) {}
      ((Service.marked .empty 4).seeing .rpc none)) (fun r => r.1 = none ∧
        (Service.storedOf (.contract 2) r.2.2).length = 1 ∧
        Verify.indexedLedger r.2.2 = 6) = true := by
    decide +kernel
  obtain ⟨⟨next, report, store⟩, hsync, hstored⟩ := okAnd_eq_true.mp hpage
  obtain ⟨rfl, hstored⟩ := of_decide_eq_true hstored
  have honest : HonestPage ((placeable_listingLog.history 1 2).retained 4) (.ledger 4) 3
      (pageOf (placeable_listingLog.history 1 2) 1 6) :=
    honest_pageOf (by decide +kernel) (by decide) (by decide) (by decide) (by decide +kernel)
  refine ⟨n, _, ⟨hfresh, ?_, by decide, ⟨_, (Service.reaches_takenOver
    (by decide +kernel)).trans (Service.reaches_caughtUp honest hsync)⟩, ?_⟩, hevents, hstored⟩
  · intro x hx
    rcases List.mem_pair.mp hx with rfl | rfl <;> trivial
  · rw [hlog]
    exact places_placed 0 fun x hx => (placeable_listingLog.ledgers x hx).2

/-- The empty trees were verified in ledger 1. -/
def oneLevel : Address → Option VerifiedState := fun _ => some ⟨1, 1, 0, 0, false, true⟩

/-- The second leaf has been inserted and is not on the list yet; the path of the first ends at the
root of the tree with one leaf. -/
theorem allowlist_answers_are_past_behind : ∃ n w,
    Watched (ι := Bool) Service.sampleConfig Service.sampleIndexer false 1 1 n listingCalls w ∧
    (∃ proof, Api.Routes.allowlistPath ⟨w.shared.store, oneLevel⟩ (.contract 2)
      (Verify.displayU256 5) =
        .ok (Api.merklePath proof (Api.indexedLedger ⟨w.shared.store, oneLevel⟩)) ∧
      proof.root.val = treeRoot 1 [5]) ∧
    Api.Routes.allowlistPath ⟨w.shared.store, oneLevel⟩ (.contract 2) (Verify.displayU256 6) =
      .error (Api.Routes.notListed 6) := by
  obtain ⟨n, w, hwatched, hnow, hheld, -⟩ := watched_listing
  have hcount : (run exec listingCalls n).allowlist.events.length ≤ Api.i64Max := by
    rw [hnow]
    decide
  have hstate : oneLevel Service.sampleIndexer.contracts.allowlist =
      some ⟨1, 1, 0, 0, false, true⟩ := rfl
  obtain ⟨first, hfirst, hevents, -, hanswers⟩ := allowlist_answers_are_past hwatched (by decide)
    hcount hstate rfl
  rw [hnow, hheld, ASPMembership.addedEvents_take] at hevents
  have hannounces := hwatched.announces_part hfirst.sublist
  have hopen : ASPMembership.getOperatorMaintained (run exec first n).allowlist = false := by
    rw [← Api.flag_eq hannounces.announced, hevents]
    rfl
  refine ⟨n, w, hwatched, ?_, ?_⟩
  · obtain ⟨proof, hpath, -, -, hroot, -⟩ := hanswers.member hopen _ 5
      (Api.parseU256_displayU256 (by norm_num [IsU256]) _)
      (by rw [hevents]; exact ⟨0, _, List.mem_cons_self⟩)
    obtain ⟨log, hphases⟩ := hannounces.phases
    rw [hphases.root_eq, hevents, ASPMembership.announcedRoot_addedEvents] at hroot
    exact ⟨proof, hpath, (Option.some.inj hroot).symm⟩
  · refine hanswers.stranger hopen _ 6 (Api.parseU256_displayU256 (by norm_num [IsU256]) _) ?_
    rw [hevents]
    intro index root hadded
    cases (Api.mem_leaves_iff 1 _ 6).mp ⟨index, root, hadded⟩ with
    | tail _ h => cases h

end Network

end Veil
