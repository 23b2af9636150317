/-
# Looking up a nullifier and an owner's keys

`services/api/src/queries.rs` and `routes.rs`: `GET /v1/pool/nullifiers/{nullifier}` and
`GET /v1/public-keys/{owner}`.  A wallet asks the first whether a note of its own is spent, and the
second for the keys to encrypt a payment to.

Both read the index as it is, and say up to which ledger it is complete.  The answers are related to
the contract on both sides: nothing that is not on chain is reported, and everything up to the
reported ledger is.

* `nullifier_status_between`: a spend that is reported happened; a spend up to the indexed ledger is
  reported.
* `served_keys_between`: the keys served are the last of a list that begins with the registrations
  up to the indexed ledger and has no others than the owner's own.
-/
import Veil.Api.AllowlistPath
import Veil.Api.ServedRoots
import Veil.Indexer.Mirror

namespace Veil

open Tx

/-- What the API uses of its crate for addresses: the text of an address, and the address of a
text, if it is one of an account or a contract. -/
structure Strkey where
  toString : Address → String
  fromString : String → Option Address
  fromString_eq_some {text : String} {a : Address} : fromString text = some a ↔ text = toString a

namespace Api

/-! ## 1. The handlers -/

/-- The spend of a nullifier: its ledger and its event. -/
def nullifier (db : Database) (pool : Address) (nullifier : Nat) : Option (Nat × String) :=
  (db.index.tables.nullifiers.find? fun r => r.pool = pool ∧ r.nullifier = nullifier).map fun r =>
    (r.ledger, String.ofList r.position.display)

/-- The latest registration of `owner`: encryption key, note key, ledger and number of
registrations. -/
def publicKey (strkey : Strkey) (db : Database) (pool : Address) (owner : String) :
    Option (List UInt8 × List UInt8 × Nat × Nat) :=
  let rows := db.index.tables.publicKeys.filter fun r =>
    r.pool = pool ∧ strkey.toString r.owner = owner
  (rows.insertionSort fun r t => t.position ≤ r.position).head?.map fun r =>
    (r.encryptionKey, r.noteKey, r.ledger, rows.length)

structure NullifierStatus where
  nullifier : String
  spent : Bool
  ledger : Option Nat
  event : Option String
  indexedLedger : Option Nat
  deriving DecidableEq, Repr

structure PublicKey where
  owner : String
  encryptionKey : String
  noteKey : String
  ledger : Nat
  registrations : Nat
  deriving DecidableEq, Repr

namespace Routes

/-- `GET /v1/pool/nullifiers/{nullifier}`. -/
def nullifier (db : Database) (pool : Address) (value : String) :
    Except ApiError NullifierStatus := do
  let parsed ← parseU256 value "nullifier"
  let spend := Api.nullifier db pool parsed
  .ok { nullifier := Verify.displayU256 parsed
        spent := spend.isSome
        ledger := spend.map Prod.fst
        event := spend.map Prod.snd
        indexedLedger := indexedLedger db }

/-- `GET /v1/public-keys/{owner}`. -/
def publicKey (strkey : Strkey) (db : Database) (pool : Address) (owner : String) :
    Except ApiError PublicKey := do
  ensure ((strkey.fromString owner).isSome = true)
    (.badRequest "owner must be an account (G…) or contract (C…) address")
  let (encryptionKey, noteKey, ledger, registrations) ← okOr (Api.publicKey strkey db pool owner)
    (.notFound s!"{owner} has not registered keys")
  .ok { owner := owner
        encryptionKey := hex encryptionKey
        noteKey := hex noteKey
        ledger := ledger
        registrations := registrations }

/-- The status of a nullifier, with or without a spend. -/
def nullifierStatus (db : Database) (v : Nat) (spend : Option (Nat × String)) : NullifierStatus :=
  ⟨Verify.displayU256 v, spend.isSome, spend.map Prod.fst, spend.map Prod.snd, indexedLedger db⟩

theorem nullifier_displayU256 (db : Database) (pool : Address) {v : Nat} (hv : IsU256 v) :
    nullifier db pool (Verify.displayU256 v) =
      .ok (nullifierStatus db v (Api.nullifier db pool v)) := by
  rw [nullifier, parseU256_displayU256 hv, ok_bind]
  rfl

end Routes

end Api

/-! ## 2. Spends -/

namespace Network

variable {ρ : Type} {c : Contracts} {L M : Nat} {past now log : List (Nat × Emission)} {s : Store}

/-- A nullifier is spent exactly if the pool has announced it. -/
theorem Announces.spent_iff {sent : List (Sent ρ)} {n : Network ρ} (h : Announces c L M sent n)
    (v : Nat) : n.pool.pool.spent v = true ↔ ∃ ledger, (ledger, v) ∈ n.log.filterMap spend? := by
  obtain ⟨settled, hreplay⟩ := h.replayable
  obtain ⟨hnull, -, -⟩ := foldlM_see hreplay.replay List.nodup_nil
  dsimp only at hnull
  rw [hreplay.spent, hnull, List.nil_append, ← h.pool, List.filterMap_filterMap]
  simp only [List.mem_filterMap, spend?, Option.map_eq_some_iff, Prod.mk.injEq]
  constructor
  · rintro ⟨x, hx, hv⟩
    exact ⟨x.1, x, hx, v, hv, rfl, rfl⟩
  · rintro ⟨-, x, hx, _, hv, -, rfl⟩
    exact ⟨x, hx, hv⟩

/-- **The lookup of a nullifier** finds it if the part of the log that is shown announces it, and
then answers with the ledger of such an announcement. -/
theorem Shows.nullifier (h : Shows c past now log s) (verified : Address → Option VerifiedState)
    (v : Nat) :
    (∀ spend, Api.nullifier ⟨s, verified⟩ c.pool v = some spend →
      (spend.1, v) ∈ log.filterMap spend?) ∧
    ∀ ledger, (ledger, v) ∈ log.filterMap spend? →
      ∃ spend, Api.nullifier ⟨s, verified⟩ c.pool v = some spend := by
  have hrows := h.spends
  constructor
  · intro spend hspend
    obtain ⟨r, hr, rfl⟩ := Option.map_eq_some_iff.mp hspend
    have hmem := hrows.subset (List.mem_map_of_mem (List.mem_of_find?_eq_some hr))
    obtain ⟨-, hv⟩ : r.pool = c.pool ∧ r.nullifier = v := by simpa using List.find?_some hr
    rw [hv] at hmem
    obtain ⟨y, hy, heq⟩ := List.mem_map.mp hmem
    obtain rfl := (Prod.mk.inj heq).2
    exact hy
  · intro ledger hv
    obtain ⟨r, hr, heq⟩ := List.mem_map.mp (hrows.symm.subset
      (List.mem_map_of_mem (f := Prod.mk c.pool) hv))
    simp only [Prod.mk.injEq] at heq
    have hfound : (s.tables.nullifiers.find? fun r => r.pool = c.pool ∧ r.nullifier = v).isSome :=
      List.find?_isSome.mpr ⟨r, hr, decide_eq_true ⟨heq.1, heq.2.2⟩⟩
    obtain ⟨t, ht⟩ := Option.isSome_iff_exists.mp hfound
    exact ⟨_, Option.map_eq_some_iff.mpr ⟨t, ht, rfl⟩⟩

/-! ## 3. Registrations -/

/-- What `owner` registered, in order. -/
def registrations (owner : Address) (log : List (Nat × Emission)) : List Registration :=
  (log.filterMap registration?).filter fun r => r.account.owner = owner

/-- A registration by `owner`, made with the owner's authorisation. -/
def Sent.registration? (owner : Address) (x : Sent ρ) : Option Registration :=
  match x.call with
  | .pool (.register auth account) =>
    if account.owner = owner ∧ auth owner = true then some ⟨x.ledger, account⟩ else none
  | _ => none

theorem registrations_append (owner : Address) (log more : List (Nat × Emission)) :
    registrations owner (log ++ more) = registrations owner log ++ registrations owner more := by
  rw [registrations, List.filterMap_append, List.filter_append]
  rfl

/-- Settlements announce no keys. -/
theorem account?_of_request {r : Pool.Request} {ext : Externals ρ} {env env' : Env ρ}
    (hq : Pool.Quiet ext) (hok : r.enter ext env = .ok env') :
    ∃ new, env'.events = env.events ++ new ∧ ∀ e ∈ new, e.account? = none := by
  have heffect := Pool.Request.effect hq hok
  unfold Pool.RequestEffect at heffect
  split at heffect
  · obtain ⟨token, -, hevents⟩ := heffect.events
    refine ⟨_, by rw [hevents, List.append_assoc], fun e he => ?_⟩
    rcases List.mem_append.mp he with he | he <;> obtain ⟨_, -, rfl⟩ := List.mem_map.mp he <;> rfl
  · obtain ⟨token, index, -, -, hevents⟩ := heffect.events
    refine ⟨_, by rw [hevents, List.append_assoc, List.append_assoc], fun e he => ?_⟩
    rcases List.mem_append.mp he with he | he
    · obtain ⟨_, -, rfl⟩ := List.mem_map.mp he
      rfl
    rcases List.mem_append.mp he with he | he
    · rcases List.mem_pair.mp he with rfl | rfl <;> rfl
    · obtain ⟨_, -, rfl⟩ := List.mem_map.mp he
      rfl

/-- The pool announces keys on an authorised `register`, and on no other call. -/
theorem registers_or_silent {entry : Pool.Entry ρ} {env env' : Env ρ} (hq : entry.Quiet)
    (hok : entry.exec env = .ok env') :
    (∃ auth account, entry = .register auth account ∧ auth account.owner = true ∧
      env'.events = env.events ++
        [.publicKey account.owner account.encryptionKey account.noteKey]) ∨
    (∀ auth account, entry ≠ .register auth account) ∧
      ∃ new, env'.events = env.events ++ new ∧ ∀ e ∈ new, e.account? = none := by
  cases entry with
  | request r ext => exact .inr ⟨by simp, account?_of_request hq hok⟩
  | register auth account =>
    simp only [Pool.Entry.exec, Pool.register, bind_eq_ok, requireAuth_eq_ok,
      Except.ok.injEq] at hok
    obtain ⟨_, hauth, rfl⟩ := hok
    exact .inl ⟨auth, account, rfl, hauth, rfl⟩
  | deposit sender amount commitment => cases hok
  | updateAdmin auth newAdmin =>
    simp only [Pool.Entry.exec, Pool.updateAdmin, bind_eq_ok, Except.ok.injEq] at hok
    obtain ⟨_, _, _, _, _, _, rfl⟩ := hok
    exact .inr ⟨by simp, [], by simp⟩
  | updateVerifier auth newVerifier =>
    simp only [Pool.Entry.exec, Pool.updateVerifier, bind_eq_ok, Except.ok.injEq] at hok
    obtain ⟨_, _, _, _, rfl⟩ := hok
    exact .inr ⟨by simp, [], by simp⟩
  | updateAspMembership auth newAspMembership =>
    simp only [Pool.Entry.exec, Pool.updateAspMembership, bind_eq_ok, Except.ok.injEq] at hok
    obtain ⟨_, _, _, _, rfl⟩ := hok
    exact .inr ⟨by simp, [], by simp⟩

/-- **One accepted call** registers keys for `owner` only if it was made to that end and `owner`
authorised it. -/
theorem exec_registrations {sent : Sent ρ} {n n' : Network ρ} (owner : Address)
    (hosted : sent.call.Hosted c) (hok : exec sent n = .ok n') :
    registrations owner n'.log =
      registrations owner n.log ++ (sent.registration? owner).toList := by
  obtain ⟨ledger, call⟩ := sent
  rcases exec_cases hok with ⟨entry, env, rfl, henv, rfl⟩ | ⟨i, s, rfl, -, rfl⟩
  · rw [registrations_append]
    rcases registers_or_silent hosted.quiet henv with
      ⟨auth, account, rfl, hauth, hevents⟩ | ⟨hother, new, hevents, hnone⟩
    · rw [hevents, emitted_append]
      by_cases howner : account.owner = owner
      · subst howner
        simp [registrations, registration?, Emission.pool?, PoolEvent.account?,
          Sent.registration?, hauth]
      · simp [registrations, registration?, Emission.pool?, PoolEvent.account?,
          Sent.registration?, howner]
    · have hsilent : registrations owner (new.map fun e => (ledger, Emission.pool e)) = [] := by
        rw [registrations, List.filterMap_map, List.filterMap_eq_nil_iff.mpr, List.filter_nil]
        intro e he
        simp [registration?, Emission.pool?, hnone e he]
      rw [hevents, emitted_append, hsilent]
      cases entry with
      | register auth account => exact absurd rfl (hother auth account)
      | _ => rfl
  · have hsilent : registrations owner (emitted ledger .allowlist n.allowlist.events s.events) =
        [] := by
      rw [registrations, emitted, List.filterMap_map, List.filterMap_eq_nil_iff.mpr,
        List.filter_nil]
      intro e _
      rfl
    rw [registrations_append, hsilent]
    rfl

/-- The accepted registrations of `owner`, in order. -/
def registered (owner : Address) (sent : List (Sent ρ)) : List Registration :=
  sent.filterMap (Sent.registration? owner)

/-- **Every run.** -/
theorem Fresh.registrations_run {n : Network ρ} (h : Fresh L M n) (owner : Address)
    {calls : List (Sent ρ)} (hosted : ∀ x ∈ calls, x.call.Hosted c) :
    registrations owner (run exec calls n).log = registered owner (accepted exec calls n) := by
  refine (accepted_induction (P := fun sent m => (∀ x ∈ sent, x ∈ calls) →
    registrations owner m.log = registered owner sent) (fun sent m x m' hP hok hmem => ?_) calls []
    n (fun _ => ?_)) (fun x hx => (accepted_sublist _ _ _).subset hx)
  · rw [exec_registrations owner
      (hosted x (hmem x (List.mem_append_right _ List.mem_cons_self))) hok,
      hP fun y hy => hmem y (List.mem_append_left _ hy), registered, registered,
      List.filterMap_append]
    cases hx : x.registration? owner <;> simp [hx]
  · rw [h.log]
    rfl

/-- The key rows of placed events come in the order of the events. -/
theorem publicKeys_sorted {events : List EmittedEvent}
    (h : events.Pairwise fun a b => a.position < b.position) :
    (Tables.of events).publicKeys.Pairwise fun r t => r.position < t.position := by
  refine List.pairwise_flatMap.mpr ⟨fun e _ => ?_, h.imp fun hlt r hr t ht => ?_⟩
  · unfold EmittedEvent.rows
    cases e.raw.decode with
    | error => exact .nil
    | ok decoded =>
      cases decoded with
      | ignored name => exact .nil
      | event veil => cases veil <;> simp [Decoded.rows, VeilEvent.rows, Tables.empty]
  · rw [(EmittedEvent.rows_position _).publicKeys r hr,
      (EmittedEvent.rows_position _).publicKeys t ht]
    exact hlt

/-- **The lookup of keys** finds the last registration in the part of the log that is shown. -/
theorem Shows.publicKey (h : Shows c past now log s) (verified : Address → Option VerifiedState)
    (strkey : Strkey) (owner : Address) :
    Api.publicKey strkey ⟨s, verified⟩ c.pool (strkey.toString owner) =
      (registrations owner log).getLast?.map fun r =>
        (r.account.encryptionKey, r.account.noteKey, r.ledger,
          (registrations owner log).length) := by
  obtain ⟨events, hplaces, hsame, hsorted⟩ := h.tables
  have hcolumns := hplaces.registrations h.fits_log
  set read : PublicKeyRow → Registration := fun r =>
    ⟨r.ledger, r.owner, r.encryptionKey, r.noteKey⟩ with hread
  set own : PublicKeyRow → Bool := fun r => r.pool = c.pool ∧
    strkey.toString r.owner = strkey.toString owner with hown
  have hinj : ∀ a : Address, strkey.toString a = strkey.toString owner ↔ a = owner := by
    intro a
    refine ⟨fun heq => ?_, fun heq => heq ▸ rfl⟩
    exact Option.some.inj ((strkey.fromString_eq_some.mpr rfl).symm.trans
      (strkey.fromString_eq_some.mpr heq))
  -- the rows of the owner, in the order of emission
  have hlist : ((Tables.of events).publicKeys.filter own).map read = registrations owner log := by
    have hreads := congrArg (List.map Prod.snd) hcolumns
    rw [List.map_map, List.map_map, Function.comp_def, Function.comp_def, List.map_id'] at hreads
    rw [registrations, ← hreads, List.filter_map]
    refine congrArg _ (List.filter_congr fun r hr => ?_)
    obtain ⟨_, -, heq⟩ := List.mem_map.mp (hcolumns ▸ List.mem_map_of_mem hr)
    have hpool : r.pool = c.pool := (Prod.mk.inj heq).1.symm
    simp [hown, hpool, hinj]
  have hperm : (s.tables.publicKeys.filter own).Perm ((Tables.of events).publicKeys.filter own) :=
    hsame.publicKeys.filter own
  have hdescending : ((s.tables.publicKeys.filter own).insertionSort fun r t =>
      t.position ≤ r.position) = ((Tables.of events).publicKeys.filter own).reverse :=
    @Paging.insertionSort_eq _ _ _ (fun r : PublicKeyRow => OrderDual.toDual r.position) _ _ _
      (hperm.trans (List.reverse_perm _).symm)
      (List.pairwise_reverse.mpr ((publicKeys_sorted hsorted).filter own))
  unfold Api.publicKey
  dsimp only
  rw [hdescending, hperm.length_eq, List.head?_reverse, ← hlist, List.getLast?_map, List.length_map,
    Option.map_map]
  rfl

/-! ## 4. Runs -/

section Runs

open Indexing

variable {ix : Indexer} {n : Network ρ} {calls : List (Sent ρ)} {w : World}

/-- **What the API says of a nullifier lies between two states of the pool.**  Over every run of
both contracts and every run of the indexer as `Mirrored` has it, every 256-bit value is answered.
If it is reported spent, the pool has it spent, by a settlement in the ledger reported.  If the pool
had it spent at the end of the ledger the answer names as indexed, it is reported spent. -/
theorem nullifier_status_between (h : Mirrored ix L M n calls w)
    (verified : Address → Option VerifiedState) {v : Nat} (hv : IsU256 v) :
    ∃ status, Api.Routes.nullifier ⟨w.store, verified⟩ ix.contracts.pool (Verify.displayU256 v) =
        .ok status ∧
      status.nullifier = Verify.displayU256 v ∧
      (status.spent = true → (run exec calls n).pool.pool.spent v = true ∧
        ∃ ledger, status.ledger = some ledger ∧
          (ledger, .pool (.newNullifier v)) ∈ (run exec calls n).log) ∧
      ∀ S, status.indexedLedger = some S →
        (run exec (upTo S calls) n).pool.pool.spent v = true → status.spent = true := by
  obtain ⟨log, hshows⟩ := h.shows
  obtain ⟨hfound, hfinds⟩ := hshows.nullifier verified v
  refine ⟨_, Api.Routes.nullifier_displayU256 _ _ hv, rfl, ?_, ?_⟩
  · intro hspent
    obtain ⟨spend, hspend⟩ := Option.isSome_iff_exists.mp hspent
    have hnow := (hshows.within.filterMap spend?).subset (hfound spend hspend)
    refine ⟨(h.announces.spent_iff v).mpr ⟨spend.1, hnow⟩, spend.1, ?_, ?_⟩
    · rw [Api.Routes.nullifierStatus, hspend]
      rfl
    obtain ⟨⟨ledger, x⟩, hx, heq⟩ := List.mem_filterMap.mp hnow
    obtain ⟨_, hnull, heq⟩ := Option.map_eq_some_iff.mp heq
    obtain ⟨rfl, rfl⟩ := Prod.mk.inj heq
    -- only the announcement of the nullifier announces it
    rcases x with (event | event)
    · cases event <;> cases hnull
      exact hx
    · cases hnull
  · intro S hS hspent
    obtain ⟨⟨complete, latest⟩, hcheckpoint, rfl⟩ := Option.map_eq_some_iff.mp hS
    have hcomplete := Api.checkpoint_fst hcheckpoint
    dsimp only at hcomplete hspent
    rw [hcomplete] at hspent
    obtain ⟨ledger, hpast⟩ := ((h.announces_upTo _).spent_iff v).mp hspent
    obtain ⟨spend, hspend⟩ := hfinds ledger ((hshows.begins.filterMap spend?).subset hpast)
    rw [Api.Routes.nullifierStatus, hspend]
    rfl

/-- **The keys the API serves for an owner** are the last of a list of the owner's registrations,
all made with the owner's authorisation.  The list begins with those up to the indexed ledger, and
leaves out none but some of the later ones; the number of registrations reported is its length.  An
owner of whom it has none is not found.  The run of the indexer is one as `Mirrored` has it. -/
theorem served_keys_between (h : Mirrored ix L M n calls w)
    (verified : Address → Option VerifiedState) (strkey : Strkey) (owner : Address) :
    ∃ shown : List Registration,
      registered owner (accepted exec (upTo (Verify.indexedLedger w.store) calls) n) <+: shown ∧
      shown.Sublist (registered owner (accepted exec calls n)) ∧
      Api.Routes.publicKey strkey ⟨w.store, verified⟩ ix.contracts.pool (strkey.toString owner) =
        match shown.getLast? with
        | none =>
          let text := strkey.toString owner
          .error (.notFound s!"{text} has not registered keys")
        | some r => .ok ⟨strkey.toString owner, Api.hex r.account.encryptionKey,
            Api.hex r.account.noteKey, r.ledger, shown.length⟩ := by
  obtain ⟨log, hshows⟩ := h.shows
  refine ⟨registrations owner log, ?_, ?_, ?_⟩
  · have hosted : ∀ x ∈ upTo (Verify.indexedLedger w.store) calls, x.call.Hosted ix.contracts :=
      fun x hx => h.hosted x (List.mem_filter.mp hx).1
    rw [← h.fresh.registrations_run owner hosted]
    exact (hshows.begins.filterMap _).filter _
  · rw [← h.fresh.registrations_run owner h.hosted]
    exact (hshows.within.filterMap _).filter _
  · have hfound : (strkey.fromString (strkey.toString owner)).isSome = true := by
      rw [strkey.fromString_eq_some.mpr rfl]
      rfl
    rw [Api.Routes.publicKey, ensure_pos hfound, ok_bind, hshows.publicKey]
    cases (registrations owner log).getLast? with
    | none => rfl
    | some r => rfl

end Runs

/-! ### Keys changed while the index is behind -/

/-- One owner registers, a transfer settles, and the owner registers again. -/
def rekeyingCalls : List (Sent Unit) :=
  [⟨5, .pool (.register (fun _ => true) ⟨.account 7, [1], [2]⟩)⟩] ++ Following.transferCalls ++
    [⟨6, .pool (.register (fun _ => true) ⟨.account 7, [3], [4]⟩)⟩]

def rekeyingLog : List (Nat × Emission) :=
  [(5, .pool (.publicKey (.account 7) [1] [2]))] ++ Following.transferLog ++
    [(6, .pool (.publicKey (.account 7) [3] [4]))]

theorem placeable_rekeyingLog : Placeable rekeyingLog := ⟨by decide, by decide, by decide⟩

/-- An index that has come to the end of ledger 5. -/
theorem mirrored_rekeying : ∃ n w, Mirrored ⟨operatorContracts, 2, 7⟩ 1 1 n rekeyingCalls w ∧
    (Api.checkpoint ⟨w.store, fun _ => none⟩).map Prod.fst = some 5 ∧
    (run exec (upTo 5 rekeyingCalls) n).pool.pool.spent 5 = true ∧
    registered (.account 7) (accepted exec (upTo 5 rekeyingCalls) n) =
      [⟨5, .account 7, [1], [2]⟩] ∧
    registered (.account 7) (accepted exec rekeyingCalls n) =
      [⟨5, .account 7, [1], [2]⟩, ⟨6, .account 7, [3], [4]⟩] := by
  have hcalls : (deployed.any fun n => (run exec rekeyingCalls n).log = rekeyingLog ∧
      (run exec (upTo 5 rekeyingCalls) n).pool.pool.spent 5 = true ∧
      registered (.account 7) (accepted exec (upTo 5 rekeyingCalls) n) =
        [⟨5, .account 7, [1], [2]⟩] ∧
      registered (.account 7) (accepted exec rekeyingCalls n) =
        [⟨5, .account 7, [1], [2]⟩, ⟨6, .account 7, [3], [4]⟩]) = true := by
    decide +kernel
  obtain ⟨n, hfresh, hlog⟩ := deployed_of_any hcalls
  obtain ⟨hlog, hfacts⟩ := of_decide_eq_true hlog
  have hpage : seedThenPage 7 (pageOf (placeable_rekeyingLog.history 1 2) 7 5) (fun s =>
      (Api.checkpoint ⟨s, fun _ => none⟩).map Prod.fst = some 5) = true := by
    decide +kernel
  obtain ⟨w, hrun, hhistory, hindexed⟩ := reaches_seedThenPage (by decide +kernel)
    (honest_pageOf (by decide +kernel) le_rfl (by decide) (by decide) (by decide +kernel)) hpage
  refine ⟨n, w, ⟨hfresh, ?_, by decide, ⟨_, hrun⟩, ?_⟩, of_decide_eq_true hindexed, hfacts⟩
  · intro x hx
    simp only [rekeyingCalls, List.mem_append, List.mem_singleton] at hx
    rcases hx with (rfl | hx) | rfl
    · trivial
    · exact Following.hosted_transferCalls x hx
    · trivial
  · rw [hlog, hhistory]
    exact places_placed 0 fun x hx => (placeable_rekeyingLog.ledgers x hx).2

/-- The transfer of ledger 5 is reported. -/
theorem nullifier_status_between_rekeying : ∃ n w,
    Mirrored ⟨operatorContracts, 2, 7⟩ 1 1 n rekeyingCalls w ∧
    ∃ status, Api.Routes.nullifier ⟨w.store, fun _ => none⟩ (.contract 1) (Verify.displayU256 5) =
      .ok status ∧ status.spent = true := by
  obtain ⟨n, w, hmirrored, hindexed, hspent, -⟩ := mirrored_rekeying
  obtain ⟨status, hok, -, -, hreported⟩ := nullifier_status_between hmirrored (fun _ => none)
    (v := 5) (by norm_num [IsU256])
  refine ⟨n, w, hmirrored, status, hok, hreported 5 ?_ hspent⟩
  rw [Api.Routes.nullifier_displayU256 _ _ (by norm_num [IsU256])] at hok
  obtain rfl := Except.ok.inj hok
  exact hindexed

/-- A mark, and one letter for each unit. -/
def unary : Address → List Char
  | .account key => 'G' :: List.replicate key 'A'
  | .contract hash => 'C' :: List.replicate hash 'A'

def ofUnary : List Char → Option Address
  | 'G' :: rest =>
    if rest = List.replicate rest.length 'A' then some (.account rest.length) else none
  | 'C' :: rest =>
    if rest = List.replicate rest.length 'A' then some (.contract rest.length) else none
  | _ => none

theorem ofUnary_eq_some {text : List Char} {a : Address} :
    ofUnary text = some a ↔ text = unary a := by
  constructor
  · intro h
    unfold ofUnary at h
    split at h
    · next rest =>
      obtain ⟨hrest, ha⟩ := Option.ite_none_right_eq_some.mp h
      rw [← Option.some.inj ha, unary, ← hrest]
    · next rest =>
      obtain ⟨hrest, ha⟩ := Option.ite_none_right_eq_some.mp h
      rw [← Option.some.inj ha, unary, ← hrest]
    · cases h
  · rintro rfl
    cases a <;> simp [unary, ofUnary]

/-- Addresses written in unary. -/
def unaryStrkey : Strkey where
  toString a := String.ofList (unary a)
  fromString text := ofUnary text.toList
  fromString_eq_some := by
    intro text a
    rw [ofUnary_eq_some]
    exact ⟨fun h => by rw [← h, String.ofList_toList], fun h => by rw [h, String.toList_ofList]⟩

/-- The keys of ledger 5 are served; the list they end may hold those of ledger 6 or not. -/
theorem served_keys_between_rekeying : ∃ n w,
    Mirrored ⟨operatorContracts, 2, 7⟩ 1 1 n rekeyingCalls w ∧
    ∃ shown : List Registration, [⟨5, .account 7, [1], [2]⟩] <+: shown ∧
      shown.Sublist [⟨5, .account 7, [1], [2]⟩, ⟨6, .account 7, [3], [4]⟩] ∧
      ∃ r, shown.getLast? = some r ∧ Api.Routes.publicKey unaryStrkey ⟨w.store, fun _ => none⟩
        (.contract 1) (unaryStrkey.toString (.account 7)) =
          .ok ⟨unaryStrkey.toString (.account 7), Api.hex r.account.encryptionKey,
            Api.hex r.account.noteKey, r.ledger, shown.length⟩ := by
  obtain ⟨n, w, hmirrored, hindexed, -, hpast, hnow⟩ := mirrored_rekeying
  obtain ⟨shown, hbegins, hwithin, hok⟩ := served_keys_between hmirrored (fun _ => none)
    unaryStrkey (.account 7)
  obtain ⟨⟨complete, latest⟩, hcheckpoint, rfl⟩ := Option.map_eq_some_iff.mp hindexed
  have hcomplete := Api.checkpoint_fst hcheckpoint
  dsimp only at hcomplete hpast
  rw [← hcomplete, hpast] at hbegins
  rw [hnow] at hwithin
  have hne : shown ≠ [] := by
    rintro rfl
    cases List.prefix_nil.mp hbegins
  have hlast := List.getLast?_eq_getLast_of_ne_nil hne
  rw [hlast] at hok
  exact ⟨n, w, hmirrored, shown, hbegins, hwithin, _, hlast, hok⟩

end Network

end Veil
