/-
# Periodic verification

`services/indexer/src/service.rs`: `verify_periodically` runs `verify` again and again beside the
loop that follows the chain.  What it finds goes to two places.  `/verify` and the gauge
`veil_indexer_verify_ok` show the last outcome of one process, and `verified_state` keeps what the
contracts held, where the API reads the depth of the trees from.

A process can be stopped at any moment, also between the two rows of one report, and its successor
goes on with the table it left.  Any request of a round can fail, and any write of a row.

* Section 1 is the loop, with the rounds of any number of processes.
* Section 2 shows that the table and the status tell the truth after any rounds.
-/
import Veil.Api.Recorded

namespace Veil

open Tx

/-! ## 1. The loop -/

/-- A value after one update was there, or is the new one. -/
theorem mem_update_some {α β : Type} [DecidableEq α] {f : α → Option β} {a b : α} {x y : β}
    (h : y ∈ Function.update f a (some x) b) : y ∈ f b ∨ (b = a ∧ y = x) := by
  by_cases hb : b = a
  · subst hb
    rw [Function.update_self] at h
    exact .inr ⟨rfl, (Option.some.inj h).symm⟩
  · rw [Function.update_of_ne hb] at h
    exact .inl h

namespace Verify

variable {c : Contracts} {contract : Address} {row : VerifiedState}

/-- A row of the table was there, or has been written. -/
theorem mem_recordRows : ∀ (rows : List (Address × VerifiedState)) (writes : Nat → Write)
    (verified : Address → Option VerifiedState),
    row ∈ (recordRows rows writes verified).2 contract →
    row ∈ verified contract ∨ (contract, row) ∈ rows
  | [], _, _, h => .inl h
  | (written, new) :: rows, writes, verified, h => by
    have hnew : row ∈ Function.update verified written (some new) contract →
        row ∈ verified contract ∨ (contract, row) ∈ (written, new) :: rows := fun hrow =>
      (mem_update_some hrow).imp_right fun ⟨hwritten, hrow⟩ => by
        rw [hwritten, hrow]
        exact List.mem_cons_self
    unfold recordRows at h
    split at h
    · split at h
      · rcases mem_recordRows rows _ _ h with hwritten | hlater
        · exact hnew hwritten
        · exact .inr (List.mem_cons_of_mem _ hlater)
      · exact hnew h
      · exact .inl h
    · exact .inl h

/-- No row is ever removed. -/
theorem recordRows_keeps : ∀ (rows : List (Address × VerifiedState)) (writes : Nat → Write)
    (verified : Address → Option VerifiedState), (verified contract).isSome →
    ((recordRows rows writes verified).2 contract).isSome
  | [], _, _, h => h
  | (written, new) :: rows, writes, verified, h => by
    have hupdate : (Function.update verified written (some new) contract).isSome := by
      by_cases hwritten : contract = written
      · subst hwritten
        rw [Function.update_self]
        rfl
      · rw [Function.update_of_ne hwritten]
        exact h
    unfold recordRows
    split
    · split
      · exact recordRows_keeps rows _ _ hupdate
      · exact hupdate
      · exact h
    · exact h

theorem Report.mem_rows_pool {r : Report} (hok : r.ok = true) (hdistinct : c.pool ≠ c.allowlist)
    (h : (c.pool, row) ∈ r.rows c) :
    row = ⟨r.pool.ledger, r.pool.levels, r.pool.nextIndex, r.pool.root, false, true⟩ := by
  rcases List.mem_pair.mp h with heq | heq
  · rw [(Prod.mk.inj heq).2, matches_of_ok hok]
  · exact absurd (Prod.mk.inj heq).1 hdistinct

theorem Report.mem_rows_allowlist {r : Report} (hok : r.ok = true)
    (hdistinct : c.pool ≠ c.allowlist) (h : (c.allowlist, row) ∈ r.rows c) :
    row = ⟨r.allowlist.ledger, r.allowlist.levels, r.allowlist.nextIndex, r.allowlist.root,
      r.allowlist.operatorMaintained, true⟩ := by
  rcases List.mem_pair.mp h with heq | heq
  · exact absurd (Prod.mk.inj heq).1.symm hdistinct
  · rw [(Prod.mk.inj heq).2, matches_of_ok hok]

end Verify

namespace Service

/-- The outcome of one periodic `verify`.  The error is shown by its text. -/
structure Verification where
  «at» : Nat
  ok : Bool
  report : Option Verify.Report
  error : Option Verify.VerifyError

/-- What the rounds write: the status of each process, and the table they share. -/
structure Verifiers (ι : Type) where
  verification : ι → Option Verification
  verified : Address → Option VerifiedState

/-- Nothing has been verified yet. -/
def Verifiers.fresh {ι : Type} : Verifiers ι := ⟨fun _ => none, fun _ => none⟩

/-- One round: which process runs it, the moment of its first reading and how many more there are,
the ledgers the trees were read at, the time it is over, and what fails in it. -/
structure Round (ι : Type) where
  who : ι
  start : Nat
  polls : Nat
  poolLedger : Nat
  allowlistLedger : Nat
  time : Nat
  faults : Verify.Faults
  writes : Nat → Verify.Write
  /-- The rows that were written when the process was stopped, if it was. -/
  aborted : Option Nat

def Verification.of (time : Nat) : Except Verify.VerifyError Verify.Report → Verification
  | .ok report => ⟨time, report.ok, some report, none⟩
  | .error error => ⟨time, false, none, some error⟩

/-- **Nothing fails in the round**, and the process is not stopped before it is over. -/
structure Round.Undisturbed {ι : Type} (r : Round ι) : Prop where
  requests : ∀ error, ¬r.faults.Raises r.polls error
  writes : ∀ i, r.writes i = .done
  finished : r.aborted = none

/-- The end of a round.  An error of `record` is only logged. -/
def Verifiers.after {ι : Type} [DecidableEq ι] (s : Verifiers ι) (c : Contracts) (r : Round ι)
    (outcome : Except Verify.VerifyError Verify.Report) : Verifiers ι :=
  match r.aborted, outcome with
  | none, .ok report => ⟨Function.update s.verification r.who (some (.of r.time outcome)),
      (report.record c r.writes s.verified).2⟩
  | none, .error _ =>
    ⟨Function.update s.verification r.who (some (.of r.time outcome)), s.verified⟩
  | some count, .ok report =>
    ⟨s.verification, (Verify.recordRows ((report.rows c).take count) r.writes s.verified).2⟩
  | some _, .error _ => s

section After

variable {ι : Type} [DecidableEq ι] {s : Verifiers ι} {c : Contracts} {r : Round ι}

theorem Verifiers.after_error (error : Verify.VerifyError) :
    (s.after c r (.error error)).verified = s.verified := by
  unfold Verifiers.after
  cases r.aborted <;> rfl

/-- A stopped process has written a first part of the rows. -/
theorem Verifiers.after_ok (report : Verify.Report) : ∃ count,
    (s.after c r (.ok report)).verified =
      (Verify.recordRows ((report.rows c).take count) r.writes s.verified).2 := by
  unfold Verifiers.after
  cases r.aborted with
  | none => exact ⟨2, rfl⟩
  | some count => exact ⟨count, rfl⟩

theorem Verifiers.after_finished (h : r.aborted = none) (report : Verify.Report) :
    (s.after c r (.ok report)).verified = (report.record c r.writes s.verified).2 := by
  unfold Verifiers.after
  rw [h]

theorem Verifiers.mem_verification_after {outcome : Except Verify.VerifyError Verify.Report}
    {who : ι} {v : Verification} (h : v ∈ (s.after c r outcome).verification who) :
    v ∈ s.verification who ∨ (r.who = who ∧ v = .of r.time outcome) := by
  cases hr : r.aborted with
  | none =>
    have hupdate : (s.after c r outcome).verification =
        Function.update s.verification r.who (some (.of r.time outcome)) := by
      unfold Verifiers.after
      cases outcome <;> rw [hr]
    rw [hupdate] at h
    exact (mem_update_some h).imp_right fun ⟨hwho, hv⟩ => ⟨hwho.symm, hv⟩
  | some count =>
    have hsame : (s.after c r outcome).verification = s.verification := by
      unfold Verifiers.after
      cases outcome <;> rw [hr]
    rw [hsame] at h
    exact .inl h

end After

end Service

namespace Api

/-- What `levels` answers for a contract without a row. -/
def notVerified : ApiError :=
  .unavailable "the indexer has not verified this contract yet, so its tree depth is unknown"

variable {index : Store} {table : Address → Option VerifiedState} {contract : Address} {L : Nat}

theorem levels_of_none (h : table contract = none) :
    levels ⟨index, table⟩ contract = .error notVerified := by
  have hstate : (Database.mk index table).verifiedState contract = none := h
  rw [levels, onChain, hstate]
  rfl

theorem levels_of_known (hrows : ∀ row ∈ table contract, row.levels = L)
    (h : (table contract).isSome) : levels ⟨index, table⟩ contract = .ok L := by
  obtain ⟨row, hrow⟩ := Option.isSome_iff_exists.mp h
  have hstate : (Database.mk index table).verifiedState contract = some row := hrow
  rw [levels_of_verified hstate, hrows row hrow]

theorem levels_of_rows (hrows : ∀ row ∈ table contract, row.levels = L) :
    levels ⟨index, table⟩ contract = .ok L ∨
      levels ⟨index, table⟩ contract = .error notVerified := by
  cases h : table contract with
  | none => exact .inr (levels_of_none h)
  | some row => exact .inl (levels_of_known hrows (by rw [h]; rfl))

end Api

namespace Network

open Service (Verifiers Round Fleet)

variable {ρ ι : Type}

/-- `verify_periodically`, as the rounds of all processes one after the other. -/
def verifyPeriodically [DecidableEq ι] (c : Contracts) (n : Network ρ) (calls : List (Sent ρ))
    (w : Nat → Fleet ι) (passphrase : String) (rounds : List (Round ι)) (s : Verifiers ι) :
    Verifiers ι :=
  rounds.foldl (fun s r => s.after c r (verifyFrom c n calls w passphrase r.start r.polls
    r.poolLedger r.allowlistLedger r.faults)) s

/-! ## 2. What the rounds leave behind -/

/-- A reading of the round had come to both ledgers. -/
def Reached (w : Nat → Fleet ι) (r : Round ι) : Prop :=
  ∃ i ≤ r.polls, max r.poolLedger r.allowlistLedger ≤
    Verify.indexedLedger (w (r.start + i)).shared.store

/-- **What `/verify` may show of a round**: a match without an error, that the index was behind, or
the error of a request that failed. -/
def ShownFor (w : Nat → Fleet ι) (r : Round ι) (v : Service.Verification) : Prop :=
  v.at = r.time ∧
    ((Reached w r ∧ v.ok = true ∧ v.error = none ∧ ∃ report ∈ v.report, report.ok = true) ∨
    (¬Reached w r ∧ v.ok = false ∧ v.report = none ∧ ∃ indexed, v.error =
      some (.behind indexed (max r.poolLedger r.allowlistLedger)) ∧
      indexed < max r.poolLedger r.allowlistLedger) ∨
    (v.ok = false ∧ v.report = none ∧ ∃ error, v.error = some error ∧
      r.faults.Raises r.polls error))

/-- The row is what the pool held at the end of the ledger the round has read it at, as matching. -/
def PoolRow (c : Contracts) (n : Network ρ) (calls : List (Sent ρ)) (w : Nat → Fleet ι)
    (r : Round ι) (row : VerifiedState) : Prop :=
  Reached w r ∧ ∃ tree,
    Chain.poolTree c.pool r.poolLedger (run exec (upTo r.poolLedger calls) n).pool.pool =
      .ok tree ∧
    row = ⟨tree.ledger, tree.levels, tree.nextIndex, tree.root, false, true⟩

/-- The same of the allowlist. -/
def AllowlistRow (c : Contracts) (n : Network ρ) (calls : List (Sent ρ)) (w : Nat → Fleet ι)
    (r : Round ι) (row : VerifiedState) : Prop :=
  Reached w r ∧ ∃ tree,
    Chain.allowlistTree c.allowlist r.allowlistLedger
      (run exec (upTo r.allowlistLedger calls) n).allowlist = .ok tree ∧
    row = ⟨tree.ledger, tree.levels, tree.nextIndex, tree.root, tree.operatorMaintained, true⟩

/-- **What the rounds have left tells the truth.** -/
structure TellTruth (c : Contracts) (n : Network ρ) (calls : List (Sent ρ)) (w : Nat → Fleet ι)
    (rounds : List (Round ι)) (s : Verifiers ι) : Prop where
  pool : ∀ row ∈ s.verified c.pool, ∃ r ∈ rounds, PoolRow c n calls w r row
  allowlist : ∀ row ∈ s.verified c.allowlist, ∃ r ∈ rounds, AllowlistRow c n calls w r row
  known : ∀ r ∈ rounds, r.Undisturbed → Reached w r →
    (s.verified c.pool).isSome ∧ (s.verified c.allowlist).isSome
  shown : ∀ who, ∀ v ∈ s.verification who, ∃ r ∈ rounds, r.who = who ∧ ShownFor w r v

theorem tellTruth_fresh (c : Contracts) (n : Network ρ) (calls : List (Sent ρ))
    (w : Nat → Fleet ι) : TellTruth c n calls w [] .fresh where
  pool _ h := nomatch h
  allowlist _ h := nomatch h
  known _ h := nomatch h
  shown _ _ h := nomatch h

/-- **One more round**: it adds nothing but its own truth, and removes no row. -/
theorem TellTruth.extend {c : Contracts} {n : Network ρ} {calls : List (Sent ρ)}
    {w : Nat → Fleet ι} {rounds : List (Round ι)} {r : Round ι} {s s' : Verifiers ι}
    (hs : TellTruth c n calls w rounds s)
    (hpool : ∀ row ∈ s'.verified c.pool, row ∈ s.verified c.pool ∨ PoolRow c n calls w r row)
    (hallowlist : ∀ row ∈ s'.verified c.allowlist,
      row ∈ s.verified c.allowlist ∨ AllowlistRow c n calls w r row)
    (hkept : ∀ contract, (s.verified contract).isSome → (s'.verified contract).isSome)
    (hknown : r.Undisturbed → Reached w r →
      (s'.verified c.pool).isSome ∧ (s'.verified c.allowlist).isSome)
    (hshown : ∀ who, ∀ v ∈ s'.verification who,
      v ∈ s.verification who ∨ (r.who = who ∧ ShownFor w r v)) :
    TellTruth c n calls w (rounds ++ [r]) s' := by
  refine ⟨?_, ?_, ?_, ?_⟩
  · intro row hrow
    rcases hpool row hrow with hold | hnew
    · obtain ⟨r', hr', htrue⟩ := hs.pool row hold
      exact ⟨r', List.mem_append_left _ hr', htrue⟩
    · exact ⟨r, List.mem_concat_self, hnew⟩
  · intro row hrow
    rcases hallowlist row hrow with hold | hnew
    · obtain ⟨r', hr', htrue⟩ := hs.allowlist row hold
      exact ⟨r', List.mem_append_left _ hr', htrue⟩
    · exact ⟨r, List.mem_concat_self, hnew⟩
  · intro r' hr' hundisturbed hreached
    rcases List.mem_append.mp hr' with hr' | hr'
    · obtain ⟨hp, ha⟩ := hs.known r' hr' hundisturbed hreached
      exact ⟨hkept _ hp, hkept _ ha⟩
    · obtain rfl := List.mem_singleton.mp hr'
      exact hknown hundisturbed hreached
  · intro who v hv
    rcases hshown who v hv with hold | hnew
    · obtain ⟨r', hr', htrue⟩ := hs.shown who v hold
      exact ⟨r', List.mem_append_left _ hr', htrue⟩
    · exact ⟨r, List.mem_concat_self, hnew⟩

section Rounds

variable [DecidableEq ι] {config : ServiceConfig} {ix : Indexer} {drops : Bool} {L M : Nat}
  {n : Network ρ} {calls : List (Sent ρ)} {w : Nat → Fleet ι} {last : Nat}
  {rounds : List (Round ι)} {r : Round ι} {s : Verifiers ι} {passphrase : String}

/-- A round that ends with an error leaves the table as it is. -/
theorem TellTruth.failed (hs : TellTruth ix.contracts n calls w rounds s)
    {error : Verify.VerifyError} (hnot : r.Undisturbed → ¬Reached w r)
    (hshown : ShownFor w r (.of r.time (.error error))) :
    TellTruth ix.contracts n calls w (rounds ++ [r]) (s.after ix.contracts r (.error error)) := by
  refine hs.extend ?_ ?_ ?_ (fun hr hreached => absurd hreached (hnot hr)) fun who v hv => ?_
  · intro row hrow
    rw [Verifiers.after_error] at hrow
    exact .inl hrow
  · intro row hrow
    rw [Verifiers.after_error] at hrow
    exact .inl hrow
  · intro contract hsome
    rw [Verifiers.after_error]
    exact hsome
  · rcases Verifiers.mem_verification_after hv with hold | ⟨hwho, rfl⟩
    · exact .inl hold
    · exact .inr ⟨hwho, hshown⟩

theorem TellTruth.matched (hs : TellTruth ix.contracts n calls w rounds s)
    (hdistinct : ix.contracts.pool ≠ ix.contracts.allowlist) (hreached : Reached w r)
    {report : Verify.Report}
    (hmatch : FindsMatch ix.contracts n calls L M r.poolLedger r.allowlistLedger report) :
    TellTruth ix.contracts n calls w (rounds ++ [r]) (s.after ix.contracts r (.ok report)) := by
  obtain ⟨count, hcount⟩ := Verifiers.after_ok (s := s) (c := ix.contracts) (r := r) report
  refine hs.extend ?_ ?_ ?_ ?_ fun who v hv => ?_
  · intro row hrow
    rw [hcount] at hrow
    refine (Verify.mem_recordRows _ _ _ hrow).imp_right fun hnew => ?_
    have := Verify.Report.mem_rows_pool hmatch.ok hdistinct (List.mem_of_mem_take hnew)
    exact ⟨hreached, report.pool, hmatch.pool, this⟩
  · intro row hrow
    rw [hcount] at hrow
    refine (Verify.mem_recordRows _ _ _ hrow).imp_right fun hnew => ?_
    have := Verify.Report.mem_rows_allowlist hmatch.ok hdistinct (List.mem_of_mem_take hnew)
    exact ⟨hreached, report.allowlist, hmatch.allowlist, this⟩
  · intro contract hsome
    rw [hcount]
    exact Verify.recordRows_keeps _ _ _ hsome
  · intro hr _
    obtain ⟨table, hrecord, hrecords⟩ := Verify.Report.record_of_ok hmatch.ok hdistinct
      hmatch.fits.1 hmatch.fits.2 hr.writes s.verified
    rw [Verifiers.after_finished hr.finished, hrecord]
    dsimp only
    rw [hrecords.pool, hrecords.allowlist]
    exact ⟨rfl, rfl⟩
  · rcases Verifiers.mem_verification_after hv with hold | ⟨hwho, rfl⟩
    · exact .inl hold
    · exact .inr ⟨hwho, rfl, .inl ⟨hreached, hmatch.ok, rfl, report, rfl, hmatch.ok⟩⟩

/-- **One round keeps the table and the status true.** -/
theorem TellTruth.step (h : Verifying config ix drops L M n calls w last)
    (hdistinct : ix.contracts.pool ≠ ix.contracts.allowlist)
    (hs : TellTruth ix.contracts n calls w rounds s) (hr : r.start + r.polls + 4 ≤ last) :
    TellTruth ix.contracts n calls w (rounds ++ [r]) (s.after ix.contracts r
      (verifyFrom ix.contracts n calls w passphrase r.start r.polls r.poolLedger r.allowlistLedger
        r.faults)) := by
  cases hresult : verifyFrom ix.contracts n calls w passphrase r.start r.polls r.poolLedger
      r.allowlistLedger r.faults with
  | ok report =>
    obtain ⟨hreached, hmatch⟩ := h.matches hr hresult
    exact hs.matched hdistinct hreached hmatch
  | error error =>
    rcases h.fails hr _ _ _ _ error hresult with hraises | ⟨hbehind, rfl⟩
    · exact hs.failed (fun hundisturbed => absurd hraises (hundisturbed.requests error))
        ⟨rfl, .inr (.inr ⟨rfl, rfl, error, rfl, hraises⟩)⟩
    · have hnot : ¬Reached w r := fun ⟨i, hi, hle⟩ => absurd (hbehind i hi) (not_lt.mpr hle)
      exact hs.failed (fun _ => hnot)
        ⟨rfl, .inr (.inl ⟨hnot, rfl, rfl, _, rfl, hbehind r.polls le_rfl⟩)⟩

theorem tellTruth_run (h : Verifying config ix drops L M n calls w last)
    (hdistinct : ix.contracts.pool ≠ ix.contracts.allowlist)
    (hrounds : ∀ r ∈ rounds, r.start + r.polls + 4 ≤ last) :
    TellTruth ix.contracts n calls w rounds
      (verifyPeriodically ix.contracts n calls w passphrase rounds .fresh) := by
  -- on the rounds from the last one back, so that the step lemma applies at the end
  induction rounds using List.reverseRecOn with
  | nil => exact tellTruth_fresh ..
  | append_singleton rounds r ih =>
    rw [verifyPeriodically, List.foldl_concat]
    refine TellTruth.step h hdistinct (ih fun r' hr' => ?_) ?_
    · exact hrounds r' (List.mem_append_left _ hr')
    · exact hrounds r List.mem_concat_self

theorem PoolRow.levels {row : VerifiedState} (h : Verifying config ix drops L M n calls w last)
    (hrow : PoolRow ix.contracts n calls w r row) : row.levels = L := by
  obtain ⟨-, tree, htree, rfl⟩ := hrow
  rw [poolTree_of_holds (announces_asOf h.fresh h.hosted r.poolLedger).holds] at htree
  obtain rfl := Except.ok.inj htree
  rfl

theorem AllowlistRow.levels {row : VerifiedState}
    (h : Verifying config ix drops L M n calls w last)
    (hrow : AllowlistRow ix.contracts n calls w r row) : row.levels = M := by
  obtain ⟨-, tree, htree, rfl⟩ := hrow
  obtain ⟨state, hstate, -, hdepth, -⟩ := allowlistTree_asOf h.fresh h.hosted r.allowlistLedger
  obtain rfl := Except.ok.inj (hstate.symm.trans htree)
  exact hdepth

/-- **Periodic verification beside running indexers tells the truth**, over the rounds of any number
of processes, each of which can be stopped at any moment.  Any request of a round and any write can
fail.

* Each row of `verified_state` is what the contract held at the end of a ledger that a round has
  read it at, as matching.  `/verify` shows a match, that the index was behind, or the error of a
  request that failed; and the second only for a round that has met no index that had come to its
  ledgers.
* So the API answers with the depth of each tree or that it is not verified yet: with both depths
  once one undisturbed round has met such an index, and with none before the first round that has.

The premise `h` has the sources of the fleet be honest and retain what is asked of them. -/
theorem periodic_verification_tells_truth (h : Verifying config ix drops L M n calls w last)
    (hdistinct : ix.contracts.pool ≠ ix.contracts.allowlist) (passphrase : String)
    (rounds : List (Round ι)) (hrounds : ∀ r ∈ rounds, r.start + r.polls + 4 ≤ last)
    (index : Store) :
    let s := verifyPeriodically ix.contracts n calls w passphrase rounds .fresh
    let pool := Api.levels ⟨index, s.verified⟩ ix.contracts.pool
    let allowlist := Api.levels ⟨index, s.verified⟩ ix.contracts.allowlist
    TellTruth ix.contracts n calls w rounds s ∧
      (pool = .ok L ∨ pool = .error Api.notVerified) ∧
      (allowlist = .ok M ∨ allowlist = .error Api.notVerified) ∧
      ((∃ r ∈ rounds, r.Undisturbed ∧ Reached w r) → pool = .ok L ∧ allowlist = .ok M) ∧
      ((∀ r ∈ rounds, ¬Reached w r) →
        pool = .error Api.notVerified ∧ allowlist = .error Api.notVerified) := by
  intro s pool allowlist
  have htruth : TellTruth ix.contracts n calls w rounds s := tellTruth_run h hdistinct hrounds
  have hpool : ∀ row ∈ s.verified ix.contracts.pool, row.levels = L := by
    intro row hrow
    obtain ⟨r, -, htrue⟩ := htruth.pool row hrow
    exact htrue.levels h
  have hallowlist : ∀ row ∈ s.verified ix.contracts.allowlist, row.levels = M := by
    intro row hrow
    obtain ⟨r, -, htrue⟩ := htruth.allowlist row hrow
    exact htrue.levels h
  refine ⟨htruth, Api.levels_of_rows hpool, Api.levels_of_rows hallowlist, ?_, ?_⟩
  · rintro ⟨r, hr, hundisturbed, hreached⟩
    obtain ⟨hp, ha⟩ := htruth.known r hr hundisturbed hreached
    exact ⟨Api.levels_of_known hpool hp, Api.levels_of_known hallowlist ha⟩
  · intro hnone
    refine ⟨Api.levels_of_none ?_, Api.levels_of_none ?_⟩
    · refine Option.eq_none_iff_forall_not_mem.mpr fun row hrow => ?_
      obtain ⟨r, hr, htrue⟩ := htruth.pool row hrow
      exact hnone r hr htrue.1
    · refine Option.eq_none_iff_forall_not_mem.mpr fun row hrow => ?_
      obtain ⟨r, hr, htrue⟩ := htruth.allowlist row hrow
      exact hnone r hr htrue.1

end Rounds

/-- A round that has read the allowlist in ledger 7. -/
def lateRound : Round Bool := ⟨true, 0, 0, 5, 7, 100, .none, fun _ => .done, none⟩

/-- The next one, in which the network does not answer. -/
def failingRound : Round Bool :=
  ⟨true, 0, 0, 5, 6, 160, { Verify.Faults.none with network := some .emptyResponse },
    fun _ => .done, none⟩

/-- The one after that, which has read the allowlist in ledger 6, from another node. -/
def earlierRound : Round Bool := ⟨true, 0, 0, 5, 6, 220, .none, fun _ => .done, none⟩

/-- The index has come to ledger 6.  After the first round nothing is verified, the round that fails
leaves nothing untrue, and after the last both trees are verified. -/
theorem periodic_verification_tells_truth_listing : ∃ n w,
    Verifying (ι := Bool) Service.sampleConfig Service.sampleIndexer false 1 1 n listingCalls
      (fun _ => w) 4 ∧
    Api.levels ⟨w.shared.store, (verifyPeriodically Service.sampleIndexer.contracts n listingCalls
      (fun _ => w) "" [lateRound] .fresh).verified⟩ (.contract 2) = .error Api.notVerified ∧
    TellTruth Service.sampleIndexer.contracts n listingCalls (fun _ => w) [lateRound, failingRound]
      (verifyPeriodically Service.sampleIndexer.contracts n listingCalls (fun _ => w) ""
        [lateRound, failingRound] .fresh) ∧
    Api.levels ⟨w.shared.store, (verifyPeriodically Service.sampleIndexer.contracts n listingCalls
      (fun _ => w) "" [lateRound, failingRound, earlierRound] .fresh).verified⟩ (.contract 2) =
        .ok 1 := by
  obtain ⟨n, w, hverifying, hindexed⟩ := verifying_listing
  refine ⟨n, w, hverifying, ?_, ?_, ?_⟩
  · obtain ⟨-, -, -, -, hnone⟩ := periodic_verification_tells_truth hverifying (by decide) ""
      [lateRound] (by decide) w.shared.store
    refine (hnone fun r hr => ?_).2
    obtain rfl := List.mem_singleton.mp hr
    rintro ⟨i, -, hreached⟩
    rw [hindexed] at hreached
    exact absurd hreached (by decide)
  · exact (periodic_verification_tells_truth hverifying (by decide) "" [lateRound, failingRound]
      (by decide) w.shared.store).1
  · obtain ⟨-, -, -, hknown, -⟩ := periodic_verification_tells_truth hverifying (by decide) ""
      [lateRound, failingRound, earlierRound] (by decide) w.shared.store
    refine (hknown ⟨earlierRound, by simp,
      ⟨fun _ => Verify.Faults.not_raises_none, fun _ => rfl, rfl⟩, 0, le_rfl, ?_⟩).2
    rw [hindexed]
    decide

end Network

end Veil
