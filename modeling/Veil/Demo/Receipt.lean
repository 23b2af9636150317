/-
# From the pool to the recipient's wallet

A payment is two outputs of a `transact`.  Between the pool and the wallet it is for stand the
event, the indexer, the listing with its pages and the scan.  Here they are put together: the
recipient finds the note once the index has passed its ledger, whatever other transactions there
were, in whatever state of the index each of the requests is answered.

The wallet asks whether the note is spent, and gets the answer of the index at that moment.  So an
unspent note is always found; a note is missing from the result if its spend has been indexed.
-/
import Veil.Api.NoteListing
import Veil.Demo.Scan

namespace Veil

open Tx

namespace Demo

open NoteCrypto (Primitives)
open PolicyFixture (CreatedNote)
open Network (Sent Fresh Places Announces Feed exec knownOutputs output?)
open Following (World Reaches)

/-! ## 1. The listing as the wallet reads it -/

/-- **The API of a feed delivers** what one of the requests found in the index. -/
theorem delivers_of_feed {ρ : Type} {c : Contracts} {L M : Nat} {n : Network ρ}
    {sent : List (Sent ρ)} {events : List EmittedEvent} {k : Nat → Nat} {stores : Nat → Store}
    {strkey : Strkey} {base : String} {backend : Backend} {requests : Nat}
    (h : Feed c n.log events k stores) (hann : Announces c L M sent n)
    (hnotes : ∀ i, ∃ verified, backend.notes i = some ⟨stores i, verified⟩)
    (hnullifiers : ∀ v : F, ∃ db, backend.nullifier (scalarHex v) = some db)
    (hrequests : n.leaves.length < requests) :
    ∃ j, Delivers (Service.over strkey base c backend requests).toClient
      (knownOutputs n.log (k j)) := by
  choose verified hverified using hnotes
  have hbound : ∀ i, (knownOutputs n.log (k i)).length ≤ n.leaves.length := by
    intro i
    have htotal := congrArg List.length hann.outputs
    have hpart : (knownOutputs n.log (k i)).length ≤ (n.log.filterMap output?).length :=
      ((List.take_prefix _ _).filterMap _).length_le
    simp only [List.length_map, List.length_zipIdx] at htotal
    omega
  exact delivers_of_serves (h.serves hann verified) hverified hbound hrequests hnullifiers

/-! ## 2. The payment is found -/

/-- **A payment to the wallet**: a `transact` with an output that was made for it. -/
structure PaysTo {ρ : Type} (crates : Primitives) (wallet : Wallet) (draw : Draw) (amount : Nat)
    (created : CreatedNote) (sent : Sent ρ) : Prop where
  positive : 1 ≤ amount
  fits : amount < 2 ^ 128
  agree : crates.Agree wallet.encryptionSecret draw.ephemeral
  made : ∃ encrypted,
    newNote crates draw wallet.notePublicKey (wallet.encryptionKey crates) amount =
      .ok (created, encrypted) ∧ ∃ r ext, sent.call = .pool (.request r ext) ∧ r.isExit = false ∧
      ((r.proof.outputCommitment0, r.extData.encryptedOutput0) =
          (created.commitment.val, encrypted) ∨
        (r.proof.outputCommitment1, r.extData.encryptedOutput1) =
          (created.commitment.val, encrypted))

/-- **The requests of a scan** meet the index at moments of a follower's run. -/
structure Backend.Follows (backend : Backend) (moment : Nat → World) : Prop where
  notes : ∀ i, ∃ verified, backend.notes i = some ⟨(moment i).store, verified⟩
  nullifiers : ∀ v : F, ∃ i verified,
    backend.nullifier (scalarHex v) = some ⟨(moment i).store, verified⟩

/-- **A payment is found by its recipient.**  For every run of the two contracts, every accepted
payment to a wallet and every follower that starts at or before the first event, of a source that
drops none: if the index has passed the payment's ledger when the listing is first asked for, and
decryption inverts encryption, the wallet's scan succeeds and

* returns the note, if the pool has not seen its nullifier by the end of the run;
* does not return it, if its spend was indexed when the nullifier was asked about. -/
theorem payment_found_through_api {ρ : Type} {c : Contracts} {L M : Nat} {n : Network ρ}
    {calls : List (Sent ρ)} (hfresh : Fresh L M n) (hosted : ∀ x ∈ calls, x.call.Hosted c)
    (hordered : calls.Pairwise fun x y => x.ledger ≤ y.ledger) {pageSize s : Nat}
    {moment : Nat → World} (hmoments : Following.Passes c pageSize s (run exec calls n).log moment)
    {backend : Backend} (hbackend : backend.Follows moment) {requests : Nat}
    (hrequests : (run exec calls n).leaves.length < requests) (strkey : Strkey) (base : String)
    {crates : Primitives} (laws : crates.Lawful) {wallet : Wallet} {draw : Draw} {amount : Nat}
    {created : CreatedNote} {sent : Sent ρ} (hsent : sent ∈ accepted exec calls n)
    (hpays : PaysTo crates wallet draw amount created sent)
    (hindexed : sent.ledger ≤ Verify.indexedLedger (moment 0).store) :
    ∃ index owned, (run exec calls n).leaves[index]? = some created.commitment.val ∧
      scan crates (Service.over strkey base c backend requests).toClient wallet = .ok owned ∧
      let nullifier := nullifierOf wallet created index
      let found : Owned := ⟨index, amount, draw.blinding, scalarHex nullifier⟩
      ((run exec calls n).pool.pool.spent nullifier.val = false → found ∈ owned) ∧
      ∀ i verified, backend.nullifier (scalarHex nullifier) = some ⟨(moment i).store, verified⟩ →
        (run exec (Network.upTo (Verify.indexedLedger (moment i).store) calls) n).pool.pool.spent
          nullifier.val = true → found ∉ owned := by
  have hann := hfresh.announces_run hosted
  obtain ⟨events, k, hfeed⟩ := hmoments.feed
  obtain ⟨encrypted, hnew, r, ext, hcall, hexit, houtput⟩ := hpays.made
  -- the output was announced, and is stored when the listing begins
  obtain ⟨index, hout⟩ : ∃ index, (index, created.commitment.val, encrypted, sent.ledger) ∈
      (run exec calls n).log.filterMap output? := by
    obtain ⟨index, h0, h1⟩ := Network.outputs_run hosted hsent hcall hexit
    rcases houtput with heq | heq
    · obtain ⟨hcommitment, hencrypted⟩ := Prod.mk.inj heq
      rw [hcommitment, hencrypted] at h0
      exact ⟨index, h0⟩
    · obtain ⟨hcommitment, hencrypted⟩ := Prod.mk.inj heq
      rw [hcommitment, hencrypted] at h1
      exact ⟨index + 1, h1⟩
  obtain ⟨j, hdelivers⟩ : ∃ j, Delivers (Service.over strkey base c backend requests).toClient
      (knownOutputs (run exec calls n).log (k j)) :=
    delivers_of_feed hfeed hann hbackend.notes (fun v => by
      obtain ⟨i, verified, hdb⟩ := hbackend.nullifiers v
      exact ⟨_, hdb⟩) hrequests
  have hknown : (index, created.commitment.val, encrypted, sent.ledger) ∈
      knownOutputs (run exec calls n).log (k j) := hfeed.known hout hindexed j
  obtain ⟨owned, hscan, hmem⟩ := hdelivers.finds laws hpays.positive hpays.fits hpays.agree hnew
    hknown
  refine ⟨index, owned, hann.leaf_of_output hout, hscan, ?_, ?_⟩
  · intro hunspent
    -- an answer that it is spent would come from a spend of the pool
    obtain ⟨i, verified, hdb⟩ := hbackend.nullifiers (nullifierOf wallet created index)
    have hfree : Api.nullifier ⟨(moment i).store, verified⟩ c.pool
        (nullifierOf wallet created index).val = none := by
      rw [Option.eq_none_iff_forall_ne_some]
      intro spend hspend
      rw [hfeed.spent_of_nullifier hann hspend] at hunspent
      cases hunspent
    refine hmem.mpr ?_
    rw [isSpent_scalarHex hdb, hfree]
    rfl
  · intro i verified hdb hspent hfound
    have hanswer := hmem.mp hfound
    rw [isSpent_scalarHex hdb] at hanswer
    obtain ⟨spend, hknown⟩ :=
      hfeed.nullifier_of_spent hfresh hosted hordered hspent verified
    rw [hknown] at hanswer
    cases hanswer

/-! ### Forty for Bob -/

/-- Freshly deployed, with trees of the circuit's depth. -/
def deployedDeep : Option (Network Unit) :=
  match Pool.constructor (.account 1) (.contract 3) (.contract 4) (.contract 2) 1000 (.account 5)
      30 PolicyFixture.levels, ASPMembership.constructor (.account 1) PolicyFixture.levels with
  | .ok pool, .ok allowlist => some ⟨⟨pool, [], ()⟩, allowlist, []⟩
  | _, _ => none

theorem deployedDeep_of_any {p : Network Unit → Bool} (h : deployedDeep.any p = true) :
    ∃ n, Fresh PolicyFixture.levels PolicyFixture.levels n ∧ deployedDeep = some n ∧
      p n = true := by
  cases hn : deployedDeep with
  | none =>
    rw [hn] at h
    cases h
  | some n =>
    rw [hn] at h
    refine ⟨n, ?_, rfl, h⟩
    unfold deployedDeep at hn
    split at hn
    · next pool allowlist hpool hallowlist =>
      obtain rfl := Option.some.inj hn
      exact ⟨⟨_, _, _, _, _, _, _, hpool⟩, rfl, ⟨_, hallowlist⟩, rfl⟩
    · cases hn

/-- The transaction with both notes. -/
def fortyRequest : Pool.Request :=
  { Pool.fillingCall.request with
    proof := { Pool.fillingCall.request.proof with
      root := getZeroes.getD PolicyFixture.levels 0
      inputNullifiers := [5, 6]
      outputCommitment0 := (noteFor draw40 40).commitment.val
      outputCommitment1 := (noteFor draw25 25).commitment.val }
    extData := ⟨.account 7, 0, sealedFor draw40 40, sealedFor draw25 25⟩ }

def fortySent : Sent Unit :=
  ⟨6, .pool (.request fortyRequest (Pool.fillingCall.externals (.contract 1) fun _ => 0))⟩

/-- Someone publishes keys, and then Bob is paid. -/
def fortyCalls : List (Sent Unit) :=
  [⟨5, .pool (.register (fun _ => true) ⟨.account 7,
      (sampleCrates.publicKey (sampleSecret 3)).toList,
      (scalarToBeBytes (PolicyFixture.derivePublicKey (2 : Nat))).toList⟩)⟩, fortySent]

theorem hosted_fortyCalls : ∀ x ∈ fortyCalls, x.call.Hosted Network.operatorContracts := by
  intro x hx
  rcases List.mem_pair.mp hx with rfl | rfl
  · trivial
  · exact ⟨Pool.PoolCall.quiet _, rfl⟩

theorem paysTo_fortySent :
    PaysTo sampleCrates sampleWallet draw40 40 (noteFor draw40 40) fortySent where
  positive := by decide
  fits := by decide
  agree := agree_draw40
  made := ⟨_, newNote_sealedFor agree_draw40 40, _, _, rfl, rfl, .inl rfl⟩

def fortyLeaves : List Nat :=
  [(noteFor draw40 40).commitment.val, (noteFor draw25 25).commitment.val]

def fortyLog : List (Nat × Emission) :=
  (deployedDeep.map fun n => (run exec fortyCalls n).log).getD []

theorem placeable_fortyLog : Network.Placeable fortyLog := by
  have hall : fortyLog.Pairwise (fun x y => x.1 ≤ y.1) ∧ (∀ x ∈ fortyLog, 0 < x.1 ∧ x.1 < 2 ^ 31) ∧
      fortyLog.length < 2 ^ 31 := by
    decide +kernel
  exact ⟨hall.1, hall.2.1, hall.2.2⟩

/-- All of it is on one page, up to ledger 6. -/
def fortyPage : EventsPage := Network.pageOf (placeable_fortyLog.history 1 2) 7 6

theorem late_fortyLog : ∀ e ∈ (placeable_fortyLog.history 1 2).events, 4 < e.position.ledger := by
  decide +kernel

theorem honest_fortyPage :
    HonestPage ((placeable_fortyLog.history 1 2).retained 4) (.ledger 4) 7 fortyPage :=
  Network.honest_pageOf late_fortyLog le_rfl (by decide) (by decide) (by decide +kernel)

/-- A source that has deleted nothing yet. -/
theorem retained_eq_self {history : History} {oldest : Nat}
    (h : ∀ e ∈ history.events, oldest ≤ e.position.ledger) : history.retained oldest = history := by
  obtain ⟨events, sorted, storable⟩ := history
  rw [History.retained, History.mk.injEq]
  exact List.filter_eq_self.mpr fun e he => decide_eq_true (h e he)

/-- The run, and a follower of it that has come to the end of ledger 6. -/
theorem follows_forty : ∃ n w, Fresh PolicyFixture.levels PolicyFixture.levels n ∧
    Following.Passes Network.operatorContracts 7 4 (run exec fortyCalls n).log (fun _ => w) ∧
    Verify.indexedLedger w.store = 6 ∧ fortySent ∈ accepted exec fortyCalls n ∧
    (run exec fortyCalls n).leaves = fortyLeaves ∧
    (run exec fortyCalls n).pool.pool.spent (nullifierOf sampleWallet (noteFor draw40 40) 0).val =
      false := by
  have hcalls : (deployedDeep.any fun n => (accepted exec fortyCalls n).length = 2 ∧
      (run exec fortyCalls n).leaves = fortyLeaves ∧
      (run exec fortyCalls n).pool.pool.spent (nullifierOf sampleWallet (noteFor draw40 40) 0).val =
        false) = true := by
    decide +kernel
  obtain ⟨n, hfresh, hn, hfacts⟩ := deployedDeep_of_any hcalls
  obtain ⟨hlength, hleaves, hunspent⟩ := of_decide_eq_true hfacts
  have hlog : (run exec fortyCalls n).log = fortyLog := by
    rw [fortyLog, hn]
    rfl
  have hall : accepted exec fortyCalls n = fortyCalls :=
    (accepted_sublist _ _ _).eq_of_length hlength
  have hwhole := retained_eq_self fun e he => (late_fortyLog e he).le
  have hpage : okAnd ((Follower.mk Network.operatorContracts .rpc 7).syncPage (.ledger 4) fortyPage
      {} .empty) (fun r => Verify.indexedLedger r.2.2 = 6) = true := by
    decide +kernel
  obtain ⟨⟨next, report, store⟩, hsync, hindexed⟩ := okAnd_eq_true.mp hpage
  have hreach : Reaches ⟨Network.operatorContracts, .rpc, 7⟩ 4
      (.fresh (placeable_fortyLog.history 1 2)) _ :=
    ((Relation.ReflTransGen.single (Following.Step.begin rfl (.inl rfl) rfl)).tail
      (.answer rfl (hwhole ▸ honest_fortyPage))).tail (.commit rfl hsync)
  refine ⟨n, _, hfresh, ⟨⟨_, hreach⟩, fun _ => .refl, _, fun _ => .refl, ?_, ?_⟩,
    of_decide_eq_true hindexed, ?_, hleaves, hunspent⟩
  · rw [hlog]
    exact Network.places_placed 0 fun x hx => (placeable_fortyLog.ledgers x hx).2
  · exact fun e he => (late_fortyLog e he).le
  · rw [hall]
    exact List.mem_cons_of_mem _ List.mem_cons_self

/-- Bob finds the note of 40. -/
theorem payment_found_through_api_forty : ∃ (n : Network Unit) (w : World),
    (run exec fortyCalls n).leaves = fortyLeaves ∧
    ∃ owned, scan sampleCrates (Service.over Network.unaryStrkey "" Network.operatorContracts
        (Backend.same ⟨w.store, fun _ => none⟩ none) 3).toClient sampleWallet = .ok owned ∧
      (⟨0, 40, (7 : Nat), scalarHex (nullifierOf sampleWallet (noteFor draw40 40) 0)⟩ : Owned) ∈
        owned := by
  obtain ⟨n, w, hfresh, hpasses, hindexed, hsent, hleaves, hunspent⟩ := follows_forty
  have hbackend : (Backend.same ⟨w.store, fun _ => none⟩ none).Follows fun _ => w :=
    ⟨fun _ => ⟨_, rfl⟩, fun _ => ⟨0, _, rfl⟩⟩
  have hrequests : (run exec fortyCalls n).leaves.length < 3 := by
    rw [hleaves]
    decide
  obtain ⟨index, owned, hleaf, hscan, hfound, -⟩ := payment_found_through_api hfresh
    hosted_fortyCalls (by decide) hpasses hbackend hrequests Network.unaryStrkey ""
    sampleCrates_lawful hsent paysTo_fortySent hindexed.ge
  obtain rfl : index = 0 := by
    rw [hleaves] at hleaf
    match index, hleaf with
    | 0, _ => rfl
    | 1, hleaf => exact absurd (Option.some.inj hleaf) (by decide +kernel)
    | index + 2, hleaf => cases hleaf
  exact ⟨n, w, hleaves, owned, hscan, hfound hunspent⟩

end Demo

end Veil
