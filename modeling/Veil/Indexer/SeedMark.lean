/-
# What the seed's mark says

`seed` writes the `stellar_expert` checkpoint after it has read both contracts, with the ledger it
took from the archive before it read them.  The mark is to mean "complete up to here", and the
hand-off to RPC rests on it: RPC is asked from a margin before that ledger on, and the older ledgers
are taken as stored.

The invariant of `Indexing` carries both.  Here it is read off at the mark: the mark is true at
every moment of every run, only the write that ends a seed moves it (`Inv.seed_mark_step`), and an
RPC run that starts from it leaves no gap, whatever the overlap.
-/
import Veil.Indexer.Recovery

namespace Veil

open EventPosition Tx

namespace Indexing

variable {ix : Indexer} {floor : Nat} {w w' : World}

/-- The step with which a seed that has read both contracts ends. -/
def Finishes (w w' : World) : Prop :=
  ∃ tip report, w.phase = .seeding tip [] report ∧ finishSeed tip w.store = .ok w'.store ∧
    w'.phase = .idle

/-- **Only the end of a seed moves the mark.** -/
theorem Inv.seed_mark_step (h : Inv ix floor w) (hstep : Step ix floor w w') :
    w'.store.checkpoint .seed = w.store.checkpoint .seed ∨ Finishes w w' := by
  cases hstep with
  | grow => exact .inl rfl
  | kill => exact .inl rfl
  | seed step =>
    cases step with
    | commit listed seeded =>
      left
      rcases (Seed.seedPage_ok h.consistent.sound seeded).wrote with ⟨-, rfl⟩ | ⟨last, -, hw⟩
      · rfl
      · exact hw.checkpoint_of_ne (by simp)
    | finish seeding finished => exact .inr ⟨_, _, seeding, finished, rfl⟩
    | _ => exact .inl rfl
  | follow step =>
    cases step with
    | commit holding synced =>
      left
      rcases (Follower.syncPage_ok h.consistent.sound synced).wrote with hw | ⟨-, -, rfl⟩
      · exact hw.checkpoint_of_ne (by simp [Indexer.follower])
      · rfl
    | _ => exact .inl rfl

/-- A stretch of a run in which no seed comes to its end: seeds that fail or are killed, and
anything else the process does. -/
abbrev Unfinished (ix : Indexer) (floor : Nat) : World → World → Prop :=
  Relation.ReflTransGen fun w w' => Step ix floor w w' ∧ ¬Finishes w w'

theorem Inv.seed_mark_unfinished (h : Inv ix floor w) (hrun : Unfinished ix floor w w') :
    w'.store.checkpoint .seed = w.store.checkpoint .seed := by
  have hboth : Inv ix floor w' ∧ w'.store.checkpoint .seed = w.store.checkpoint .seed := by
    induction hrun with
    | refl => exact ⟨h, rfl⟩
    | tail _ hstep ih =>
      obtain ⟨hinv, hmark⟩ := ih
      exact ⟨hinv.step hstep.1, ((hinv.seed_mark_step hstep.1).resolve_right hstep.2).trans hmark⟩
  exact hboth.2

/-- Where `rpc_start` says to start, without an RPC checkpoint. -/
theorem rpcStart_some {s : Store} {range : LedgerRange} {overlap l : Nat}
    (h : rpcStart s range overlap = .ok (some l)) : s.checkpoint .rpc = none ∧
      ∃ mark, s.checkpoint .seed = some mark ∧ range.oldestLedger ≤ mark.latestLedger + 1 := by
  cases hc : s.checkpoint .rpc with
  | some c =>
    rw [rpcStart_of_rpc hc] at h
    split at h <;> cases h
  | none =>
    refine ⟨rfl, ?_⟩
    cases hs : s.checkpoint .seed with
    | none =>
      rw [rpcStart_of_neither hc hs] at h
      cases h
    | some mark =>
      rw [rpcStart_of_seed hc hs] at h
      split at h
      · cases h
      · exact ⟨mark, rfl, by omega⟩

/-- **The seed's mark is true.**  For every history of the two contracts, growing while the indexer
runs, and every sequence of seeds that are killed anywhere and run again, against an archive that
honours the page size:

* whenever the mark names a ledger, every event of both contracts in the ledgers up to it is stored;
* a seed that fails or is killed does not move the mark;
* when `rpc_start` takes its start from the mark, whatever the overlap, a `sync_to_tip` from there
  leaves every event stored of the ledgers it has come to. -/
theorem seed_mark_is_true {history : History} (hemit : ix.contracts.Emit history)
    (hrun : Reaches ix 0 (.fresh history) w) :
    (∀ mark, w.store.checkpoint .seed = some mark → ∀ e ∈ w.history.events,
      e.position.ledger ≤ mark.latestLedger → e ∈ w.store.stored) ∧
    (∀ w', Unfinished ix 0 w w' → w'.store.checkpoint .seed = w.store.checkpoint .seed) ∧
    ∀ range overlap l, w.phase = .idle → rpcStart w.store range overlap = .ok (some l) →
      ix.follower.beginSync (some l) w.store = .ok (.ledger l, {}) ∧
      ∀ w', Reaches ix range.oldestLedger { w with phase := .requesting (.ledger l) {} } w' →
        ∀ e ∈ w'.history.events, e.position.ledger ≤ Verify.indexedLedger w'.store →
          e ∈ w'.store.stored := by
  have h : Inv ix 0 w := (inv_fresh hemit).run hrun
  refine ⟨fun mark hmark => (h.consistent.claims .seed mark hmark).2,
    fun w' hrest => h.seed_mark_unfinished hrest, fun range overlap l hidle hstart => ?_⟩
  obtain ⟨hrpc, mark, hmark, hretained⟩ := rpcStart_some hstart
  have hbegan : ix.follower.beginSync (some l) w.store = .ok (.ledger l, {}) :=
    Follower.beginSync_of_none hrpc l
  refine ⟨hbegan, fun w' hfollow e he hledger => ?_⟩
  have hinv : Inv ix range.oldestLedger w := h.raise hidle hmark hretained
  exact ((hinv.begin hstart hbegan).run hfollow).consistent.indexed he hledger

open Following (twoNullifiers)

/-- A seed up to ledger 8 is killed after its first page.  The next one, up to ledger 12, resumes
after the stored cursor and reads the second nullifier; RPC is then asked from the margin on. -/
theorem seed_mark_is_true_nullifier : ∃ w0 w mark,
    Reaches smallIndexer 0 (.fresh twoNullifiers) w0 ∧ w0.phase = .idle ∧
      w0.store.stored.length = 1 ∧ w0.store.checkpoint .seed = none ∧
      Reaches smallIndexer 0 w0 w ∧
      w.store.checkpoint .seed = some mark ∧ mark.latestLedger = 12 ∧ w.store.stored.length = 2 ∧
      (∀ e ∈ w.history.events, e.position.ledger ≤ 12 → e ∈ w.store.stored) ∧
      rpcStart w.store ⟨20, 4, by decide, by decide⟩ 2 = .ok (some 10) ∧
      smallIndexer.follower.beginSync (some 10) w.store = .ok (.ledger 10, {}) := by
  have hpages : okAnd (seedPage smallIndexer.contracts 1 8 (.contract 1) none
      (archivePage twoNullifiers.events (.contract 1) none 1) { completeTo := 8 } .empty)
      (fun r => r.2.2.stored.length = 1 ∧ r.2.2.checkpoint .seed = none ∧
        r.2.2.checkpoint .rpc = none ∧
        (readNullifiers r.2.2).any (fun r => okAnd (finishSeed 12 r.2) fun s =>
          s.stored.length = 2) = true) = true := by decide +kernel
  obtain ⟨⟨next, report1, s1⟩, hpage, hres⟩ := okAnd_eq_true.mp hpages
  obtain ⟨hone, hseed, hrpc, hreads⟩ := of_decide_eq_true hres
  obtain ⟨report, s2, s3, hresumed, hfinish, htwo⟩ :=
    reseeds_readNullifiers (show 8 ≤ 12 by decide) hreads
  have hopened : Reseeds smallIndexer (.fresh twoNullifiers) ⟨twoNullifiers, 8, .empty,
      .asking 8 (.contract 1) [.contract 2] none { completeTo := 8 }⟩ :=
    (Relation.ReflTransGen.single (.seed (@SeedStep.latestLedger _ _ 8 rfl))).tail
      (.seed (.contract rfl))
  have hread := hopened.trans (reseeds_page (List.prefix_refl _) (fun _ he _ => he) hpage)
  have hkilled : Reaches smallIndexer 0 (.fresh twoNullifiers) ⟨twoNullifiers, 8, s1, .idle⟩ :=
    (Reseeds.reaches hread).tail .kill
  have hinv := (inv_fresh emit_smallIndexer).run hkilled
  have hw := finishSeed_ok (hinv.run hresumed.reaches).consistent.sound hfinish
  have hmark : s3.checkpoint .seed = some ⟨endOfLedger 12, 12⟩ := hw.checkpoint_self
  have hstart : rpcStart s3 ⟨20, 4, by decide, by decide⟩ 2 = .ok (some 10) := by
    have hnone := ((hw.checkpoint_of_ne (by simp)).trans (hinv.reseeds_rpc hresumed)).trans hrpc
    rw [rpcStart_of_seed hnone hmark]
    rfl
  have hfinished : Reaches smallIndexer 0 ⟨twoNullifiers, 8, s1, .idle⟩
      ⟨twoNullifiers, 12, s3, .idle⟩ := hresumed.reaches.tail (.seed (.finish rfl hfinish))
  obtain ⟨hstored, -, hfollows⟩ := seed_mark_is_true emit_smallIndexer (hkilled.trans hfinished)
  exact ⟨_, _, _, hkilled, rfl, hone, hseed, hfinished, hmark, rfl, htwo, hstored _ hmark, hstart,
    (hfollows _ _ _ rfl hstart).1⟩

end Indexing

end Veil
