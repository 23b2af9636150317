/-
# What the demo builds from the API's answers

`pay` and `shield` read the pool only through the API, request by request.  The listing, the paths
and the allowlist may each be answered from a different state of the index, and the index may lag
behind the pool by any number of transactions.

Whatever the moments, a transaction that passes the client's own checks satisfies the circuit:

* a served path leads from its leaf to its root, by the way it is computed (`Leads`);
* the leaf of a path is the commitment of the listed note, because the index never shows another
  commitment at an index than the pool's (`Genuine`);
* the checks of the client are those that are left: the number of levels, one root for all paths.

Nothing is assumed of `verified_state`, so a wrong depth is covered too.
-/
import Veil.Demo.Pay
import Veil.Demo.Receipt

namespace Veil

open Tx

/-! ## 1. Databases that show the pool's leaves -/

namespace Api

/-- **The database shows no other leaves**: a commitment it holds of the pool is the output of a
`transact`, at its index. -/
def Genuine (db : Database) (pool : Address) (leaves : List Nat) : Prop :=
  ∀ row ∈ db.index.tables.commitments, row.pool = pool →
    row.origin = .transact ∧ leaves[row.leafIndex]? = some row.commitment

variable {db : Database} {pool : Address} {leaves : List Nat}

/-- A listed note is a leaf. -/
theorem Genuine.note (h : Genuine db pool leaves) {page : IndexPage} {served : NotePage}
    (hserved : Routes.notes db pool page = .ok served) {item : Note} (hitem : item ∈ served.items) :
    ∃ v, leaves[item.leafIndex]? = some v ∧ item.commitment = Verify.displayU256 v := by
  obtain ⟨limit, -, hserved⟩ := bind_eq_ok.mp hserved
  obtain rfl := Except.ok.inj hserved
  obtain ⟨_, hlisted, rfl⟩ := List.mem_map.mp hitem
  obtain ⟨row, hrow, rfl⟩ := List.mem_map.mp (List.mem_of_mem_take hlisted)
  have hselected := List.mem_filter.mp ((List.mem_insertionSort _).mp (List.mem_of_mem_take hrow))
  obtain ⟨-, hleaf⟩ := h row hselected.1 (of_decide_eq_true hselected.2).1
  exact ⟨row.commitment, hleaf, rfl⟩

/-- A served path starts at a leaf. -/
theorem Genuine.path (h : Genuine db pool leaves) {i : Nat} {path : MerklePath}
    (hpath : poolPath db pool i = .ok path) :
    ∃ L proof, path = merklePath proof (indexedLedger db) ∧ proof.Leads L ∧ proof.index = i ∧
      leaves[i]? = some proof.leaf.val := by
  obtain ⟨L, proof, rfl, hleads, hindex, row, hrow, hpool, leaf, hleaf, hi, hvalue⟩ :=
    poolPath_ok hpath
  obtain ⟨horigin, hat⟩ := h row hrow hpool
  rw [rowLeaves, horigin, if_neg (by decide), List.mem_singleton] at hleaf
  subst hleaf
  refine ⟨L, proof, rfl, hleads, hindex, ?_⟩
  rw [← hi, ← hvalue]
  exact hat

end Api

namespace Network

open Indexing

variable {ρ : Type} {ix : Indexer} {L M : Nat} {n : Network ρ} {past calls : List (Sent ρ)}
  {w : World}

/-- The leaves of the past are the first leaves of now. -/
theorem Fresh.leaves_past (h : Fresh L M n) {c : Contracts} (hosted : ∀ x ∈ calls, x.call.Hosted c)
    (hpast : past <+: calls) : (run exec past n).leaves <+: (run exec calls n).leaves := by
  obtain ⟨more, rfl⟩ := hpast
  obtain ⟨new, hnew, -⟩ := run_log more (run exec past n)
  rw [← run_append] at hnew
  have hthen := h.announces_run fun x hx => hosted x (List.mem_append_left _ hx)
  have hnow := h.announces_run hosted
  have hevents : (run exec past n).pool.events <+: (run exec (past ++ more) n).pool.events := by
    rw [← hthen.pool, ← hnow.pool, hnew, List.filterMap_append]
    exact List.prefix_append _ _
  exact (hevents.filterMap _).map _

/-- **An index of the past shows no other leaves than the pool's.** -/
theorem Mirrored.genuine (h : Mirrored ix L M n past w) (hpast : past <+: calls)
    (hosted : ∀ x ∈ calls, x.call.Hosted ix.contracts)
    (verified : Address → Option VerifiedState) :
    Api.Genuine ⟨w.store, verified⟩ ix.contracts.pool (run exec calls n).leaves := by
  obtain ⟨log, hshows⟩ := h.shows
  obtain ⟨events, hplaces, hsame, -⟩ := hshows.tables
  have hcolumns := Places.commitments hplaces hshows.fits_log
  intro row hrow _
  have hmem := List.mem_map_of_mem (f := fun r : CommitmentRow =>
    (r.pool, r.origin, r.leafIndex, r.commitment)) (hsame.commitments.subset hrow)
  rw [hcolumns] at hmem
  obtain ⟨⟨i, v⟩, hleaf, heq⟩ := List.mem_map.mp hmem
  simp only [Prod.mk.injEq] at heq
  obtain ⟨-, horigin, rfl, rfl⟩ := heq
  refine ⟨horigin.symm, ?_⟩
  -- the event was emitted, so the leaf stands where it says
  have hevent : (row.leafIndex, row.commitment) ∈
      (run exec past n).leaves.zipIdx.map Prod.swap := by
    rw [← h.announces.leaf_events, ← h.announces.pool]
    exact ((hshows.within.filterMap _).filterMap _).subset hleaf
  obtain ⟨⟨v, i⟩, hzip, heq⟩ := List.mem_map.mp hevent
  obtain ⟨rfl, rfl⟩ := Prod.mk.inj heq
  obtain ⟨more, hmore⟩ := h.fresh.leaves_past hosted hpast
  have hget := List.mem_zipIdx_iff_getElem?.mp hzip
  obtain ⟨hlt, -⟩ := List.getElem?_eq_some_iff.mp hget
  rw [← hmore, List.getElem?_append_left hlt]
  exact hget

end Network

/-! ## 2. What `pay` put together -/

namespace Demo

open NoteCrypto (Primitives)
open PolicyFixture (SpentNote Membership Transaction levels)

variable {crates : Primitives} {xdr : XdrCrates} {client : Client} {wallet : Wallet}

/-- All paths have the root of the first. -/
theorem root_of_oneRoot : ∀ {paths : List Path} {head : Path}, paths.head? = some head →
    oneRoot paths = true → ∀ path ∈ paths, path.root = head.root
  | [], _, h, _ => by cases h
  | first :: paths, head, h, hone => by
    obtain rfl := Option.some.inj h
    intro path hpath
    rcases List.mem_cons.mp hpath with rfl | hpath
    · rfl
    · cases paths with
      | nil => cases hpath
      | cons second paths =>
        rw [oneRoot, List.tail_cons, List.zip_cons_cons, List.all_cons, Bool.and_eq_true,
          decide_eq_true_eq] at hone
        rw [hone.1]
        exact root_of_oneRoot rfl hone.2 path hpath

/-- **The inputs of a payment**: each spends a chosen note, with its path against the root, or fills
a slot. -/
theorem mem_of_spendNotes {dummy : Nat → F} {chosen : List Owned} {root : F}
    {inputs : List SpentNote} (h : spendNotes client wallet dummy chosen = .ok (root, inputs)) :
    ∀ input ∈ inputs, (∃ note ∈ chosen, ∃ path, client.poolPath note.leafIndex = .ok path ∧
      scalar path.root = .ok root ∧ spentNote wallet note path = .ok input) ∨
      ∃ slot, input = dummyInput wallet (dummy slot) := by
  obtain ⟨paths, hpaths, h⟩ := bind_eq_ok.mp h
  obtain ⟨_, hone, h⟩ := bind_eq_ok.mp h
  obtain ⟨head, hhead, h⟩ := bind_eq_ok.mp h
  obtain ⟨r, hroot, h⟩ := bind_eq_ok.mp h
  obtain ⟨spent, hspent, h⟩ := bind_eq_ok.mp h
  obtain ⟨rfl, rfl⟩ := Prod.mk.inj (Except.ok.inj h)
  have hroots := root_of_oneRoot (okOr_eq_ok.mp hhead) (ensure_eq_ok.mp hone)
  intro input hinput
  rcases List.mem_append.mp hinput with hinput | hinput
  · obtain ⟨⟨note, path⟩, hpair, hmade⟩ := mem_of_mapM hspent hinput
    obtain ⟨hnote, hpath⟩ := List.of_mem_zip hpair
    refine .inl ⟨note, hnote, path, List.forall₂_zip (mapM_eq_ok.mp hpaths) hpair, ?_, hmade⟩
    rw [hroots path hpath]
    exact hroot
  · obtain ⟨slot, -, rfl⟩ := List.mem_map.mp hinput
    exact .inr ⟨slot, rfl⟩

/-- **What a payment is made of.** -/
structure Built (client : Client) (wallet : Wallet) (notes : List Owned) (tx : Transaction) :
    Prop where
  /-- Each input spends a note of the wallet or fills a slot. -/
  inputs : ∀ input, input = tx.inputs.1 ∨ input = tx.inputs.2 →
    (∃ note ∈ notes, ∃ path, client.poolPath note.leafIndex = .ok path ∧
      scalar path.root = .ok tx.root ∧ spentNote wallet note path = .ok input) ∨
    ∃ blinding, input = dummyInput wallet blinding
  member : ∃ m, membership client wallet = .ok m ∧ tx.memberships = (m, m)

theorem pay_built {draws : Draws} {recipient : String} {amount : Nat} {tx : Transaction}
    {ext : ExtData} (h : pay crates xdr draws client wallet recipient amount = .ok (tx, ext)) :
    (∃ notes, scan crates client wallet = .ok notes ∧ Built client wallet notes tx) ∧
      ∃ digest, ext.hash xdr = .ok digest ∧ tx.extDataHash = Bytes.toNatBE digest.toList := by
  obtain ⟨_, -, h⟩ := bind_eq_ok.mp h
  obtain ⟨_, -, h⟩ := bind_eq_ok.mp h
  obtain ⟨_, -, h⟩ := bind_eq_ok.mp h
  obtain ⟨_, -, h⟩ := bind_eq_ok.mp h
  obtain ⟨_, -, h⟩ := bind_eq_ok.mp h
  obtain ⟨notes, hnotes, h⟩ := bind_eq_ok.mp h
  obtain ⟨_, -, h⟩ := bind_eq_ok.mp h
  obtain ⟨_, -, h⟩ := bind_eq_ok.mp h
  obtain ⟨⟨root, inputs⟩, hspend, h⟩ := bind_eq_ok.mp h
  obtain ⟨m, hm, h⟩ := bind_eq_ok.mp h
  obtain ⟨⟨_, _⟩, -, h⟩ := bind_eq_ok.mp h
  obtain ⟨_, -, h⟩ := bind_eq_ok.mp h
  obtain ⟨⟨_, _⟩, -, h⟩ := bind_eq_ok.mp h
  obtain ⟨⟨first, second⟩, hpair, h⟩ := bind_eq_ok.mp h
  obtain ⟨digest, hdigest, h⟩ := bind_eq_ok.mp h
  obtain ⟨rfl, rfl⟩ := Prod.mk.inj (Except.ok.inj h)
  have hlist : inputs = [first, second] := by
    have hpair := okOr_eq_ok.mp hpair
    unfold pairOf at hpair
    split at hpair
    · obtain ⟨rfl, rfl⟩ := Prod.mk.inj (Option.some.inj hpair)
      rfl
    · cases hpair
  refine ⟨⟨notes, hnotes, ⟨fun input hinput => ?_, m, hm, rfl⟩⟩, digest, hdigest, rfl⟩
  have hmem : input ∈ inputs := by
    rw [hlist]
    exact List.mem_pair.mpr hinput
  rcases mem_of_spendNotes hspend input hmem with ⟨note, hnote, hrest⟩ | ⟨slot, rfl⟩
  · exact .inl ⟨note, (Selection.choose_subperm _ amount notes).subset hnote, hrest⟩
  · exact .inr ⟨_, rfl⟩

theorem shield_built {draws : ShieldDraws} {service : Service} {amount : Nat} {tx : Transaction}
    {ext : ExtData} (h : shield crates xdr draws service wallet amount = .ok (tx, ext)) :
    Built service.toClient wallet [] tx ∧
      ∃ digest, ext.hash xdr = .ok digest ∧ tx.extDataHash = Bytes.toNatBE digest.toList := by
  obtain ⟨_, -, h⟩ := bind_eq_ok.mp h
  obtain ⟨m, hm, h⟩ := bind_eq_ok.mp h
  obtain ⟨_, -, h⟩ := bind_eq_ok.mp h
  obtain ⟨⟨_, _⟩, -, h⟩ := bind_eq_ok.mp h
  obtain ⟨⟨_, _⟩, -, h⟩ := bind_eq_ok.mp h
  obtain ⟨_, -, h⟩ := bind_eq_ok.mp h
  obtain ⟨_, -, h⟩ := bind_eq_ok.mp h
  obtain ⟨digest, hdigest, h⟩ := bind_eq_ok.mp h
  obtain ⟨rfl, rfl⟩ := Prod.mk.inj (Except.ok.inj h)
  refine ⟨⟨?_, m, mapError_eq_ok.mp hm, rfl⟩, digest, mapError_eq_ok.mp hdigest, rfl⟩
  rintro input (rfl | rfl)
  · exact .inr ⟨_, rfl⟩
  · exact .inr ⟨_, rfl⟩

/-! ## 3. Why it is honest -/

/-- The hash of the external data is a field element. -/
theorem hash_lt {ext : ExtData} {digest : Bytes 32}
    (h : ext.hash xdr = .ok digest) : Bytes.toNatBE digest.toList < bn256Modulus := by
  obtain ⟨_, -, h⟩ := bind_eq_ok.mp h
  obtain ⟨bytes, -, h⟩ := bind_eq_ok.mp h
  obtain rfl := Except.ok.inj h
  set reduced := Bytes.toNatBE (xdr.keccak256 bytes).toList ^ 1 % Digits.decimal modulus
    with hreduced
  have hlt : reduced < bn256Modulus := by
    rw [hreduced, decimal_modulus]
    exact Nat.mod_lt _ (by decide)
  show Bytes.toNatBE (rightAligned (Bytes.bytesBE reduced)) < bn256Modulus
  rw [rightAligned_eq (hlt.trans (by decide)), Bytes.toNatBE_digitsBE]
  exact (Nat.mod_le _ _).trans_lt hlt

section Backed

variable {strkey : Strkey} {base : String} {c : Contracts} {backend : Backend} {requests : Nat}
  {leaves : List Nat}

/-- Every request about the pool's tree meets a database that shows no other leaves. -/
structure Backend.Genuine (backend : Backend) (pool : Address) (leaves : List Nat) : Prop where
  notes : ∀ request db, backend.notes request = some db → Api.Genuine db pool leaves
  poolPath : ∀ leafIndex db, backend.poolPath leafIndex = some db → Api.Genuine db pool leaves

/-- **The membership leads from the wallet's key.** -/
theorem membership_leads {m : Membership}
    (h : membership (Service.over strkey base c backend requests).toClient wallet = .ok m) :
    m.pathIndices < 2 ^ m.pathElements.length ∧
      Merkle.foldPath compress m.pathElements m.pathIndices
        (PolicyFixture.membershipLeaf wallet.notePublicKey) = m.root := by
  set leaf := PolicyFixture.membershipLeaf wallet.notePublicKey with hleaf
  obtain ⟨found, hfound, h⟩ := bind_eq_ok.mp h
  obtain ⟨path, hpath, h⟩ := bind_eq_ok.mp h
  obtain ⟨elements, helements, h⟩ := bind_eq_ok.mp h
  obtain ⟨root, hroot, h⟩ := bind_eq_ok.mp h
  obtain rfl := Except.ok.inj h
  rw [okOr_eq_ok.mp hpath] at hfound
  obtain ⟨db, served, -, hserved, rfl⟩ := allowlistPath_eq_some.mp hfound
  have hparse : Api.parseU256 (scalarHex leaf) "leaf" = .ok leaf.val := by
    rw [scalarHex_eq]
    exact Api.parseU256_displayU256 (Network.lt_two_pow_of_lt (ZMod.val_lt leaf)) "leaf"
  obtain ⟨L, proof, rfl, hleads, hstart⟩ := Api.allowlistPath_ok hserved hparse
  rw [pathScalars_ofApi] at helements
  rw [scalar_root_ofApi] at hroot
  obtain rfl := Except.ok.inj helements
  obtain rfl := Except.ok.inj hroot
  have hstart : proof.leaf = leaf := ZMod.val_injective _ hstart
  refine ⟨?_, ?_⟩
  · show proof.index < 2 ^ proof.siblings.length
    rw [hleads.siblings]
    exact hleads.index
  · rw [← hstart]
    exact hleads.folds

/-- **The path of a note leads from its commitment**, though the two may have been read at different
times. -/
theorem spentNote_leads (hgenuine : backend.Genuine c.pool leaves) {listed : List Note}
    (hlisted : notes base c backend requests 0 = .ok listed) {note : Note} (hnote : note ∈ listed)
    {o : Owned} (hfound : Found crates (Service.over strkey base c backend requests).toClient
      wallet note o) {path : Path}
    (hpath : (Service.over strkey base c backend requests).poolPath o.leafIndex = .ok path)
    {root : F} (hroot : scalar path.root = .ok root) {input : SpentNote}
    (hinput : spentNote wallet o path = .ok input) :
    input.leafIndex < 2 ^ input.pathElements.length ∧
      Merkle.foldPath compress input.pathElements input.leafIndex input.commitment = root ∧
      input.privateKey = wallet.notePrivateKey := by
  -- the listed commitment
  obtain ⟨request, db, page, item, cursor, hdb, hserved, hitem, rfl⟩ := mem_notes hlisted hnote
  obtain ⟨v, hv, hcommitment⟩ := (hgenuine.notes request db hdb).note hserved hitem
  -- the leaf of the path
  obtain ⟨db', served, hdb', hserved', rfl⟩ := poolPath_eq_ok.mp hpath
  obtain ⟨L, proof, rfl, hleads, hindex, hv'⟩ := (hgenuine.poolPath _ db' hdb').path hserved'
  have hsame : proof.leaf.val = v := by
    have hat : leaves[o.leafIndex]? = some v := by
      rw [hfound.leafIndex]
      exact hv
    exact Option.some.inj (hv'.symm.trans hat)
  have hleaf : proof.leaf =
      PolicyFixture.commitment o.amount wallet.notePublicKey o.blinding := by
    refine scalarHex_inj ?_
    rw [← hfound.commitment, scalarHex_eq, hsame]
    exact hcommitment.symm
  obtain ⟨elements, helements, hinput⟩ := bind_eq_ok.mp hinput
  rw [pathScalars_ofApi] at helements
  rw [scalar_root_ofApi] at hroot
  obtain rfl := Except.ok.inj helements
  obtain rfl := Except.ok.inj hroot
  obtain rfl := Except.ok.inj hinput
  refine ⟨?_, ?_, rfl⟩
  · rw [hleads.siblings, ← hindex]
    exact hleads.index
  · have hfolds := hleads.folds
    rw [hleaf, hindex] at hfolds
    exact hfolds

/-- **Every built transaction is honest**, if its paths have the levels of the circuit. -/
theorem Built.honest {notes : List Owned} {tx : Transaction}
    (hgenuine : backend.Genuine c.pool leaves)
    (h : Built (Service.over strkey base c backend requests).toClient wallet notes tx)
    (hnotes : notes = [] ∨ scan crates (Service.over strkey base c backend requests).toClient
      wallet = .ok notes)
    (hhash : tx.extDataHash < bn256Modulus) (haccepted : PolicyFixture.Accepted tx) :
    PolicyFixture.Honest tx := by
  obtain ⟨m, hm, hmembers⟩ := h.member
  obtain ⟨hindices, henrolled⟩ := membership_leads hm
  have hlevels : m.pathElements.length = levels := by
    have := haccepted.member1
    rwa [hmembers] at this
  rw [hlevels] at hindices
  have hspendable : ∀ input, input = tx.inputs.1 ∨ input = tx.inputs.2 →
      input.pathElements.length = levels → PolicyFixture.Spendable tx.root input m := by
    intro input hinput hlength
    rcases h.inputs input hinput with ⟨o, ho, path, hpath, hroot, hmade⟩ | ⟨blinding, rfl⟩
    · rcases hnotes with rfl | hscan
      · cases ho
      obtain ⟨listed, hlisted, -⟩ := bind_eq_ok.mp hscan
      obtain ⟨note, hnote, hfound⟩ := (mem_of_scan hscan hlisted).mp ho
      obtain ⟨hindex, hleads, hkey⟩ :=
        spentNote_leads hgenuine hlisted hnote hfound hpath hroot hmade
      rw [hlength] at hindex
      refine ⟨hindex, fun _ => hleads, hindices, ?_⟩
      rw [SpentNote.publicKey, hkey]
      exact henrolled
    · refine ⟨Nat.two_pow_pos _, fun hamount => absurd rfl hamount, hindices, ?_⟩
      exact henrolled
  have hfirst := hspendable _ (.inl rfl) haccepted.path1
  have hsecond := hspendable _ (.inr rfl) haccepted.path2
  refine ⟨hhash, by rw [hmembers], ?_, ?_⟩
  · rw [hmembers]
    exact hfirst
  · rw [hmembers]
    exact hsecond

end Backed

/-! ## 4. What is submitted -/

/-- The database is the index of some beginning of the run, with any `verified_state`. -/
def Snapshot {ρ : Type} (ix : Indexer) (L M : Nat) (n : Network ρ)
    (calls : List (Network.Sent ρ)) (db : Database) : Prop :=
  ∃ past w, past <+: calls ∧ Network.Mirrored ix L M n past w ∧ db.index = w.store

theorem Snapshot.genuine {ρ : Type} {ix : Indexer} {L M : Nat} {n : Network ρ}
    {calls : List (Network.Sent ρ)} {db : Database} (h : Snapshot ix L M n calls db)
    (hosted : ∀ x ∈ calls, x.call.Hosted ix.contracts) :
    Api.Genuine db ix.contracts.pool (run Network.exec calls n).leaves := by
  obtain ⟨past, w, hpast, hmirrored, hindex⟩ := h
  have hgenuine := hmirrored.genuine hpast hosted db.verifiedState
  rwa [← hindex] at hgenuine

open PolicyFixture in
/-- **What the demo submits, the circuit accepts.**  Each request of a payment or a deposit is
answered from an index of some beginning of the run, of any age and with any depth on record.  If
the client's own checks then pass, the transaction is honest, and the nine values the pool gives the
verifier satisfy the circuit. -/
theorem built_from_api_satisfies {ρ : Type} {ix : Indexer} {L M : Nat} {n : Network ρ}
    {calls : List (Network.Sent ρ)} (hosted : ∀ x ∈ calls, x.call.Hosted ix.contracts)
    {backend : Backend}
    (hnotes : ∀ request db, backend.notes request = some db → Snapshot ix L M n calls db)
    (hpaths : ∀ leafIndex db, backend.poolPath leafIndex = some db → Snapshot ix L M n calls db)
    {strkey : Strkey} {base : String} {requests : Nat} {crates : Primitives} {xdr : XdrCrates}
    {wallet : Wallet} {tx : Transaction} {ext : ExtData}
    (hbuilt :
      let service := Service.over strkey base ix.contracts backend requests
      (∃ draws recipient amount, pay crates xdr draws service.toClient wallet recipient amount =
        .ok (tx, ext)) ∨
      ∃ draws amount, shield crates xdr draws service wallet amount = .ok (tx, ext))
    {inputs : PolicyInputs} (hchecked : transactionInputs tx = .ok inputs) :
    Honest tx ∧ ∀ lib proof, ∃ w, Circuit.Satisfies lib levels (Pool.verifierPublicInputs
      (proofJson proof (CircuitInputs.ofRecords inputs.values).pub.toVector)) w := by
  obtain ⟨haccepted, hvalues⟩ := transactionInputs_ok hchecked
  have hgenuine : backend.Genuine ix.contracts.pool (run Network.exec calls n).leaves :=
    ⟨fun request db hdb => (hnotes request db hdb).genuine hosted,
      fun leafIndex db hdb => (hpaths leafIndex db hdb).genuine hosted⟩
  have honest : Honest tx := by
    rcases hbuilt with ⟨draws, recipient, amount, hpay⟩ | ⟨draws, amount, hshield⟩
    · obtain ⟨⟨notes, hscan, hmade⟩, digest, hdigest, hhash⟩ := pay_built hpay
      exact hmade.honest hgenuine (.inr hscan) (hhash ▸ hash_lt hdigest) haccepted
    · obtain ⟨hmade, digest, hdigest, hhash⟩ := shield_built hshield
      have hnone : ([] : List Owned) = [] ∨ scan crates
          (Service.over strkey base ix.contracts backend requests).toClient wallet = .ok [] :=
        .inl rfl
      exact hmade.honest hgenuine hnone (hhash ▸ hash_lt hdigest) haccepted
  refine ⟨honest, fun lib proof => ⟨(meant tx).witness, (meant tx).pub, ?_,
    policyTransaction_meant haccepted honest⟩⟩
  rw [hvalues, ofRecords_records haccepted.path1 haccepted.path2,
    verifierPublicInputs_proofJson honest]

/-! ### A deposit of forty, and fifty out of forty and twenty-five -/

def depositDraws : ShieldDraws where
  note := draw40
  zero := draw25
  dummy slot := (slot : F)

/-- Addresses of one kind only, and one digest. -/
def constantCrates : XdrCrates where
  scAddressFromStr _ := some (.account 7)
  toXdr _ := some []
  keccak256 _ := Bytes.ofNatBE 32 3

/-- An index that has seen nothing. -/
theorem mirrored_nothing {ρ : Type} (ix : Indexer) {L M : Nat} {n : Network ρ}
    (h : Network.Fresh L M n) :
    Network.Mirrored ix L M n [] (.fresh ⟨[], .nil, fun _ he => nomatch he⟩) where
  fresh := h
  hosted x hx := nomatch hx
  ordered := .nil
  reaches := ⟨_, .refl⟩
  places := by
    rw [run_nil, h.log]
    exact .nil

/-- The API has seen none of the calls, but for the allowlist. -/
def staleBackend : Backend where
  notes _ := some ⟨.empty, fun _ => some Following.depthOne⟩
  nullifier _ := some ⟨.empty, fun _ => some Following.depthOne⟩
  poolPath _ := some ⟨.empty, fun _ => some Following.depthOne⟩
  allowlistPath _ := some enrolledDb
  publicKey _ := none
  pool := some ⟨.empty, fun _ => some Following.depthOne⟩

def staleService : Service :=
  .over Network.unaryStrkey "" Network.operatorContracts staleBackend 3

/-- A deposit of 40 gets to the prover. -/
theorem shield_forty : ∃ tx ext, shield sampleCrates constantCrates depositDraws staleService
    sampleWallet 40 = .ok (tx, ext) ∧
    ∃ inputs, PolicyFixture.transactionInputs tx = .ok inputs := by
  obtain ⟨m, hm, hlength⟩ : ∃ m, membership staleService.toClient sampleWallet = .ok m ∧
      m.pathElements.length = levels := enrolled_membership fun _ => rfl
  have hstate : okAnd (Api.poolState ⟨.empty, fun _ => some Following.depthOne⟩ (.contract 1))
      (fun state => state.root = scalarHex ((getZeroes.getD 1 0 : Nat) : F)) = true := by
    decide +kernel
  obtain ⟨state, hstate, hroot⟩ := okAnd_eq_true.mp hstate
  have hpool : staleService.pool = .ok (.ofApi state) :=
    bind_eq_ok.mpr ⟨state, need_eq_ok.mpr (congrArg some hstate), rfl⟩
  have hscalar : scalar (Pool.ofApi state).root = .ok ((getZeroes.getD 1 0 : Nat) : F) := by
    show scalar state.root = _
    rw [of_decide_eq_true hroot, scalar_scalarHex]
  have hsealed : okAnd (newNote sampleCrates depositDraws.note sampleWallet.notePublicKey
      (sampleWallet.encryptionKey sampleCrates) 40) (fun note =>
      okAnd (newNote sampleCrates depositDraws.zero sampleWallet.notePublicKey
        (sampleWallet.encryptionKey sampleCrates) 0) (fun zero =>
        (note.1.amount = 40 ∧ zero.1.amount = 0) ∧
        okAnd (ExtData.hash constantCrates ⟨sampleWallet.address, (40 : Nat), note.2, zero.2⟩)
          (fun _ => true))) = true := by
    decide +kernel
  obtain ⟨⟨note, encrypted⟩, hnote, hsealed⟩ := okAnd_eq_true.mp hsealed
  obtain ⟨⟨zero, encryptedZero⟩, hzero, hsealed⟩ := okAnd_eq_true.mp hsealed
  obtain ⟨⟨hforty, hnothing⟩, hhash⟩ := of_decide_eq_true hsealed
  obtain ⟨digest, hhash, -⟩ := okAnd_eq_true.mp hhash
  have hnullifiers : (dummyInput sampleWallet (depositDraws.dummy 0)).nullifier ≠
      (dummyInput sampleWallet (depositDraws.dummy 1)).nullifier := by
    decide +kernel
  refine ⟨_, _, shield_ok (by decide) (by decide) hm hpool hnote hzero hscalar hhash, ?_⟩
  refine PolicyFixture.Accepted.transactionInputs ⟨Nat.two_pow_pos 128, ?_, ?_,
    List.length_replicate .., List.length_replicate .., hnullifiers, hlength, hlength⟩
  · rw [hforty, hnothing]
    decide
  · rw [hforty, hnothing]
    rfl

/-- What is on record of a pool with the two notes, whatever the root. -/
def twoNotes : VerifiedState := ⟨6, levels, 2, 0, false, true⟩

/-- An index that has come to the end of ledger 6, where both of Bob's notes are. -/
theorem mirrored_forty : ∃ n w,
    Network.Mirrored ⟨Network.operatorContracts, 2, 7⟩ levels levels n fortyCalls w ∧
      showsBoth ⟨w.store, fun _ => some twoNotes⟩ = true := by
  obtain ⟨n, hfresh, hn, -⟩ := deployedDeep_of_any (p := fun _ => true) (by decide +kernel)
  have hpage : Network.seedThenPage 7 fortyPage
      (fun s => showsBoth ⟨s, fun _ => some twoNotes⟩) = true := by
    decide +kernel
  obtain ⟨w, hrun, hhistory, hshows⟩ :=
    Network.reaches_seedThenPage late_fortyLog honest_fortyPage hpage
  have hlog : (run Network.exec fortyCalls n).log = fortyLog := by
    rw [fortyLog, hn]
    rfl
  refine ⟨n, w, ⟨hfresh, hosted_fortyCalls, by decide, ⟨_, hrun⟩, ?_⟩, hshows⟩
  rw [hlog, hhistory]
  exact Network.places_placed 0 fun x hx => (placeable_fortyLog.ledgers x hx).2

/-- A payment of 50 gets to the prover, and spends both. -/
theorem pay_fifty {db : Database} (h : showsBoth db = true) : ∃ tx ext,
    pay sampleCrates payCrates sampleDraws (payService db).toClient sampleWallet "GAAAAAAA" 50 =
      .ok (tx, ext) ∧ (tx.inputs.1.amount ≠ 0 ∧ tx.inputs.2.amount ≠ 0) ∧
    ∃ inputs, PolicyFixture.transactionInputs tx = .ok inputs := by
  have hready := ready_of_showsBoth h
  have hcovers : 50 ≤ ((chooseNotes 50 [owned40, owned25]).map (·.amount)).sum :=
    (covers_iff (by decide)).mpr (.inr ⟨owned40, owned25, .refl _, by decide⟩)
  obtain ⟨x, y, hsub, s, t, tx, ext, hpay, hs, ht, hpays⟩ :=
    hready.pays_two sampleCrates_lawful (by decide) (by decide) hcovers
  have hpositive : ∀ note ∈ [owned40, owned25], note.amount ≠ 0 := by decide
  refine ⟨tx, ext, hpay, ?_, hpays.accepted hs.path ht.path (hready.nullifier_ne hsub hs ht)⟩
  rw [hpays.inputs]
  dsimp only
  rw [hs.amount, ht.amount]
  exact ⟨hpositive x (hsub.subset List.mem_cons_self),
    hpositive y (hsub.subset (List.mem_cons_of_mem _ List.mem_cons_self))⟩

/-- The nine values of each satisfy the circuit: of a deposit before the index has seen anything,
and of a payment out of two notes of the run. -/
theorem built_from_api_satisfies_fifty :
    (∃ tx ext, shield sampleCrates constantCrates depositDraws staleService sampleWallet 40 =
      .ok (tx, ext) ∧ PolicyFixture.Honest tx) ∧
    ∃ (n : Network Unit) (w : Indexing.World) (tx : Transaction) (ext : ExtData),
      Network.Mirrored ⟨Network.operatorContracts, 2, 7⟩ levels levels n fortyCalls w ∧
      pay sampleCrates payCrates sampleDraws
        (payService ⟨w.store, fun _ => some twoNotes⟩).toClient sampleWallet "GAAAAAAA" 50 =
          .ok (tx, ext) ∧
      (tx.inputs.1.amount ≠ 0 ∧ tx.inputs.2.amount ≠ 0) ∧ PolicyFixture.Honest tx := by
  obtain ⟨n, w, hmirrored, hshows⟩ := mirrored_forty
  constructor
  · obtain ⟨tx, ext, hshield, inputs, hchecked⟩ := shield_forty
    have hstale : ∀ verified, Snapshot ⟨Network.operatorContracts, 2, 7⟩ levels levels n fortyCalls
        ⟨.empty, verified⟩ := fun _ =>
      ⟨[], _, List.nil_prefix, mirrored_nothing _ hmirrored.fresh, rfl⟩
    have hall := @built_from_api_satisfies Unit ⟨Network.operatorContracts, 2, 7⟩ levels levels n
      fortyCalls hosted_fortyCalls staleBackend
      (fun request db hdb => Option.some.inj hdb ▸ hstale _)
      (fun leafIndex db hdb => Option.some.inj hdb ▸ hstale _) Network.unaryStrkey "" 3 sampleCrates
      constantCrates sampleWallet tx ext (.inr ⟨depositDraws, 40, hshield⟩) inputs hchecked
    exact ⟨tx, ext, hshield, hall.1⟩
  · obtain ⟨tx, ext, hpay, hboth, inputs, hchecked⟩ := pay_fifty hshows
    have hsnapshot : Snapshot ⟨Network.operatorContracts, 2, 7⟩ levels levels n fortyCalls
        ⟨w.store, fun _ => some twoNotes⟩ := ⟨_, w, List.prefix_rfl, hmirrored, rfl⟩
    have hall := @built_from_api_satisfies Unit ⟨Network.operatorContracts, 2, 7⟩ levels levels n
      fortyCalls hosted_fortyCalls (.same ⟨w.store, fun _ => some twoNotes⟩ (some enrolledDb))
      (fun request db hdb => Option.some.inj hdb ▸ hsnapshot)
      (fun leafIndex db hdb => Option.some.inj hdb ▸ hsnapshot) Network.unaryStrkey "" 3
      sampleCrates payCrates sampleWallet tx ext (.inl ⟨sampleDraws, _, 50, hpay⟩) inputs hchecked
    exact ⟨n, w, tx, ext, hmirrored, hpay, hboth, hall.1⟩

end Demo

end Veil
