/-
# Receiving a payment

`tools/demo/src/flows.rs`: `new_note`, by which a sender makes a note for a recipient, and `scan`,
by which the recipient finds it among the notes the API lists.

Between the two stand the encryption, the layouts of the amount and the blinding, the text of the
commitment and the formulas of the commitment and the nullifier.  The circuit has formulas of its
own for the last two.

* `openNote_eq_some` says exactly which notes a scan keeps, and as what.
* `Delivers` is what a scan needs of the API, and the client over the API's own handlers has it
  (`delivers_of_serves`).
* `payment_reaches_recipient` puts the sender, the API and the recipient together.
-/
import Veil.Core.Assoc
import Veil.Demo.Requests

namespace Veil

open Tx

namespace Demo

open NoteCrypto (Primitives)
open PolicyFixture (CreatedNote)

/-! ## 1. `new_note` and `scan` -/

/-- What the random source hands out for one note. -/
structure Draw where
  blinding : F
  ephemeral : Bytes 32

/-- A new note for `publicKey`, and its encryption to `encryptionKey`. -/
def newNote (crates : Primitives) (draw : Draw) (publicKey : F) (encryptionKey : Bytes 32)
    (amount : Nat) : Except DemoError (CreatedNote × List UInt8) := do
  let encrypted ← (NoteCrypto.encrypt crates encryptionKey draw.ephemeral
    { amount := amountBytes amount
      blinding := scalarToBeBytes draw.blinding }).mapError .note
  .ok (⟨publicKey, draw.blinding, amount⟩, encrypted)

/-- A note this wallet can spend. -/
structure Owned where
  leafIndex : Nat
  amount : Nat
  blinding : F
  nullifier : String
  deriving DecidableEq

/-- One round of the scan: the note, if it is the wallet's and unspent. -/
def openNote (crates : Primitives) (client : Client) (wallet : Wallet) (note : Note) :
    Except DemoError (Option Owned) := do
  let publicKey := wallet.notePublicKey
  let bytes ← bytesOfHex note.encryptedOutput
  match NoteCrypto.decrypt crates wallet.encryptionSecret bytes with
  | none => .ok none
  | some opened =>
    -- the amount must fit the 248 bits the circuit allows, and `u128` here
    if (opened.amount.toList.take 16).any (· ≠ 0) then .ok none
    else
      let amount := Bytes.toNatBE (opened.amount.toList.drop 16)
      let blinding := scalarFromBeBytes opened.blinding
      let commitment := PolicyFixture.commitment amount publicKey blinding
      -- a note that does not open its commitment cannot be spent
      if scalarHex commitment ≠ note.commitment then .ok none
      else
        let nullifier :=
          scalarHex (PolicyFixture.noteNullifier wallet.notePrivateKey commitment note.leafIndex)
        -- the API is not asked about a note worth nothing
        if amount = 0 then .ok none
        else do
          let spent ← client.isSpent nullifier
          if spent then .ok none
          else .ok (some ⟨note.leafIndex, amount, blinding, nullifier⟩)

def scanNotes (crates : Primitives) (client : Client) (wallet : Wallet) :
    List Note → (owned : List Owned) → Except DemoError (List Owned)
  | [], owned => .ok owned
  | note :: notes, owned => do
    let found ← openNote crates client wallet note
    scanNotes crates client wallet notes (owned ++ found.toList)

/-- Finds the wallet's unspent notes by trying to open every note the API lists. -/
def scan (crates : Primitives) (client : Client) (wallet : Wallet) :
    Except DemoError (List Owned) := do
  let notes ← client.notes 0
  scanNotes crates client wallet notes []

/-! ## 2. Which notes are kept -/

/-- **The note `o` behind the listed `note`.** -/
structure Found (crates : Primitives) (client : Client) (wallet : Wallet) (note : Note)
    (o : Owned) : Prop where
  leafIndex : o.leafIndex = note.leafIndex
  opens : ∃ bytes blinding, bytesOfHex note.encryptedOutput = .ok bytes ∧
    NoteCrypto.decrypt crates wallet.encryptionSecret bytes =
      some ⟨amountBytes o.amount, blinding⟩ ∧ scalarFromBeBytes blinding = o.blinding
  commitment : note.commitment =
    scalarHex (PolicyFixture.commitment o.amount wallet.notePublicKey o.blinding)
  nullifier : o.nullifier = scalarHex (PolicyFixture.noteNullifier wallet.notePrivateKey
    (PolicyFixture.commitment o.amount wallet.notePublicKey o.blinding) o.leafIndex)
  positive : 0 < o.amount
  fits : o.amount < 2 ^ 128
  unspent : client.isSpent o.nullifier = .ok false

variable {crates : Primitives} {client : Client} {wallet : Wallet} {note : Note} {o : Owned}

theorem take_amountBytes (amount : Nat) :
    (amountBytes amount).toList.take 16 = Bytes.digitsBE 16 0 :=
  List.take_left' rfl

theorem drop_amountBytes (amount : Nat) :
    (amountBytes amount).toList.drop 16 = Bytes.digitsBE 16 amount :=
  List.drop_left' rfl

theorem any_digitsBE_zero : (Bytes.digitsBE 16 0).any (fun byte => decide (byte ≠ 0)) = false := by
  decide

theorem toNatBE_drop_amountBytes {amount : Nat} (h : amount < 2 ^ 128) :
    Bytes.toNatBE ((amountBytes amount).toList.drop 16) = amount := by
  rw [drop_amountBytes, ← Bytes.toList_ofNatBE, Bytes.toNatBE_ofNatBE]
  exact h.trans_eq (by norm_num)

/-- Sixteen zero bytes and sixteen others are an amount. -/
theorem eq_amountBytes {bytes : Bytes 32}
    (h : (bytes.toList.take 16).any (fun byte => decide (byte ≠ 0)) = false) :
    bytes = amountBytes (Bytes.toNatBE (bytes.toList.drop 16)) := by
  have hzero : bytes.toList.take 16 = Bytes.digitsBE 16 0 := by
    have hlen : (bytes.toList.take 16).length = 16 := by
      rw [List.length_take, List.Vector.toList_length]
      rfl
    refine (List.eq_replicate_of_mem (a := 0) fun byte hbyte => ?_).trans ?_
    · simpa using List.any_eq_false.mp h byte hbyte
    · rw [hlen]
      rfl
  have hlow : Bytes.digitsBE 16 (Bytes.toNatBE (bytes.toList.drop 16)) = bytes.toList.drop 16 := by
    have hlen : (bytes.toList.drop 16).length = 16 := by
      rw [List.length_drop, List.Vector.toList_length]
    have := Bytes.digitsBE_toNatBE (bytes.toList.drop 16)
    rwa [hlen] at this
  refine List.Vector.eq _ _ ?_
  calc bytes.toList = bytes.toList.take 16 ++ bytes.toList.drop 16 :=
        (List.take_append_drop 16 _).symm
    _ = Bytes.digitsBE 16 0 ++
          Bytes.digitsBE 16 (Bytes.toNatBE (bytes.toList.drop 16)) := by rw [hzero, hlow]

/-- **A scan keeps these notes and no others.** -/
theorem openNote_eq_some :
    openNote crates client wallet note = .ok (some o) ↔ Found crates client wallet note o := by
  constructor
  · intro h
    obtain ⟨bytes, hbytes, h⟩ := bind_eq_ok.mp h
    cases hopen : NoteCrypto.decrypt crates wallet.encryptionSecret bytes with
    | none =>
      rw [hopen] at h
      cases h
    | some opened =>
      rw [hopen] at h
      dsimp only at h
      split at h
      · cases h
      · next hhigh =>
        split at h
        · cases h
        · next hcommitment =>
          split at h
          · cases h
          · next hpositive =>
            obtain ⟨spent, hspent, h⟩ := bind_eq_ok.mp h
            split at h
            · cases h
            · next hfalse =>
              obtain rfl := Option.some.inj (Except.ok.inj h)
              have hamount := eq_amountBytes (Bool.eq_false_iff.mpr hhigh)
              have hlow : (opened.amount.toList.drop 16).length = 16 := by
                rw [List.length_drop, List.Vector.toList_length]
              have hfits := Bytes.toNatBE_lt (⟨_, hlow⟩ : Bytes 16)
              refine ⟨rfl, ⟨bytes, opened.blinding, hbytes, ?_, rfl⟩, ?_, rfl,
                Nat.pos_of_ne_zero hpositive, hfits.trans_eq (by norm_num), ?_⟩
              · rw [hopen, ← hamount]
              · exact (not_not.mp hcommitment).symm
              · rw [hspent, Bool.eq_false_iff.mpr hfalse]
  · intro h
    obtain ⟨bytes, blinding, hbytes, hopen, hblinding⟩ := h.opens
    have hhigh : ¬((amountBytes o.amount).toList.take 16).any (fun byte => decide (byte ≠ 0)) =
        true := by
      rw [take_amountBytes, any_digitsBE_zero]
      exact Bool.false_ne_true
    have hunspent := h.unspent
    rw [h.nullifier, h.leafIndex] at hunspent
    rw [openNote]
    simp only [hbytes, ok_bind, hopen, toNatBE_drop_amountBytes h.fits, hblinding, h.commitment,
      if_neg hhigh, if_neg h.positive.ne', hunspent, ne_eq, not_true_eq_false, if_false]
    rw [← h.leafIndex, ← h.nullifier]
    rfl

/-- A listed note that is text of bytes is decided, once the API answers for nullifiers. -/
theorem openNote_total {bytes : List UInt8} (hbytes : bytesOfHex note.encryptedOutput = .ok bytes)
    (hspent : ∀ v : F, ∃ spent, client.isSpent (scalarHex v) = .ok spent) :
    ∃ found, openNote crates client wallet note = .ok found := by
  rw [openNote, hbytes, ok_bind]
  cases NoteCrypto.decrypt crates wallet.encryptionSecret bytes with
  | none => exact ⟨none, rfl⟩
  | some opened =>
    dsimp only
    split
    · exact ⟨none, rfl⟩
    · split
      · exact ⟨none, rfl⟩
      · split
        · exact ⟨none, rfl⟩
        · obtain ⟨spent, hanswer⟩ := hspent (PolicyFixture.noteNullifier wallet.notePrivateKey
            (PolicyFixture.commitment (Bytes.toNatBE (opened.amount.toList.drop 16))
              wallet.notePublicKey (scalarFromBeBytes opened.blinding)) note.leafIndex)
          rw [hanswer, ok_bind]
          split
          · exact ⟨none, rfl⟩
          · exact ⟨_, rfl⟩

/-- **The loop** adds the notes found to those it starts with. -/
theorem mem_of_scanNotes : ∀ {notes : List Note} {owned result : List Owned},
    scanNotes crates client wallet notes owned = .ok result →
      (o ∈ result ↔ o ∈ owned ∨ ∃ note ∈ notes, Found crates client wallet note o)
  | [], owned, result, h => by
    obtain rfl : owned = result := Except.ok.inj h
    simp
  | note :: notes, owned, result, h => by
    obtain ⟨found, hfound, hrest⟩ := bind_eq_ok.mp h
    have hhead : o ∈ found.toList ↔ Found crates client wallet note o := by
      rw [← openNote_eq_some, hfound, Option.mem_toList, Except.ok.injEq]
    rw [mem_of_scanNotes hrest, List.mem_append, hhead, or_assoc]
    simp only [List.mem_cons, exists_eq_or_imp]

theorem scanNotes_ok : ∀ {notes : List Note} {owned : List Owned},
    (∀ note ∈ notes, ∃ found, openNote crates client wallet note = .ok found) →
      ∃ result, scanNotes crates client wallet notes owned = .ok result
  | [], owned, _ => ⟨owned, rfl⟩
  | note :: notes, owned, h => by
    obtain ⟨found, hfound⟩ := h note List.mem_cons_self
    have hrest : ∀ note ∈ notes, ∃ found, openNote crates client wallet note = .ok found :=
      fun note hnote => h note (List.mem_cons_of_mem _ hnote)
    obtain ⟨result, hresult⟩ : ∃ result,
        scanNotes crates client wallet notes (owned ++ found.toList) = .ok result :=
      scanNotes_ok hrest
    exact ⟨result, bind_eq_ok.mpr ⟨found, hfound, hresult⟩⟩

/-! ## 3. From the sender to the recipient -/

/-- **The API delivers `rows`**: every output of the pool, with its leaf index, its commitment, its
encryption and its ledger; and it answers whether a nullifier is spent, asked in the text of a
field element. -/
structure Delivers (client : Client) (rows : List (Nat × Nat × List UInt8 × Nat)) : Prop where
  notes : client.notes 0 = .ok (rows.map fun row => Note.ofApi (Api.toNote row))
  answers : ∀ v : F, ∃ spent, client.isSpent (scalarHex v) = .ok spent

/-- **The API's own handlers deliver**, if the pages of the listing fit together and every request
about a nullifier meets a database. -/
theorem delivers_of_serves {strkey : Strkey} {base : String} {c : Contracts} {backend : Backend}
    {requests bound : Nat} {dbs : Nat → Database}
    {rows : Nat → List (Nat × Nat × List UInt8 × Nat)}
    (hserves : Paging.Serves (fun note : Api.Note => note.leafIndex + 1)
      (fun i => (rows i).map Api.toNote) (fun _ => 1000)
      (Api.noteRequest dbs c.pool fun _ => some 1000))
    (hnotes : ∀ i, backend.notes i = some (dbs i)) (hbound : ∀ i, (rows i).length ≤ bound)
    (hrequests : bound < requests)
    (hnullifiers : ∀ v : F, ∃ db, backend.nullifier (scalarHex v) = some db) :
    ∃ j, Delivers (Service.over strkey base c backend requests).toClient (rows j) := by
  obtain ⟨j, hlisted⟩ : ∃ j, notes base c backend requests 0 =
      .ok (((rows j).map Api.toNote).map Note.ofApi) :=
    notes_of_serves hserves hnotes (fun i => by rw [List.length_map]; exact hbound i) hrequests
  rw [List.map_map] at hlisted
  refine ⟨j, hlisted, fun v => ?_⟩
  obtain ⟨db, hdb⟩ := hnullifiers v
  exact ⟨_, isSpent_scalarHex hdb⟩

/-- What the client reads of an output. -/
theorem ofApi_toNote (index : Nat) (commitment : F) (encrypted : List UInt8) (ledger : Nat) :
    Note.ofApi (Api.toNote (index, commitment.val, encrypted, ledger)) =
      ⟨index, scalarHex commitment, Api.hex encrypted⟩ := by
  rw [scalarHex_eq]
  rfl

/-- **A scan of what the API delivers succeeds**, whatever the outputs hold. -/
theorem Delivers.scan_ok {rows : List (Nat × Nat × List UInt8 × Nat)} (h : Delivers client rows) :
    ∃ owned, scan crates client wallet = .ok owned := by
  have hall : ∀ note ∈ rows.map (fun row => Note.ofApi (Api.toNote row)),
      ∃ found, openNote crates client wallet note = .ok found := by
    intro note hnote
    obtain ⟨⟨index, commitment, encrypted, ledger⟩, -, rfl⟩ := List.mem_map.mp hnote
    exact openNote_total (bytesOfHex_hex encrypted) h.answers
  obtain ⟨owned, howned⟩ := scanNotes_ok hall
  exact ⟨owned, bind_eq_ok.mpr ⟨_, h.notes, howned⟩⟩

/-- **The result of a scan**: the notes found, each behind one that is listed. -/
theorem mem_of_scan {owned : List Owned} {notes : List Note}
    (hscan : scan crates client wallet = .ok owned) (hnotes : client.notes 0 = .ok notes) :
    o ∈ owned ↔ ∃ note ∈ notes, Found crates client wallet note o := by
  obtain ⟨notes', hnotes', hloop⟩ := bind_eq_ok.mp hscan
  obtain rfl := Except.ok.inj (hnotes.symm.trans hnotes')
  rw [mem_of_scanNotes hloop]
  simp

section Payment

open Circuit (Circomlib InputSignals InputChecked keypair commitOpening)

variable {draw : Draw} {amount index : Nat} {created : CreatedNote} {encrypted : List UInt8}

theorem newNote_eq_ok {publicKey : F} {encryptionKey : Bytes 32} :
    newNote crates draw publicKey encryptionKey amount = .ok (created, encrypted) ↔
    created = ⟨publicKey, draw.blinding, amount⟩ ∧
      NoteCrypto.encrypt crates encryptionKey draw.ephemeral
        ⟨amountBytes amount, scalarToBeBytes draw.blinding⟩ = .ok encrypted := by
  rw [newNote]
  cases NoteCrypto.encrypt crates encryptionKey draw.ephemeral
      ⟨amountBytes amount, scalarToBeBytes draw.blinding⟩ with
  | error e => simp [Except.mapError, error_bind]
  | ok sealed => simp [Except.mapError, ok_bind, eq_comm]

/-- **A note is made** for any key that is not weak. -/
theorem newNote_ok (laws : crates.Lawful) {publicKey : F} {encryptionKey : Bytes 32}
    (h : crates.wasContributory (crates.diffieHellman draw.ephemeral encryptionKey) = true)
    (amount : Nat) : ∃ encrypted, newNote crates draw publicKey encryptionKey amount =
      .ok (⟨publicKey, draw.blinding, amount⟩, encrypted) := by
  obtain ⟨encrypted, hencrypt⟩ := NoteCrypto.encrypt_ok laws h
    ⟨amountBytes amount, scalarToBeBytes draw.blinding⟩
  exact ⟨encrypted, newNote_eq_ok.mpr ⟨rfl, hencrypt⟩⟩

/-- The nullifier of a note at a leaf. -/
def nullifierOf (wallet : Wallet) (created : CreatedNote) (index : Nat) : F :=
  PolicyFixture.noteNullifier wallet.notePrivateKey created.commitment index

/-- **The note made for a wallet is the note it finds.** -/
theorem found_of_newNote (laws : crates.Lawful) (hpos : 1 ≤ amount) (hfits : amount < 2 ^ 128)
    (hagree : crates.Agree wallet.encryptionSecret draw.ephemeral)
    (h : newNote crates draw wallet.notePublicKey (wallet.encryptionKey crates) amount =
      .ok (created, encrypted))
    (hunspent : client.isSpent (scalarHex (nullifierOf wallet created index)) = .ok false) :
    Found crates client wallet ⟨index, scalarHex created.commitment, Api.hex encrypted⟩
      ⟨index, amount, draw.blinding, scalarHex (nullifierOf wallet created index)⟩ := by
  obtain ⟨rfl, hencrypt⟩ := newNote_eq_ok.mp h
  refine ⟨rfl, ⟨encrypted, scalarToBeBytes draw.blinding, bytesOfHex_hex encrypted, ?_,
    scalarFromBeBytes_scalarToBeBytes _⟩, rfl, rfl, hpos, hfits, hunspent⟩
  exact NoteCrypto.decrypt_encrypt laws hagree hencrypt

/-- **A delivered note is returned**, unless it is spent. -/
theorem Delivers.finds {rows : List (Nat × Nat × List UInt8 × Nat)} {ledger : Nat}
    (h : Delivers client rows) (laws : crates.Lawful) (hpos : 1 ≤ amount) (hfits : amount < 2 ^ 128)
    (hagree : crates.Agree wallet.encryptionSecret draw.ephemeral)
    (hnew : newNote crates draw wallet.notePublicKey (wallet.encryptionKey crates) amount =
      .ok (created, encrypted))
    (hrow : (index, created.commitment.val, encrypted, ledger) ∈ rows) :
    ∃ owned, scan crates client wallet = .ok owned ∧
      ((⟨index, amount, draw.blinding, scalarHex (nullifierOf wallet created index)⟩ : Owned) ∈
          owned ↔ client.isSpent (scalarHex (nullifierOf wallet created index)) = .ok false) := by
  obtain ⟨owned, howned⟩ : ∃ owned, scan crates client wallet = .ok owned := h.scan_ok
  refine ⟨owned, howned, ?_⟩
  rw [mem_of_scan howned h.notes]
  constructor
  · rintro ⟨note, -, hfound⟩
    exact hfound.unspent
  · intro hunspent
    have hlisted := List.mem_map_of_mem (f := fun row => Note.ofApi (Api.toNote row)) hrow
    rw [ofApi_toNote] at hlisted
    exact ⟨_, hlisted, found_of_newNote laws hpos hfits hagree hnew hunspent⟩

/-- **The circuit forces the nullifier** of an input that spends the leaf with the wallet's key. -/
theorem nullifier_forced {lib : Circomlib} {L : Nat} {root : F} {pub : F × List F}
    {i : InputSignals} (h : InputChecked lib L root pub i)
    (hleaf : i.commitment = created.commitment) (hindex : i.inPathIndices = (index : F))
    (hkey : i.inPrivateKey = wallet.notePrivateKey) :
    pub.1 = nullifierOf wallet created index := by
  rw [← h.nullifier, InputSignals.nullifier, InputSignals.sig, hleaf, hindex, hkey]
  rfl

/-- Whoever opens the commitment has the wallet's key, unless two hashes collide. -/
theorem key_of_opening {i : InputSignals} (hcreated : created.publicKey = wallet.notePublicKey)
    (hleaf : i.commitment = created.commitment)
    (hkeys : Set.InjOn keypair {i.inPrivateKey, wallet.notePrivateKey})
    (hopenings : Set.InjOn commitOpening
      {i.opening, ((created.amount : F), created.publicKey, created.blinding)}) :
    i.inPrivateKey = wallet.notePrivateKey := by
  have hopening : i.opening = ((created.amount : F), created.publicKey, created.blinding) :=
    hopenings (Set.mem_insert _ _) (Set.mem_insert_of_mem _ rfl) hleaf
  have hkey : keypair i.inPrivateKey = created.publicKey := congrArg (·.2.1) hopening
  refine hkeys (Set.mem_insert _ _) (Set.mem_insert_of_mem _ rfl) ?_
  rw [hkey, hcreated]
  rfl

end Payment

/-- **A private payment reaches its recipient**, and a scan reports nothing else. -/
theorem payment_reaches_recipient (crates : Primitives) (laws : crates.Lawful) (wallet : Wallet) :
    (∀ (draw : Draw) (amount : Nat), 1 ≤ amount → amount < 2 ^ 128 →
      crates.Agree wallet.encryptionSecret draw.ephemeral →
      ∃ created encrypted, newNote crates draw wallet.notePublicKey (wallet.encryptionKey crates)
        amount = .ok (created, encrypted) ∧
      ∀ (client : Client) (rows : List (Nat × Nat × List UInt8 × Nat)) (index ledger : Nat),
      Delivers client rows → (index, created.commitment.val, encrypted, ledger) ∈ rows →
      -- the scan returns the note, unless it is spent
      (∃ owned, scan crates client wallet = .ok owned ∧
        ((⟨index, amount, draw.blinding, scalarHex (nullifierOf wallet created index)⟩ : Owned) ∈
            owned ↔
          client.isSpent (scalarHex (nullifierOf wallet created index)) = .ok false)) ∧
      -- every input of the circuit that spends the leaf publishes this nullifier
      ∀ (lib : Circuit.Circomlib) (L : Nat) (root : F) (pub : F × List F)
        (i : Circuit.InputSignals), Circuit.InputChecked lib L root pub i →
        i.commitment = created.commitment → i.inPathIndices = (index : F) →
        (i.inPrivateKey = wallet.notePrivateKey ∨
          Set.InjOn Circuit.keypair {i.inPrivateKey, wallet.notePrivateKey} ∧
          Set.InjOn Circuit.commitOpening
            {i.opening, ((amount : F), wallet.notePublicKey, draw.blinding)}) →
        pub.1 = nullifierOf wallet created index) ∧
    -- and whatever the API lists, every entry is a note of this wallet in the format
    ∀ (client : Client) (owned : List Owned), scan crates client wallet = .ok owned →
      ∃ notes, client.notes 0 = .ok notes ∧ ∀ o ∈ owned, ∃ note ∈ notes,
        o.leafIndex = note.leafIndex ∧ 0 < o.amount ∧ o.amount < 2 ^ 128 ∧
        note.commitment =
          scalarHex (PolicyFixture.commitment o.amount wallet.notePublicKey o.blinding) ∧
        o.nullifier = scalarHex (PolicyFixture.noteNullifier wallet.notePrivateKey
          (PolicyFixture.commitment o.amount wallet.notePublicKey o.blinding) o.leafIndex) ∧
        ∃ bytes, bytesOfHex note.encryptedOutput = .ok bytes ∧
          bytes.length = 113 ∧ bytes.head? = some 2 := by
  refine ⟨fun draw amount hpos hfits hagree => ?_, fun client owned hscan => ?_⟩
  · obtain ⟨encrypted, hnew⟩ : ∃ encrypted, newNote crates draw wallet.notePublicKey
        (wallet.encryptionKey crates) amount =
          .ok (⟨wallet.notePublicKey, draw.blinding, amount⟩, encrypted) :=
      newNote_ok laws hagree.contributory amount
    refine ⟨_, encrypted, hnew, fun client rows index ledger hdelivers hrow =>
      ⟨hdelivers.finds laws hpos hfits hagree hnew hrow, ?_⟩⟩
    intro lib L root pub i hchecked hleaf hindex hkey
    rcases hkey with hkey | ⟨hkeys, hopenings⟩
    · exact nullifier_forced hchecked hleaf hindex hkey
    · exact nullifier_forced hchecked hleaf hindex (key_of_opening rfl hleaf hkeys hopenings)
  · obtain ⟨notes, hnotes, -⟩ := bind_eq_ok.mp hscan
    refine ⟨notes, hnotes, fun o ho => ?_⟩
    obtain ⟨note, hnote, hfound⟩ := (mem_of_scan hscan hnotes).mp ho
    obtain ⟨bytes, blinding, hbytes, hopen, -⟩ := hfound.opens
    obtain ⟨hlength, hversion⟩ := NoteCrypto.format_of_decrypt hopen
    exact ⟨note, hnote, hfound.leafIndex, hfound.positive, hfound.fits, hfound.commitment,
      hfound.nullifier, bytes, hbytes, hlength, hversion⟩

/-! ### Two notes for Bob

The crates, on secrets of one repeated byte as the source's tests use them.  Four notes are sealed:
40 and 25 with the one-time secrets 2 and 5 to the secret 1, and for a payment out of the two 50
with 4 to 3 and the change with 6 back to 1. -/

def sampleSecret (byte : UInt8) : Bytes 32 := .replicate 32 byte

/-- X25519 public keys, by the secret's byte. -/
def samplePublicKeys : List (UInt8 × Bytes 32) :=
  [(1, .ofNatBE 32 0xa4e09292b651c278b9772c569f5fa9bb13d906b46ab68c9df9dc2b4409f8a209),
   (2, .ofNatBE 32 0xce8d3ad1ccb633ec7b70c17814a5c76ecd029685050d344745ba05870e587d59),
   (3, .ofNatBE 32 0x5dfedd3b6bd47f6fa28ee15d969d5bb0ea53774d488bdaf9df1c6e0124b3ef22),
   (4, .ofNatBE 32 0xac01b2209e86354fb853237b5de0f4fab13c7fcbf433a61c019369617fecf10b),
   (5, .ofNatBE 32 0x50a61409b1ddd0325e9b16b700e719e9772c07000b1bd7786e907c653d20495d),
   (6, .ofNatBE 32 0xf5b2d6e60f9477e310c2982daaa6c9136c108a1777c5947e448fa37d68174557)]

/-- Shared secrets, by the secret's byte and the first byte of the public key. -/
def sampleShared : List ((UInt8 × UInt8) × Bytes 32) :=
  [((2, 0xa4), .ofNatBE 32 0x2ed76ab549b1e73c031eb49c9448f0798aea81b698279a0c3dc3e49fbfc4b953),
   ((1, 0xce), .ofNatBE 32 0x2ed76ab549b1e73c031eb49c9448f0798aea81b698279a0c3dc3e49fbfc4b953),
   ((5, 0xa4), .ofNatBE 32 0x5719fb63812a4c266e0bf99e5855dc24024258e8b75bd2a778a0bc3655aeff69),
   ((1, 0x50), .ofNatBE 32 0x5719fb63812a4c266e0bf99e5855dc24024258e8b75bd2a778a0bc3655aeff69),
   ((4, 0x5d), .ofNatBE 32 0x40e47a3f525bdcac491d418978d7db5af623ac7afe7623c6d78a5d4fce9d0f63),
   ((6, 0xa4), .ofNatBE 32 0x1509e4a7202cfd46cd76796384fd4fc02b791c7698b5ce9ab875153606be0136)]

/-- Keys and nonces, by the first byte of the shared secret. -/
def sampleKeys : List (UInt8 × Bytes (32 + 12)) :=
  [(0x2e, .ofNatBE 44
    0x18ed86f9322540d12b6d9f62e0d01cb1f542d5fefe51c309011ecc32defdd73cf415ffcc3e580a714491b1f4),
   (0x57, .ofNatBE 44
    0x05d73e4735acf684a2456bab0c2813ab5f1094deb0ba72f64001c24d9096a36d7d8e019e77d29bc03f209036),
   (0x40, .ofNatBE 44
    0x11780f27f7e63eceb1ba416f673fee46cee872ec84e49ea1e5effc8c64f475da3dfcb922b8a06fb6cf29303c),
   (0x15, .ofNatBE 44
    0x19e4bd6812cd74616146c4836360cd4ff724f1f7fbd49dd3fea9f0c8b6cfd4dbc6171bbf01dead079040862e)]

def samplePlaintext (amount : Nat) (blinding : F) : List UInt8 :=
  (amountBytes amount ++ scalarToBeBytes blinding).toList

def sampleSealed (ciphertext ciphertext' tag : Nat) : List UInt8 :=
  Bytes.digitsBE 32 ciphertext ++ Bytes.digitsBE 32 ciphertext' ++ Bytes.digitsBE 16 tag

/-- Plaintexts, with their ciphertexts and tags. -/
def sampleNotes : List (List UInt8 × List UInt8) :=
  [(samplePlaintext 40 (7 : Nat), sampleSealed
    0xff62a4b1a73c530ba287962f5bd2d9a66b4401996c22bd336d49f80a37ad8c26
    0xe160cacc512d508d8cff95a93c715c0e417759913edea4b91f99a14458d58f09
    0x47d952155903d8e79d79bfcb71b6d094),
   (samplePlaintext 25 (9 : Nat), sampleSealed
    0xe37675a96a7dd911fe319ea05b892993883cc0e110afee27767c1ea42b373adb
    0xf0748a7b8c5bede68b8db5ffd2c1fe8acc57a999431910694176c9723c843826
    0xc180694d182194ba5dc77a4437bc6d17),
   (samplePlaintext 50 (8 : Nat), sampleSealed
    0x96582653af5bcc05d342e2190080df20b66a032123fc52894278580026702753
    0x475142a4e995a19f3390dc09ced0eedfacc2dc9828e922c1832ec23fb2a25b3d
    0x52fa8bfc4e21560e44858dc344c0523a),
   (samplePlaintext 15 (12 : Nat), sampleSealed
    0x9b56b33f1b7f4bbe5d03f716acfc8f659c99727957d4b05f580a2c9b2bf69858
    0x1318be4ec4fe59df6708346b2714e32737c1b13332ae07006b2232add345cced
    0x184c090f77931cd809aa34f73d78f146)]

/-- The crates, on these secrets and plaintexts. -/
def sampleCrates : Primitives where
  publicKey secret := (samplePublicKeys.lookup (secret.toList.headD 0)).getD (.ofNatBE 32 0)
  diffieHellman secret key :=
    (sampleShared.lookup (secret.toList.headD 0, key.toList.headD 0)).getD (.ofNatBE 32 0)
  wasContributory shared := shared.toList.any (· ≠ 0)
  hkdf _ shared _ := (sampleKeys.lookup (shared.toList.headD 0)).getD (.ofNatBE 44 0)
  encrypt _ _ msg _ := some ((sampleNotes.lookup msg).getD (msg ++ .replicate 16 0))
  decrypt _ _ msg _ :=
    some (((sampleNotes.map Prod.swap).lookup msg).getD (msg.take (msg.length - 16)))

/-- No two of the notes are alike, and no tag is zero. -/
theorem sampleNotes_nodup : ((sampleNotes.map Prod.swap).map Prod.fst).Nodup := by
  decide +kernel

theorem sampleNotes_tag : ∀ note ∈ sampleNotes,
    note.2.length = 64 + 16 ∧ note.2.drop 64 ≠ List.replicate 16 0 := by
  decide +kernel

/-- What is sealed outside the table is not in the table. -/
theorem sampleNotes_lookup (msg : List UInt8) :
    (sampleNotes.map Prod.swap).lookup (msg ++ List.replicate 16 0) = none := by
  rw [← Option.not_isSome_iff_eq_none, Assoc.isSome_lookup_iff, List.map_map]
  intro hmem
  obtain ⟨note, hnote, heq⟩ := List.mem_map.mp hmem
  have heq : note.2 = msg ++ List.replicate 16 0 := heq
  obtain ⟨hlen, htag⟩ := sampleNotes_tag note hnote
  rw [heq] at hlen htag
  rw [List.length_append, List.length_replicate, Nat.add_right_cancel_iff] at hlen
  exact htag (List.drop_left' hlen)

theorem sampleCrates_lawful : sampleCrates.Lawful where
  seals key nonce msg aad hlen := by
    refine ⟨_, rfl, ?_⟩
    cases hfound : sampleNotes.lookup msg with
    | none => rw [Option.getD_none, List.length_append, List.length_replicate, hlen]
    | some sealed => exact (sampleNotes_tag _ (Assoc.mem_of_lookup hfound)).1
  inverse {key nonce msg aad sealed} h := by
    obtain rfl : (sampleNotes.lookup msg).getD (msg ++ .replicate 16 0) = sealed :=
      Option.some.inj h
    refine congrArg some ?_
    cases hfound : sampleNotes.lookup msg with
    | none =>
      rw [Option.getD_none, sampleNotes_lookup, Option.getD_none, List.length_append,
        List.length_replicate, Nat.add_sub_cancel, List.take_left' rfl]
    | some sealed =>
      have hmem : (sealed, msg) ∈ sampleNotes.map Prod.swap :=
        List.mem_map.mpr ⟨_, Assoc.mem_of_lookup hfound, rfl⟩
      rw [Option.getD_some, Assoc.lookup_eq_some_of_mem sampleNotes_nodup hmem, Option.getD_some]

def sampleWallet : Wallet where
  name := "bob"
  address := "GAL7JBSJMXTCCAZUDPG3IHWDCHLV6AQJFOIH6QU7NF4PGEWDGOWBDDFO"
  notePrivateKey := 1
  encryptionSecret := sampleSecret 1

/-- What the senders of 40 and of 25 draw. -/
def draw40 : Draw := ⟨(7 : Nat), sampleSecret 2⟩

def draw25 : Draw := ⟨(9 : Nat), sampleSecret 5⟩

theorem agree_draw40 : sampleCrates.Agree sampleWallet.encryptionSecret draw40.ephemeral where
  commutes := by decide +kernel
  contributory := by decide +kernel

theorem agree_draw25 : sampleCrates.Agree sampleWallet.encryptionSecret draw25.ephemeral where
  commutes := by decide +kernel
  contributory := by decide +kernel

/-- A note for Bob, and what its sender seals. -/
def noteFor (draw : Draw) (amount : Nat) : CreatedNote :=
  ⟨sampleWallet.notePublicKey, draw.blinding, amount⟩

def sealedFor (draw : Draw) (amount : Nat) : List UInt8 :=
  match newNote sampleCrates draw sampleWallet.notePublicKey
      (sampleWallet.encryptionKey sampleCrates) amount with
  | .ok (_, encrypted) => encrypted
  | .error _ => []

theorem newNote_sealedFor {draw : Draw}
    (h : sampleCrates.Agree sampleWallet.encryptionSecret draw.ephemeral) (amount : Nat) :
    newNote sampleCrates draw sampleWallet.notePublicKey (sampleWallet.encryptionKey sampleCrates)
      amount = .ok (noteFor draw amount, sealedFor draw amount) := by
  obtain ⟨encrypted, hnew⟩ : ∃ encrypted, newNote sampleCrates draw sampleWallet.notePublicKey
      (sampleWallet.encryptionKey sampleCrates) amount = .ok (noteFor draw amount, encrypted) :=
    newNote_ok sampleCrates_lawful h.contributory amount
  rw [sealedFor, hnew]

/-- The outputs of a pool, one a ledger. -/
def outputRows (outputs : List (F × List UInt8)) : List CommitmentRow :=
  outputs.zipIdx.map fun (output, i) =>
    ⟨.firstOperation (70 + i) 0, .contract 1, i, output.1.val, some output.2, .transact, 70 + i⟩

/-- A database with these outputs, spends and keys of one pool. -/
def outputsDb (outputs : List (F × List UInt8)) (spends : List F) (keys : List PublicKeyRow) :
    Database where
  index := { Store.empty with
    tables := { Tables.empty with
      commitments := outputRows outputs
      nullifiers := spends.map fun v => ⟨.firstOperation 80 0, .contract 1, v.val, 80⟩
      publicKeys := keys } }
  verifiedState := fun _ => some ⟨80, PolicyFixture.levels, outputs.length, 0, false, true⟩

/-- Each request meets the same database, but for those about the allowlist. -/
def Backend.same (db : Database) (allowlist : Option Database) : Backend where
  notes _ := some db
  nullifier _ := some db
  poolPath _ := some db
  allowlistPath _ := allowlist
  publicKey _ := some db
  pool := some db

/-- The note of 40 is listed at leaf 1, after an output of someone else, and the note of 25, which
is spent, at leaf 2. -/
def bobsDb : Database :=
  outputsDb [(9, []), ((noteFor draw40 40).commitment, sealedFor draw40 40),
    ((noteFor draw25 25).commitment, sealedFor draw25 25)]
    [nullifierOf sampleWallet (noteFor draw25 25) 2] []

def bobsService : Service :=
  .over Network.unaryStrkey "" Network.operatorContracts (.same bobsDb none) 4

def bobsRows : List (Nat × Nat × List UInt8 × Nat) :=
  [(0, 9, [], 70), (1, (noteFor draw40 40).commitment.val, sealedFor draw40 40, 71),
   (2, (noteFor draw25 25).commitment.val, sealedFor draw25 25, 72)]

theorem delivers_bobs : Delivers bobsService.toClient bobsRows := by
  have hstores : Api.StoresPool bobsDb (.contract 1) bobsDb.index.tables.commitments := by
    refine ⟨List.Perm.of_eq (List.filter_eq_self.mpr fun r hr => ?_), ⟨rfl, rfl, rfl, trivial⟩,
      fun r hr => ?_⟩
    all_goals
      obtain ⟨⟨output, i⟩, hi, rfl⟩ := List.mem_map.mp hr
    · exact decide_eq_true rfl
    · have hlt : i < 3 := (List.mem_zipIdx hi).2.1
      exact hlt.le.trans (by decide)
  have hserves := Api.serves_notes (fun _ : Nat => hstores) (fun _ => List.prefix_rfl)
    (fun _ l (hl : l ∈ some 1000) => by
      obtain rfl := Option.some.inj hl
      exact ⟨by decide, by decide⟩)
  obtain ⟨-, hdelivers⟩ : ∃ _ : Nat, Delivers bobsService.toClient bobsRows :=
    delivers_of_serves hserves (fun _ => rfl) (fun _ => le_refl 3) (by decide) fun _ => ⟨_, rfl⟩
  exact hdelivers

/-- The scan returns the note of 40, and not the spent one. -/
theorem payment_of_forty_reaches_bob : ∃ owned,
    scan sampleCrates bobsService.toClient sampleWallet = .ok owned ∧
    (⟨1, 40, (7 : Nat), scalarHex (nullifierOf sampleWallet (noteFor draw40 40) 1)⟩ : Owned) ∈
      owned ∧
    (⟨2, 25, (9 : Nat), scalarHex (nullifierOf sampleWallet (noteFor draw25 25) 2)⟩ : Owned) ∉
      owned := by
  obtain ⟨hpays, -⟩ := payment_reaches_recipient sampleCrates sampleCrates_lawful sampleWallet
  obtain ⟨created, encrypted, hnew, hfinds⟩ :=
    hpays draw40 40 (by decide) (by decide) agree_draw40
  obtain ⟨rfl, rfl⟩ :=
    Prod.mk.inj (Except.ok.inj ((newNote_sealedFor agree_draw40 40).symm.trans hnew))
  obtain ⟨created, encrypted, hnew, hfinds'⟩ :=
    hpays draw25 25 (by decide) (by decide) agree_draw25
  obtain ⟨rfl, rfl⟩ :=
    Prod.mk.inj (Except.ok.inj ((newNote_sealedFor agree_draw25 25).symm.trans hnew))
  obtain ⟨⟨owned, hscan, hmem⟩, -⟩ := hfinds bobsService.toClient bobsRows 1 71 delivers_bobs
    (by simp [bobsRows])
  obtain ⟨⟨owned', hscan', hmem'⟩, -⟩ := hfinds' bobsService.toClient bobsRows 2 72 delivers_bobs
    (by simp [bobsRows])
  obtain rfl := Except.ok.inj (hscan.symm.trans hscan')
  have hfree : Api.nullifier bobsDb (.contract 1)
      (nullifierOf sampleWallet (noteFor draw40 40) 1).val = none := by decide +kernel
  have hspent : (Api.nullifier bobsDb (.contract 1)
      (nullifierOf sampleWallet (noteFor draw25 25) 2).val).isSome = true := by decide +kernel
  refine ⟨owned, hscan, hmem.mpr ?_, fun hfound => ?_⟩
  · rw [bobsService, isSpent_scalarHex rfl]
    exact congrArg (Except.ok ∘ Option.isSome) hfree
  · have hanswer := hmem'.mp hfound
    rw [bobsService, isSpent_scalarHex rfl] at hanswer
    exact absurd (hspent.symm.trans (Except.ok.inj hanswer)) (by decide)

end Demo

end Veil
