/-
# Coin selection

`tools/demo/src/flows.rs`: `pay` and `shield`, up to where they hand a transaction to the prover.  A
transaction has two inputs, so a payment can spend one note or two.  `pay` takes the smallest note
that covers the amount, else the two largest, and fills an unused slot with a note worth nothing.

That this pays whenever any one or two notes can is `Selection.covers_iff`.  The rest is the two
crates' arithmetic: `pay` adds the chosen amounts with checks and subtracts the payment, and
`transaction_inputs` adds inputs and outputs again and compares.
-/
import Veil.Core.Selection
import Veil.Demo.ExtDataHash
import Veil.Demo.Scan

namespace Veil

open Tx

namespace Demo

open NoteCrypto (Primitives)
open PolicyFixture (SpentNote Membership Transaction levels)

/-! ## 1. `pay` -/

/-- A note worth nothing, spent only to fill an input slot. -/
def dummyInput (wallet : Wallet) (blinding : F) : SpentNote where
  privateKey := wallet.notePrivateKey
  blinding := blinding
  amount := 0
  leafIndex := 0
  pathElements := List.replicate levels 0

def pathScalars (path : Path) : Except DemoError (List F) := path.pathElements.mapM scalar

/-- The allowlist path of the wallet's key, from the API. -/
def membership (client : Client) (wallet : Wallet) : Except DemoError Membership := do
  let leaf := scalarHex (PolicyFixture.membershipLeaf wallet.notePublicKey)
  let found ← client.allowlistPath leaf
  let path ← okOr found (.notEnrolled wallet.name)
  let pathElements ← pathScalars path
  let root ← scalar path.root
  .ok ⟨pathElements, path.pathIndices, root⟩

/-- What the random source hands out for a payment: a blinding for an input slot that stays empty,
and what the two outputs need. -/
structure Draws where
  dummy : (slot : Nat) → F
  payment : Draw
  change : Draw

/-- The smallest note that covers the amount, else the two largest. -/
def chooseNotes (amount : Nat) (notes : List Owned) : List Owned :=
  Selection.choose (·.amount) amount notes

/-- `paths.windows(2)` all agree on the root. -/
def oneRoot (paths : List Path) : Bool :=
  (paths.zip paths.tail).all fun pair => pair.1.root = pair.2.root

def spentNote (wallet : Wallet) (note : Owned) (path : Path) : Except DemoError SpentNote := do
  let pathElements ← pathScalars path
  .ok { privateKey := wallet.notePrivateKey
        blinding := note.blinding
        amount := note.amount
        leafIndex := note.leafIndex
        pathElements := pathElements }

/-- `while inputs.len() < 2`. -/
def fillInputs (wallet : Wallet) (dummy : Nat → F) (inputs : List SpentNote) : List SpentNote :=
  inputs ++ (List.range' inputs.length (2 - inputs.length)).map fun slot =>
    dummyInput wallet (dummy slot)

/-- The paths of the chosen notes, all against one root, and the inputs that spend them. -/
def spendNotes (client : Client) (wallet : Wallet) (dummy : Nat → F) (chosen : List Owned) :
    Except DemoError (F × List SpentNote) := do
  let paths ← chosen.mapM fun note => client.poolPath note.leafIndex
  ensure (oneRoot paths = true) .poolMoved
  let path ← okOr paths.head? .panicked
  let root ← scalar path.root
  let inputs ← (chosen.zip paths).mapM fun pair => spentNote wallet pair.1 pair.2
  .ok (root, fillInputs wallet dummy inputs)

/-- `try_into` an array of two. -/
def pairOf : List SpentNote → Option (SpentNote × SpentNote)
  | [first, second] => some (first, second)
  | _ => none

/-- Pays `amount` stroops privately to `recipient`, with the change back to the wallet: the
transaction to prove and submit, with its external data. -/
def pay (crates : Primitives) (xdr : XdrCrates) (draws : Draws) (client : Client) (wallet : Wallet)
    (recipient : String) (amount : Nat) : Except DemoError (Transaction × ExtData) := do
  ensure (amount > 0) .amountNotPositive
  let published ← client.publicKey recipient
  let keys ← okOr published (.notPublished recipient)
  let recipientNoteKey ← scalar keys.noteKey
  let recipientEncryption ← hex32 keys.encryptionKey
  let notes ← scan crates client wallet
  let chosen := chooseNotes amount notes
  let available ← okOr (PolicyFixture.sumAmounts (chosen.map (·.amount))) .notesOverflow
  ensure (available ≥ amount) (.insufficient available amount)
  let (root, inputs) ← spendNotes client wallet draws.dummy chosen
  let membership ← membership client wallet
  let (payment, encryptedPayment) ←
    newNote crates draws.payment recipientNoteKey recipientEncryption amount
  let changeAmount ← okOr (PolicyFixture.checkedSub available amount) .changeUnderflows
  let (change, encryptedChange) ←
    newNote crates draws.change wallet.notePublicKey (wallet.encryptionKey crates) changeAmount
  let ext : ExtData := ⟨wallet.address, 0, encryptedPayment, encryptedChange⟩
  let inputs ← okOr (pairOf inputs) .twoInputs
  let extDataHash ← ext.hash xdr
  .ok ({ root := root
         extAmount := 0
         extDataHash := Bytes.toNatBE extDataHash.toList
         inputs := inputs
         memberships := (membership, membership)
         outputs := (payment, change) }, ext)

/-! ## 2. `shield` -/

/-- Why `shield` stops. -/
inductive ShieldError where
  | step (error : DemoError)
  /-- The amount is no `i128`. -/
  | outOfRange
  deriving DecidableEq, Repr

/-- What the random source hands out for a deposit. -/
structure ShieldDraws where
  note : Draw
  zero : Draw
  dummy : (slot : Nat) → F

/-- Moves `amount` stroops from the wallet's account into a private note: the transaction to prove
and submit, with its external data. -/
def shield (crates : Primitives) (xdr : XdrCrates) (draws : ShieldDraws) (service : Service)
    (wallet : Wallet) (amount : Nat) : Except ShieldError (Transaction × ExtData) := do
  ensure (amount > 0) (.step .amountNotPositive)
  let membership ← (membership service.toClient wallet).mapError .step
  let pool ← service.pool.mapError .step
  let encryptionKey := wallet.encryptionKey crates
  let (note, encrypted) ←
    (newNote crates draws.note wallet.notePublicKey encryptionKey amount).mapError .step
  let (zero, encryptedZero) ←
    (newNote crates draws.zero wallet.notePublicKey encryptionKey 0).mapError .step
  ensure (amount < 2 ^ 127) .outOfRange
  let ext : ExtData := ⟨wallet.address, amount, encrypted, encryptedZero⟩
  let root ← (scalar pool.root).mapError .step
  let extDataHash ← (ext.hash xdr).mapError .step
  .ok ({ root := root
         extAmount := ext.extAmount
         extDataHash := Bytes.toNatBE extDataHash.toList
         inputs := (dummyInput wallet (draws.dummy 0), dummyInput wallet (draws.dummy 1))
         memberships := (membership, membership)
         outputs := (note, zero) }, ext)

open PolicyFixture (CreatedNote) in
/-- **What a deposit consists of**, once every step has succeeded. -/
theorem shield_ok {crates : Primitives} {xdr : XdrCrates} {draws : ShieldDraws}
    {service : Service} {wallet : Wallet} {amount : Nat} {m : Membership} {pool : Pool}
    {note zero : CreatedNote} {encrypted encryptedZero : List UInt8} {root : F} {digest : Bytes 32}
    (hpos : 0 < amount) (hrange : amount < 2 ^ 127)
    (hm : membership service.toClient wallet = .ok m) (hpool : service.pool = .ok pool)
    (hnote : newNote crates draws.note wallet.notePublicKey (wallet.encryptionKey crates) amount =
      .ok (note, encrypted))
    (hzero : newNote crates draws.zero wallet.notePublicKey (wallet.encryptionKey crates) 0 =
      .ok (zero, encryptedZero))
    (hroot : scalar pool.root = .ok root)
    (hhash : ExtData.hash xdr ⟨wallet.address, amount, encrypted, encryptedZero⟩ = .ok digest) :
    shield crates xdr draws service wallet amount =
      .ok ({ root := root
             extAmount := amount
             extDataHash := Bytes.toNatBE digest.toList
             inputs := (dummyInput wallet (draws.dummy 0), dummyInput wallet (draws.dummy 1))
             memberships := (m, m)
             outputs := (note, zero) }, ⟨wallet.address, amount, encrypted, encryptedZero⟩) := by
  simp only [shield, ensure_pos hpos, ensure_pos hrange, hm, hpool, hnote, hzero, hroot, hhash,
    Except.mapError, ok_bind]

/-! ## 3. The inputs -/

/-- Path elements in the API's own text are read back. -/
theorem pathScalars_scalarHex {path : Path} (elements : List F)
    (h : path.pathElements = elements.map scalarHex) : pathScalars path = .ok elements := by
  have hall : ∀ l : List F, (l.map scalarHex).mapM scalar = .ok l := by
    intro l
    induction l with
    | nil => rfl
    | cons e l ih =>
      rw [List.map_cons, List.mapM_cons, scalar_scalarHex, ok_bind, ih, ok_bind]
      rfl
  rw [pathScalars, h, hall]

/-- The elements of a served path are read back. -/
theorem pathScalars_ofApi (proof : Tree.MerklePath) (indexed : Option Nat) :
    pathScalars (.ofApi (Api.merklePath proof indexed)) = .ok proof.siblings := by
  refine pathScalars_scalarHex proof.siblings ?_
  show proof.siblings.map (fun sibling => Verify.displayU256 sibling.val) = _
  exact List.map_congr_left fun sibling _ => (scalarHex_eq sibling).symm

theorem scalar_root_ofApi (proof : Tree.MerklePath) (indexed : Option Nat) :
    scalar (Path.ofApi (Api.merklePath proof indexed)).root = .ok proof.root := by
  show scalar (Verify.displayU256 proof.root.val) = _
  rw [← scalarHex_eq, scalar_scalarHex]

/-- The input spends this note of the wallet. -/
structure Spends (wallet : Wallet) (input : SpentNote) (note : Owned) : Prop where
  privateKey : input.privateKey = wallet.notePrivateKey
  blinding : input.blinding = note.blinding
  amount : input.amount = note.amount
  leafIndex : input.leafIndex = note.leafIndex
  path : input.pathElements.length = levels

/-- The API serves the path of `note` against `root`, and `input` is made from it. -/
def Served (client : Client) (wallet : Wallet) (root : String) (note : Owned) (input : SpentNote) :
    Prop :=
  ∃ path, client.poolPath note.leafIndex = .ok path ∧ path.root = root ∧
    spentNote wallet note path = .ok input

variable {client : Client} {wallet : Wallet} {root : String} {r : F} {x y : Owned}
  {s t : SpentNote}

/-- **One note**: the other slot is filled. -/
theorem spendNotes_one (dummy : Nat → F) (hx : Served client wallet root x s)
    (hroot : scalar root = .ok r) :
    spendNotes client wallet dummy [x] = .ok (r, [s, dummyInput wallet (dummy 1)]) := by
  obtain ⟨path, hpath, rfl, hs⟩ := hx
  simp only [spendNotes, List.mapM_cons, List.mapM_nil, hpath, ok_bind, pure_bind, oneRoot,
    List.tail_cons, List.zip_nil_right, List.all_nil, ensure_pos trivial, List.head?_cons,
    okOr_some, hroot, List.zip_cons_cons, hs]
  rfl

/-- **Two notes**, with their paths against one root. -/
theorem spendNotes_two (dummy : Nat → F) (hx : Served client wallet root x s)
    (hy : Served client wallet root y t) (hroot : scalar root = .ok r) :
    spendNotes client wallet dummy [x, y] = .ok (r, [s, t]) := by
  obtain ⟨path, hpath, rfl, hs⟩ := hx
  obtain ⟨path', hpath', hroots, ht⟩ := hy
  have hone : oneRoot [path, path'] = true := by simp [oneRoot, hroots]
  simp only [spendNotes, List.mapM_cons, List.mapM_nil, hpath, hpath', ok_bind, pure_bind,
    ensure_pos hone, List.head?_cons, okOr_some, hroot, List.zip_cons_cons, List.zip_nil_right, hs,
    ht]
  rfl

/-! ## 4. What a payment needs -/

/-- **A wallet that can pay.**  The API lists its unspent notes, serves their paths against one
root, knows the recipient's keys and the wallet's place on the allowlist. -/
structure Ready (crates : Primitives) (xdr : XdrCrates) (draws : Draws) (client : Client)
    (wallet : Wallet) (recipient : String) (keys : PublicKey) (notes : List Owned) : Prop where
  scanned : scan crates client wallet = .ok notes
  total : (notes.map (·.amount)).sum < 2 ^ 128
  paths : ∃ root, (∃ r, scalar root = .ok r) ∧ ∀ note ∈ notes, ∃ path pathElements,
    client.poolPath note.leafIndex = .ok path ∧ path.root = root ∧
      pathScalars path = .ok pathElements ∧ pathElements.length = levels
  published : client.publicKey recipient = .ok (some keys)
  noteKey : ∃ key, scalar keys.noteKey = .ok key
  /-- The recipient's encryption key is not weak, nor is the wallet's own. -/
  encryptionKey : ∃ key, hex32 keys.encryptionKey = .ok key ∧
    crates.wasContributory (crates.diffieHellman draws.payment.ephemeral key) = true
  ownKey : crates.wasContributory
    (crates.diffieHellman draws.change.ephemeral (wallet.encryptionKey crates)) = true
  enrolled : ∃ m, membership client wallet = .ok m ∧ m.pathElements.length = levels
  /-- The external data of a payment, whatever the amounts, can be hashed. -/
  hashed : ∀ {noteKey encryptionKey paid left payment change}, scalar keys.noteKey = .ok noteKey →
    hex32 keys.encryptionKey = .ok encryptionKey →
    newNote crates draws.payment noteKey encryptionKey paid = .ok payment →
    newNote crates draws.change wallet.notePublicKey (wallet.encryptionKey crates) left =
      .ok change →
    ∃ digest, ExtData.hash xdr ⟨wallet.address, 0, payment.2, change.2⟩ = .ok digest
  /-- Distinct notes have distinct nullifiers, and the dummy's is new. -/
  distinct : (notes.map (·.nullifier)).Nodup
  fresh : ∀ note ∈ notes,
    note.nullifier ≠ scalarHex (dummyInput wallet (draws.dummy 1)).nullifier

/-- **What a payment does with its inputs.** -/
structure Pays (wallet : Wallet) (keys : PublicKey) (amount : Nat) (first second : SpentNote)
    (tx : Transaction) : Prop where
  inputs : tx.inputs = (first, second)
  enough : amount ≤ first.amount + second.amount
  fits : first.amount + second.amount < 2 ^ 128
  payment : tx.outputs.1.amount = amount
  payee : scalar keys.noteKey = .ok tx.outputs.1.publicKey
  change : tx.outputs.2.amount = first.amount + second.amount - amount
  changeKey : tx.outputs.2.publicKey = wallet.notePublicKey
  transfer : tx.extAmount = 0
  member1 : tx.memberships.1.pathElements.length = levels
  member2 : tx.memberships.2.pathElements.length = levels

section Ready

variable {crates : Primitives} {xdr : XdrCrates} {draws : Draws} {recipient : String}
  {keys : PublicKey} {notes : List Owned} {amount : Nat}

/-- The chosen amounts never overflow. -/
theorem Ready.sum_chosen (h : Ready crates xdr draws client wallet recipient keys notes)
    (amount : Nat) : ((chooseNotes amount notes).map (·.amount)).sum < 2 ^ 128 := by
  obtain ⟨l, hperm, hsub⟩ := Selection.choose_subperm (fun note : Owned => note.amount) amount notes
  have hle : (l.map (·.amount)).sum ≤ (notes.map (·.amount)).sum :=
    (hsub.map (·.amount)).sum_le_sum fun _ _ => Nat.zero_le _
  have heq : (l.map (·.amount)).sum = ((chooseNotes amount notes).map (·.amount)).sum :=
    (hperm.map (·.amount)).sum_eq
  have := h.total
  omega

/-- **Too little.** -/
theorem Ready.pay_insufficient (h : Ready crates xdr draws client wallet recipient keys notes)
    (hpos : 0 < amount) (hless : ((chooseNotes amount notes).map (·.amount)).sum < amount) :
    pay crates xdr draws client wallet recipient amount =
      .error (.insufficient ((chooseNotes amount notes).map (·.amount)).sum amount) := by
  obtain ⟨noteKey, hnoteKey⟩ := h.noteKey
  obtain ⟨encryptionKey, hencryptionKey, -⟩ := h.encryptionKey
  simp only [pay, ensure_pos hpos, ok_bind, h.published, okOr_some, hnoteKey, hencryptionKey,
    h.scanned, PolicyFixture.sumAmounts_of_lt (h.sum_chosen amount),
    ensure_neg (not_le.mpr hless), error_bind]

/-- **Enough.** -/
theorem Ready.pay_ok (h : Ready crates xdr draws client wallet recipient keys notes)
    (laws : crates.Lawful) (hpos : 0 < amount)
    (hsum : ((chooseNotes amount notes).map (·.amount)).sum = s.amount + t.amount)
    (henough : amount ≤ s.amount + t.amount)
    (hspend : spendNotes client wallet draws.dummy (chooseNotes amount notes) = .ok (r, [s, t])) :
    ∃ tx ext, pay crates xdr draws client wallet recipient amount = .ok (tx, ext) ∧
      Pays wallet keys amount s t tx := by
  obtain ⟨noteKey, hnoteKey⟩ := h.noteKey
  obtain ⟨encryptionKey, hencryptionKey, hstrong⟩ := h.encryptionKey
  obtain ⟨m, hm, hlength⟩ := h.enrolled
  obtain ⟨encryptedPayment, hpayment⟩ : ∃ encrypted, newNote crates draws.payment noteKey
      encryptionKey amount = .ok (⟨noteKey, draws.payment.blinding, amount⟩, encrypted) :=
    newNote_ok laws hstrong amount
  obtain ⟨encryptedChange, hchange⟩ : ∃ encrypted, newNote crates draws.change
      wallet.notePublicKey (wallet.encryptionKey crates) (s.amount + t.amount - amount) =
        .ok (⟨wallet.notePublicKey, draws.change.blinding, s.amount + t.amount - amount⟩,
          encrypted) :=
    newNote_ok laws h.ownKey _
  obtain ⟨digest, hdigest⟩ := h.hashed hnoteKey hencryptionKey hpayment hchange
  have hsub : PolicyFixture.checkedSub (s.amount + t.amount) amount =
      some (s.amount + t.amount - amount) := if_pos henough
  simp only [pay, ensure_pos hpos, ok_bind, h.published, okOr_some, hnoteKey, hencryptionKey,
    h.scanned, PolicyFixture.sumAmounts_of_lt (h.sum_chosen amount), hsum, ensure_pos henough,
    hspend, hm, hpayment, hsub, hchange, pairOf, hdigest]
  have hfits := h.sum_chosen amount
  rw [hsum] at hfits
  exact ⟨_, _, rfl, rfl, henough, hfits, rfl, hnoteKey, rfl, rfl, rfl, hlength, hlength⟩

/-- Every note's path makes an input that spends it. -/
theorem Ready.served (h : Ready crates xdr draws client wallet recipient keys notes) :
    ∃ root r, scalar root = .ok r ∧ ∀ note ∈ notes, ∃ input,
      Served client wallet root note input ∧ Spends wallet input note := by
  obtain ⟨root, ⟨r, hr⟩, hpaths⟩ := h.paths
  refine ⟨root, r, hr, fun note hnote => ?_⟩
  obtain ⟨path, pathElements, hpath, hroot, helements, hlength⟩ := hpaths note hnote
  refine ⟨⟨wallet.notePrivateKey, note.blinding, note.amount, note.leafIndex, pathElements⟩,
    ⟨path, hpath, hroot, ?_⟩, rfl, rfl, rfl, rfl, hlength⟩
  rw [spentNote, helements, ok_bind]

/-- The nullifier an input publishes is the one the scan reported for its note. -/
theorem Ready.nullifier_eq (h : Ready crates xdr draws client wallet recipient keys notes)
    (hx : x ∈ notes) (hs : Spends wallet s x) : scalarHex s.nullifier = x.nullifier := by
  obtain ⟨listed, hlisted, -⟩ := bind_eq_ok.mp h.scanned
  obtain ⟨note, -, hfound⟩ := (mem_of_scan h.scanned hlisted).mp hx
  rw [hfound.nullifier, SpentNote.nullifier, SpentNote.commitment, SpentNote.publicKey,
    hs.privateKey, hs.amount, hs.blinding, hs.leafIndex]
  rfl

theorem Ready.nullifier_ne_dummy (h : Ready crates xdr draws client wallet recipient keys notes)
    (hx : x ∈ notes) (hs : Spends wallet s x) :
    s.nullifier ≠ (dummyInput wallet (draws.dummy 1)).nullifier := by
  intro heq
  have hnullifier := h.nullifier_eq hx hs
  rw [heq] at hnullifier
  exact h.fresh x hx hnullifier.symm

theorem Ready.nullifier_ne (h : Ready crates xdr draws client wallet recipient keys notes)
    (hxy : [x, y].Subperm notes) (hs : Spends wallet s x) (ht : Spends wallet t y) :
    s.nullifier ≠ t.nullifier := by
  intro heq
  have hx := h.nullifier_eq (hxy.subset List.mem_cons_self) hs
  have hy := h.nullifier_eq (hxy.subset (List.mem_cons_of_mem _ List.mem_cons_self)) ht
  rw [heq, hy] at hx
  obtain ⟨l, hperm, hsub⟩ := hxy
  have hpair : ([x, y].map (·.nullifier)).Nodup :=
    (hperm.map _).nodup_iff.mp (h.distinct.sublist (hsub.map _))
  exact List.rel_of_pairwise_cons hpair List.mem_cons_self hx.symm

/-- The choice covers the amount whenever one note or two can. -/
theorem covers_iff (hpos : 0 < amount) :
    amount ≤ ((chooseNotes amount notes).map (·.amount)).sum ↔
      (∃ note ∈ notes, amount ≤ note.amount) ∨
        ∃ x y, [x, y].Subperm notes ∧ amount ≤ x.amount + y.amount :=
  Selection.covers_iff hpos

/-- **One note pays**: the smallest that can. -/
theorem Ready.pays_one (h : Ready crates xdr draws client wallet recipient keys notes)
    (laws : crates.Lawful) (hpos : 0 < amount) (hone : ∃ note ∈ notes, amount ≤ note.amount) :
    ∃ note ∈ notes, amount ≤ note.amount ∧
      (∀ other ∈ notes, amount ≤ other.amount → note.amount ≤ other.amount) ∧
      ∃ input tx ext, pay crates xdr draws client wallet recipient amount = .ok (tx, ext) ∧
        Spends wallet input note ∧
        Pays wallet keys amount input (dummyInput wallet (draws.dummy 1)) tx := by
  obtain ⟨root, r, hroot, hserved⟩ := h.served
  obtain ⟨note, hnote, hchoose, henough, hsmallest⟩ :=
    Selection.choose_of_covering (w := fun note : Owned => note.amount) hone
  obtain ⟨input, hinput, hspends⟩ := hserved note hnote
  have hamount := hspends.amount
  have hchosen : chooseNotes amount notes = [note] := hchoose
  have hsum : ((chooseNotes amount notes).map (·.amount)).sum = input.amount + 0 := by
    rw [hchosen, List.map_singleton, List.sum_singleton, hamount, Nat.add_zero]
  have hspend := spendNotes_one draws.dummy hinput hroot
  rw [← hchosen] at hspend
  obtain ⟨tx, ext, hpay, hpays⟩ := h.pay_ok laws hpos hsum (by omega) hspend
  exact ⟨note, hnote, henough, hsmallest, input, tx, ext, hpay, hspends, hpays⟩

/-- **Two notes pay.** -/
theorem Ready.pays_two (h : Ready crates xdr draws client wallet recipient keys notes)
    (laws : crates.Lawful) (hpos : 0 < amount) (hnone : ∀ note ∈ notes, note.amount < amount)
    (hcovers : amount ≤ ((chooseNotes amount notes).map (·.amount)).sum) :
    ∃ x y, [x, y].Subperm notes ∧
      ∃ s t tx ext, pay crates xdr draws client wallet recipient amount = .ok (tx, ext) ∧
        Spends wallet s x ∧ Spends wallet t y ∧ Pays wallet keys amount s t tx := by
  obtain ⟨root, r, hroot, hserved⟩ := h.served
  have hlen : 2 ≤ notes.length := by
    obtain ⟨note, hnote, hle⟩ | ⟨p, q, hpq, -⟩ := (covers_iff hpos).mp hcovers
    · exact absurd hle (not_le.mpr (hnone note hnote))
    · exact hpq.length_le
  obtain ⟨x, y, hchoose, hsub, -⟩ :=
    Selection.choose_pair (w := fun note : Owned => note.amount) hnone hlen
  obtain ⟨s, hs, hspends⟩ := hserved x (hsub.subset List.mem_cons_self)
  obtain ⟨t, ht, hspendt⟩ := hserved y (hsub.subset (List.mem_cons_of_mem _ List.mem_cons_self))
  have hchosen : chooseNotes amount notes = [x, y] := hchoose
  have hsum : ((chooseNotes amount notes).map (·.amount)).sum = s.amount + t.amount := by
    rw [hchosen, List.map_cons, List.map_singleton, List.sum_cons, List.sum_singleton,
      hspends.amount, hspendt.amount]
  have hspend := spendNotes_two draws.dummy hs ht hroot
  rw [← hchosen] at hspend
  obtain ⟨tx, ext, hpay, hpays⟩ := h.pay_ok laws hpos hsum (hsum ▸ hcovers) hspend
  exact ⟨x, y, hsub, s, t, tx, ext, hpay, hspends, hspendt, hpays⟩

/-- The payment and the change, and nothing lost between inputs and outputs. -/
theorem Pays.outputs {tx : Transaction} (h : Pays wallet keys amount s t tx) :
    (tx.outputs.1.amount = amount ∧ scalar keys.noteKey = .ok tx.outputs.1.publicKey) ∧
    (tx.outputs.2.amount = tx.inputs.1.amount + tx.inputs.2.amount - amount ∧
      tx.outputs.2.publicKey = wallet.notePublicKey) ∧
    (tx.extAmount = 0 ∧ tx.inputs.1.amount + tx.inputs.2.amount =
      tx.outputs.1.amount + tx.outputs.2.amount) := by
  have hchange := h.change
  have henough := h.enough
  rw [h.inputs, h.payment]
  exact ⟨⟨rfl, h.payee⟩, ⟨hchange, h.changeKey⟩, h.transfer, by dsimp only; omega⟩

/-- **The client accepts the transaction.** -/
theorem Pays.accepted {tx : Transaction} (h : Pays wallet keys amount s t tx)
    (hs : s.pathElements.length = levels) (ht : t.pathElements.length = levels)
    (hne : s.nullifier ≠ t.nullifier) :
    ∃ inputs, PolicyFixture.transactionInputs tx = .ok inputs := by
  obtain ⟨-, -, htransfer, hbalance⟩ := h.outputs
  have hfits := h.fits
  rw [h.inputs] at hbalance
  refine PolicyFixture.Accepted.transactionInputs ⟨?_, ?_, ?_, ?_, ?_, ?_, h.member1, h.member2⟩
  · rwa [h.inputs]
  · rwa [← hbalance]
  · rw [h.inputs, htransfer]
    omega
  · rwa [h.inputs]
  · rwa [h.inputs]
  · rwa [h.inputs]

/-- **Which payments reach the prover.** -/
theorem Ready.reaches_iff (h : Ready crates xdr draws client wallet recipient keys notes)
    (laws : crates.Lawful) (hpos : 0 < amount) :
    (∃ tx ext, pay crates xdr draws client wallet recipient amount = .ok (tx, ext)) ↔
      amount ≤ ((chooseNotes amount notes).map (·.amount)).sum := by
  constructor
  · rintro ⟨tx, ext, hpay⟩
    by_contra hless
    rw [h.pay_insufficient hpos (not_le.mp hless)] at hpay
    cases hpay
  · intro hcovers
    by_cases hone : ∃ note ∈ notes, amount ≤ note.amount
    · obtain ⟨-, -, -, -, -, tx, ext, hpay, -⟩ := h.pays_one laws hpos hone
      exact ⟨tx, ext, hpay⟩
    · push Not at hone
      obtain ⟨-, -, -, -, -, tx, ext, hpay, -⟩ := h.pays_two laws hpos hone hcovers
      exact ⟨tx, ext, hpay⟩

end Ready

/-- **Coin selection pays whenever two notes can.** -/
theorem coin_selection_pays {crates : Primitives} {xdr : XdrCrates} {draws : Draws}
    {client : Client} {wallet : Wallet} {recipient : String} {keys : PublicKey}
    {notes : List Owned} (laws : crates.Lawful)
    (h : Ready crates xdr draws client wallet recipient keys notes) {amount : Nat}
    (hpos : 0 < amount) :
    -- it reaches the prover exactly if one note or two can pay
    ((∃ tx ext, pay crates xdr draws client wallet recipient amount = .ok (tx, ext)) ↔
      (∃ note ∈ notes, amount ≤ note.amount) ∨
        ∃ x y, [x, y].Subperm notes ∧ amount ≤ x.amount + y.amount) ∧
    ∀ tx ext, pay crates xdr draws client wallet recipient amount = .ok (tx, ext) →
      -- one note if one can, the smallest; the other slot is worth nothing
      ((∃ note ∈ notes, amount ≤ note.amount) → ∃ note ∈ notes, amount ≤ note.amount ∧
        (∀ other ∈ notes, amount ≤ other.amount → note.amount ≤ other.amount) ∧
        Spends wallet tx.inputs.1 note ∧ tx.inputs.2 = dummyInput wallet (draws.dummy 1) ∧
        tx.inputs.2.amount = 0) ∧
      -- two otherwise
      ((∀ note ∈ notes, note.amount < amount) → ∃ x y, [x, y].Subperm notes ∧
        Spends wallet tx.inputs.1 x ∧ Spends wallet tx.inputs.2 y) ∧
      -- the payment and the change, and nothing lost
      (tx.outputs.1.amount = amount ∧ scalar keys.noteKey = .ok tx.outputs.1.publicKey) ∧
      (tx.outputs.2.amount = tx.inputs.1.amount + tx.inputs.2.amount - amount ∧
        tx.outputs.2.publicKey = wallet.notePublicKey) ∧
      (tx.extAmount = 0 ∧ tx.inputs.1.amount + tx.inputs.2.amount =
        tx.outputs.1.amount + tx.outputs.2.amount) ∧
      ∃ inputs, PolicyFixture.transactionInputs tx = .ok inputs := by
  refine ⟨(h.reaches_iff laws hpos).trans (covers_iff hpos), fun tx ext hpay => ?_⟩
  by_cases hone : ∃ note ∈ notes, amount ≤ note.amount
  · obtain ⟨note, hnote, henough, hsmallest, input, tx', ext', hpay', hspends, hpays⟩ :=
      h.pays_one laws hpos hone
    obtain ⟨rfl, rfl⟩ := Prod.mk.inj (Except.ok.inj (hpay'.symm.trans hpay))
    obtain ⟨hpayment, hchange, hbalance⟩ := hpays.outputs
    have haccepted := hpays.accepted hspends.path (List.length_replicate ..)
      (h.nullifier_ne_dummy hnote hspends)
    refine ⟨fun _ => ⟨note, hnote, henough, hsmallest, ?_⟩, fun hnone => ?_, hpayment, hchange,
      hbalance, haccepted⟩
    · rw [hpays.inputs]
      exact ⟨hspends, rfl, rfl⟩
    · exact absurd henough (not_le.mpr (hnone note hnote))
  · have hnone : ∀ note ∈ notes, note.amount < amount := by
      push Not at hone
      exact hone
    obtain ⟨x, y, hsub, s, t, tx', ext', hpay', hspends, hspendt, hpays⟩ :=
      h.pays_two laws hpos hnone ((h.reaches_iff laws hpos).mp ⟨tx, ext, hpay⟩)
    obtain ⟨rfl, rfl⟩ := Prod.mk.inj (Except.ok.inj (hpay'.symm.trans hpay))
    obtain ⟨hpayment, hchange, hbalance⟩ := hpays.outputs
    have haccepted := hpays.accepted hspends.path hspendt.path (h.nullifier_ne hsub hspends hspendt)
    refine ⟨fun hcan => absurd hcan hone, fun _ => ⟨x, y, hsub, ?_⟩, hpayment, hchange, hbalance,
      haccepted⟩
    rw [hpays.inputs]
    exact ⟨hspends, hspendt⟩

/-! ### Fifty out of forty and twenty-five -/

/-- The keys of the secret 3, with the note key of the private key 2. -/
def sampleRecipient : PublicKey where
  encryptionKey := Api.hex (sampleCrates.publicKey (sampleSecret 3)).toList
  noteKey := scalarHex (PolicyFixture.derivePublicKey (2 : Nat))

def sampleDraws : Draws where
  dummy _ := (11 : Nat)
  payment := ⟨(8 : Nat), sampleSecret 4⟩
  change := ⟨(12 : Nat), sampleSecret 6⟩

/-- The external data of the payment as the host encodes it: 50 sealed to the recipient and 15 back
to Bob. -/
def payXdr : List UInt8 :=
  let payment := sampleSealed
    0x96582653af5bcc05d342e2190080df20b66a032123fc52894278580026702753
    0x475142a4e995a19f3390dc09ced0eedfacc2dc9828e922c1832ec23fb2a25b3d
    0x52fa8bfc4e21560e44858dc344c0523a
  let change := sampleSealed
    0x9b56b33f1b7f4bbe5d03f716acfc8f659c99727957d4b05f580a2c9b2bf69858
    0x1318be4ec4fe59df6708346b2714e32737c1b13332ae07006b2232add345cced
    0x184c090f77931cd809aa34f73d78f146
  xdr (.ofStruct (ExtData.fields ⟨depositRecipient, 0,
    2 :: ((sampleCrates.publicKey (sampleSecret 4)).toList ++ payment),
    2 :: ((sampleCrates.publicKey (sampleSecret 6)).toList ++ change)⟩))

/-- The client's crates, with the digest of this payment. -/
def payCrates : XdrCrates :=
  { depositCrates with
    keccak256 := fun bytes =>
      if bytes = payXdr then
        .ofNatBE 32 0xea273c0a624370c5f55b7352694a87ce5be37f80e6afc1b01551dbdae9c67d54
      else depositCrates.keccak256 bytes }

/-- The wallet's leaf is the only one. -/
def enrolledEmitted : List EmittedEvent :=
  (ASPMembership.addedEvents levels
    [(PolicyFixture.membershipLeaf sampleWallet.notePublicKey).val]).map fun event =>
      ⟨.firstOperation 1 0, .contract 2, event.encode⟩

def enrolledDb : Database where
  index :=
    { events := enrolledEmitted.map fun e => ⟨e, 1, .rpc, "LeafAdded"⟩
      tables := Tables.of enrolledEmitted
      checkpoint := fun _ => none }
  verifiedState := fun _ => some ⟨1, levels, 1, 0, false, true⟩

theorem indexes_enrolled : Api.Indexes enrolledDb (.contract 2) (ASPMembership.addedEvents levels
    [(PolicyFixture.membershipLeaf sampleWallet.notePublicKey).val]) where
  sound :=
    { once := List.nodup_singleton _
      storable := fun e he => by
        obtain rfl := List.mem_singleton.mp he
        exact ⟨by decide, by decide, by decide, rfl⟩
      tables := rfl }
  events := ⟨enrolledEmitted, List.Perm.of_eq rfl, List.pairwise_singleton _ _, rfl⟩

/-- The wallet gets its membership. -/
theorem enrolled_membership {strkey : Strkey} {base : String} {backend : Backend} {requests : Nat}
    (hdb : ∀ leaf, backend.allowlistPath leaf = some enrolledDb) :
    ∃ m, membership (Service.over strkey base Network.operatorContracts backend requests).toClient
      sampleWallet = .ok m ∧ m.pathElements.length = levels := by
  set leaf := PolicyFixture.membershipLeaf sampleWallet.notePublicKey with hleaf
  have hfield : ∀ x ∈ [leaf.val], x < bn256Modulus := by
    intro x hx
    obtain rfl := List.mem_singleton.mp hx
    exact ZMod.val_lt leaf
  have hfit : [leaf.val].length ≤ 2 ^ levels := by decide
  have htyped := Api.typed_addedEvents (by decide) hfield hfit
  have hindexes : Api.Indexes enrolledDb (.contract 2)
      (ASPMembership.addedEvents levels [leaf.val] ++ []) := indexes_enrolled
  obtain ⟨rows, rest, hstores, htells, hrest⟩ := hindexes.rows htyped
  rw [hrest rfl, List.append_nil] at hstores
  have hparse : Api.parseU256 (scalarHex leaf) "leaf" = .ok leaf.val := by
    rw [scalarHex_eq]
    exact Api.parseU256_displayU256 (Network.lt_two_pow_of_lt (ZMod.val_lt leaf)) "leaf"
  obtain ⟨proof, hpath, -, hlength, -⟩ := Api.allowlistPath_member Circuit.Circomlib.standard
    (by decide) (by decide) hfield hfit rfl hstores htells hparse List.mem_cons_self
  have hserved : (Service.over strkey base Network.operatorContracts backend requests).allowlistPath
      (scalarHex leaf) =
        .ok (some (.ofApi (Api.merklePath proof (Api.indexedLedger enrolledDb)))) :=
    allowlistPath_eq_some.mpr ⟨enrolledDb, _, hdb _, hpath, rfl⟩
  refine ⟨⟨proof.siblings, proof.index, proof.root⟩, ?_, hlength⟩
  rw [membership, ← hleaf, hserved, ok_bind, okOr_some, ok_bind, pathScalars_ofApi, ok_bind,
    scalar_root_ofApi, ok_bind]
  rfl

/-- The API, on one database and on the allowlist with Bob's leaf. -/
def payService (db : Database) : Service :=
  .over Network.unaryStrkey "" Network.operatorContracts (.same db (some enrolledDb)) 3

/-- Bob's notes of 40 and of 25, at the leaves 0 and 1. -/
def owned40 : Owned :=
  ⟨0, 40, (7 : Nat), scalarHex (nullifierOf sampleWallet (noteFor draw40 40) 0)⟩

def owned25 : Owned :=
  ⟨1, 25, (9 : Nat), scalarHex (nullifierOf sampleWallet (noteFor draw25 25) 1)⟩

/-- The two leaves. -/
def bothLeaves : List (Nat × F) :=
  [(0, (noteFor draw40 40).commitment), (1, (noteFor draw25 25).commitment)]

/-- **The database shows both notes**, unspent and as the only leaves of a tree of the circuit's
depth, and the recipient's keys. -/
def showsBoth (db : Database) : Bool :=
  okAnd (Api.Routes.notes db (.contract 1) ⟨some 0, some 1000⟩) (fun page =>
    page.items.map Note.ofApi =
      [⟨0, scalarHex (noteFor draw40 40).commitment, Api.hex (sealedFor draw40 40)⟩,
       ⟨1, scalarHex (noteFor draw25 25).commitment, Api.hex (sealedFor draw25 25)⟩] ∧
    page.nextCursor = none) &&
  Api.nullifier db (.contract 1) (nullifierOf sampleWallet (noteFor draw40 40) 0).val = none &&
  Api.nullifier db (.contract 1) (nullifierOf sampleWallet (noteFor draw25 25) 1).val = none &&
  okAnd (Api.levels db (.contract 1)) (fun depth => depth = levels) &&
  okAnd (Api.asTree (Api.poolLeaves db (.contract 1) 0 none)) (fun tree => tree = bothLeaves) &&
  okAnd (Api.Routes.publicKey Network.unaryStrkey db (.contract 1) "GAAAAAAA") fun keys =>
    PublicKey.ofApi keys = sampleRecipient

/-- What is sealed has the format's length. -/
theorem length_of_newNote {draw : Draw} {publicKey : F} {encryptionKey : Bytes 32} {amount : Nat}
    {note : PolicyFixture.CreatedNote × List UInt8}
    (h : newNote sampleCrates draw publicKey encryptionKey amount = .ok note) :
    note.2.length = 113 := by
  obtain ⟨created, encrypted⟩ := note
  obtain ⟨-, hencrypt⟩ := newNote_eq_ok.mp h
  obtain ⟨-, sealed, hsealed, rfl⟩ := NoteCrypto.encrypt_eq_ok.mp hencrypt
  obtain ⟨sealed', hsealed', hlen⟩ :=
    sampleCrates_lawful.seals _ _ _ _ (List.Vector.toList_length _)
  obtain rfl := Option.some.inj (hsealed'.symm.trans hsealed)
  rw [List.length_cons, List.length_append, List.Vector.toList_length, hlen]

section ShowsBoth

variable {db : Database}

/-- The scan finds the two. -/
theorem scan_of_showsBoth {page : Api.NotePage}
    (hpage : Api.Routes.notes db (.contract 1) ⟨some 0, some 1000⟩ = .ok page)
    (hitems : page.items.map Note.ofApi =
      [⟨0, scalarHex (noteFor draw40 40).commitment, Api.hex (sealedFor draw40 40)⟩,
       ⟨1, scalarHex (noteFor draw25 25).commitment, Api.hex (sealedFor draw25 25)⟩])
    (hend : page.nextCursor = none)
    (h40 : Api.nullifier db (.contract 1) (nullifierOf sampleWallet (noteFor draw40 40) 0).val =
      none)
    (h25 : Api.nullifier db (.contract 1) (nullifierOf sampleWallet (noteFor draw25 25) 1).val =
      none) :
    scan sampleCrates (payService db).toClient sampleWallet = .ok [owned40, owned25] := by
  have hlisted : (payService db).notes 0 = .ok (page.items.map Note.ofApi) := by
    have hserved : notePage "" Network.operatorContracts (.same db (some enrolledDb)) 0 (some 0) =
        .ok (page.items.map Note.ofApi, none) :=
      notePage_eq_ok.mpr ⟨db, page, rfl, hpage, rfl, hend.symm⟩
    show notes "" Network.operatorContracts (.same db (some enrolledDb)) 3 0 = _
    rw [notes, Paging.collect, hserved]
    rfl
  have hunspent : ∀ {v : F}, Api.nullifier db (.contract 1) v.val = none →
      (payService db).isSpent (scalarHex v) = .ok false := by
    intro v hv
    rw [payService, isSpent_scalarHex rfl]
    exact congrArg (Except.ok ∘ Option.isSome) hv
  have hfound40 := openNote_eq_some.mpr (found_of_newNote sampleCrates_lawful (by decide)
    (by decide) agree_draw40 (newNote_sealedFor agree_draw40 40) (hunspent h40))
  have hfound25 := openNote_eq_some.mpr (found_of_newNote sampleCrates_lawful (by decide)
    (by decide) agree_draw25 (newNote_sealedFor agree_draw25 25) (hunspent h25))
  rw [hitems] at hlisted
  rw [scan, hlisted, ok_bind, scanNotes, hfound40, ok_bind, scanNotes, hfound25]
  rfl

/-- Both paths lead to one root. -/
theorem paths_of_showsBoth (hlevels : Api.levels db (.contract 1) = .ok levels)
    (htree : Api.asTree (Api.poolLeaves db (.contract 1) 0 none) = .ok bothLeaves) :
    ∃ root, (∃ r, scalar root = .ok r) ∧ ∀ note ∈ [owned40, owned25], ∃ path pathElements,
      (payService db).poolPath note.leafIndex = .ok path ∧ path.root = root ∧
        pathScalars path = .ok pathElements ∧ pathElements.length = levels := by
  have hfits : Tree.Fits levels bothLeaves := ⟨by decide, by decide⟩
  refine ⟨scalarHex (Merkle.nodeAt compress (Tree.leafAt bothLeaves) levels 0),
    ⟨_, scalar_scalarHex _⟩, fun note hnote => ?_⟩
  obtain ⟨leaf, hleaf⟩ : ∃ leaf, (note.leafIndex, leaf) ∈ bothLeaves := by
    rcases List.mem_pair.mp hnote with rfl | rfl
    · exact ⟨_, List.mem_cons_self⟩
    · exact ⟨_, List.mem_cons_of_mem _ List.mem_cons_self⟩
  obtain ⟨proof, hproof, hlength, hroot⟩ :=
    Api.poolPath_served hlevels htree (by decide) (by decide) hfits hleaf
  have hpath : (payService db).poolPath note.leafIndex =
      .ok (.ofApi (Api.merklePath proof (Api.indexedLedger db))) :=
    poolPath_eq_ok.mpr ⟨db, _, rfl, hproof, rfl⟩
  refine ⟨_, _, hpath, ?_, pathScalars_ofApi _ _, hlength⟩
  rw [← hroot, scalarHex_eq]
  rfl

/-- **Bob can pay out of both.** -/
theorem ready_of_showsBoth (h : showsBoth db = true) :
    Ready sampleCrates payCrates sampleDraws (payService db).toClient sampleWallet "GAAAAAAA"
      sampleRecipient [owned40, owned25] := by
  simp only [showsBoth, Bool.and_eq_true, decide_eq_true_eq] at h
  obtain ⟨⟨⟨⟨⟨hpage, h40⟩, h25⟩, hlevels⟩, htree⟩, hkeys⟩ := h
  obtain ⟨page, hpage, hlisted⟩ := okAnd_eq_true.mp hpage
  obtain ⟨hitems, hend⟩ := of_decide_eq_true hlisted
  obtain ⟨depth, hlevels, hdepth⟩ := okAnd_eq_true.mp hlevels
  obtain rfl := of_decide_eq_true hdepth
  obtain ⟨tree, htree, hleaves⟩ := okAnd_eq_true.mp htree
  obtain rfl := of_decide_eq_true hleaves
  obtain ⟨keys, hkeys, hread⟩ := okAnd_eq_true.mp hkeys
  exact
    { scanned := scan_of_showsBoth hpage hitems hend h40 h25
      total := by decide
      paths := paths_of_showsBoth hlevels htree
      published := by
        rw [← of_decide_eq_true hread]
        exact publicKey_eq_some rfl hkeys
      noteKey := ⟨_, scalar_scalarHex _⟩
      encryptionKey := ⟨_, hex32_hex _, by decide +kernel⟩
      ownKey := by decide +kernel
      enrolled := enrolled_membership fun _ => rfl
      hashed := by
        intro noteKey encryptionKey paid left payment change _ _ hpayment hchange
        have htext : payCrates.scAddressFromStr sampleWallet.address =
            some depositRecipient.toSc := by
          simp [payCrates, depositCrates, sampleWallet, depositText]
        refine hash_ok htext ?_ ?_ fun _ => rfl
        · exact (length_of_newNote hpayment).trans_le (by decide)
        · exact (length_of_newNote hchange).trans_le (by decide)
      distinct := by
        have hne : nullifierOf sampleWallet (noteFor draw40 40) 0 ≠
            nullifierOf sampleWallet (noteFor draw25 25) 1 := by decide +kernel
        exact List.nodup_cons.mpr ⟨fun hmem => hne (scalarHex_inj (List.mem_singleton.mp hmem)),
          List.nodup_singleton _⟩
      fresh := by
        have hne : nullifierOf sampleWallet (noteFor draw40 40) 0 ≠
              (dummyInput sampleWallet (sampleDraws.dummy 1)).nullifier ∧
            nullifierOf sampleWallet (noteFor draw25 25) 1 ≠
              (dummyInput sampleWallet (sampleDraws.dummy 1)).nullifier := by decide +kernel
        intro note hnote
        rcases List.mem_pair.mp hnote with rfl | rfl
        · exact fun heq => hne.1 (scalarHex_inj heq)
        · exact fun heq => hne.2 (scalarHex_inj heq) }

end ShowsBoth

/-- A database with Bob's notes and the keys of the account 7. -/
def payDb : Database :=
  outputsDb (bothLeaves.map Prod.snd |>.zip [sealedFor draw40 40, sealedFor draw25 25]) []
    [⟨.firstOperation 69 0, .contract 1, .account 7,
      (sampleCrates.publicKey (sampleSecret 3)).toList,
      (scalarToBeBytes (PolicyFixture.derivePublicKey (2 : Nat))).toList, 69⟩]

/-- Neither note covers 50.  The two together do, and 15 come back. -/
theorem coin_selection_pays_fifty : ∃ tx ext,
    pay sampleCrates payCrates sampleDraws (payService payDb).toClient sampleWallet "GAAAAAAA" 50 =
      .ok (tx, ext) ∧
    (∃ x y, [x, y].Subperm [owned40, owned25] ∧ Spends sampleWallet tx.inputs.1 x ∧
      Spends sampleWallet tx.inputs.2 y) ∧
    tx.outputs.1.amount = 50 ∧ tx.inputs.1.amount + tx.inputs.2.amount =
      tx.outputs.1.amount + tx.outputs.2.amount ∧
    ∃ inputs, PolicyFixture.transactionInputs tx = .ok inputs := by
  have hshows : showsBoth payDb = true := by decide +kernel
  have hpos : 0 < 50 := by decide
  obtain ⟨hreaches, hall⟩ :=
    coin_selection_pays sampleCrates_lawful (ready_of_showsBoth hshows) hpos
  obtain ⟨tx, ext, hpay⟩ := hreaches.mpr (.inr ⟨owned40, owned25, .refl _, by decide⟩)
  obtain ⟨-, htwo, ⟨hpayment, -⟩, -, ⟨-, hbalance⟩, haccepted⟩ := hall tx ext hpay
  exact ⟨tx, ext, hpay, htwo (by decide), hpayment, hbalance, haccepted⟩

end Demo

end Veil
