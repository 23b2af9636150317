/-
# Note encryption, format v2

`tools/demo/src/note_crypto.rs`.  A note is sealed under a key that both sides derive: the sender
from a one-time secret and the recipient's public key, the recipient from their own secret and the
one-time public key, which stands in the note.

    note  =  0x02 || ephemeral public key (32) || ciphertext (64) || tag (16)

X25519, HKDF-SHA256 and ChaCha20-Poly1305 are crates and not part of the repository.  They are
parameters (`Primitives`); what the proofs use of them is `Lawful` for the cipher and `Agree` for
the two secrets of a note.

The two sides build the salt, the key, the nonce and the associated data separately, and slice
the note at positions of their own.  `decrypt_encrypt` says that all of it fits together.
-/
import Veil.Core.Bytes
import Veil.Core.Transaction

namespace Veil

open Tx

namespace NoteCrypto

/-! ## 1. The format -/

def version : UInt8 := 0x02

def noteLen : Nat := 113

/-- `veil/note/v2/chacha20poly1305`. -/
def info : List UInt8 :=
  "veil/note/v2/chacha20poly1305".toList.map fun c => UInt8.ofNat c.toNat

/-- What the crates compute. -/
structure Primitives where
  /-- The X25519 public key of a secret. -/
  publicKey : (secret : Bytes 32) → Bytes 32
  diffieHellman : (secret key : Bytes 32) → Bytes 32
  wasContributory : (shared : Bytes 32) → Bool
  /-- 44 bytes of HKDF-SHA256, far below its limit. -/
  hkdf : (salt : List UInt8) → (ikm : Bytes 32) → (info : List UInt8) → Bytes (32 + 12)
  /-- ChaCha20-Poly1305. -/
  encrypt : (key : Bytes 32) → (nonce : Bytes 12) → (msg aad : List UInt8) → Option (List UInt8)
  decrypt : (key : Bytes 32) → (nonce : Bytes 12) → (msg aad : List UInt8) → Option (List UInt8)

/-- What a note opens to: the amount and blinding behind a commitment. -/
structure Opened where
  amount : Bytes 32
  blinding : Bytes 32
  deriving DecidableEq

inductive NoteError where
  | weakKey
  | encrypt
  deriving DecidableEq, Repr

def NoteError.message : NoteError → String
  | .weakKey => "the shared secret is all zeros (a low-order key)"
  | .encrypt => "encryption failed"

/-- The key and the nonce. -/
def cipher (crates : Primitives) (shared ephemeral recipient : Bytes 32) : Bytes 32 × Bytes 12 :=
  let salt := ephemeral ++ recipient
  Bytes.split (crates.hkdf salt.toList shared info)

/-- Encrypts `opened` to `recipient`, using `ephemeral` as the one-time key. -/
def encrypt (crates : Primitives) (recipient ephemeral : Bytes 32) (opened : Opened) :
    Except NoteError (List UInt8) := do
  let ephemeralPublic := crates.publicKey ephemeral
  let shared := crates.diffieHellman ephemeral recipient
  ensure (crates.wasContributory shared = true) .weakKey
  let (key, nonce) := cipher crates shared ephemeralPublic recipient
  let plaintext := opened.amount ++ opened.blinding
  let aad := version :: ephemeralPublic.toList
  let sealed ← okOr (crates.encrypt key nonce plaintext.toList aad) .encrypt
  .ok (version :: (ephemeralPublic.toList ++ sealed))

/-- Opens `note` with the recipient's secret, or `none` if it is not a v2 note for this
recipient. -/
def decrypt (crates : Primitives) (secret : Bytes 32) (note : List UInt8) : Option Opened :=
  if note.length ≠ noteLen ∨ note.head? ≠ some version then none
  else do
    let ephemeral ← (Bytes.slice note 1 33).bind (Bytes.tryInto 32)
    let recipient := crates.publicKey secret
    let shared := crates.diffieHellman secret ephemeral
    if crates.wasContributory shared = false then none
    else do
      let (key, nonce) := cipher crates shared ephemeral recipient
      let aad ← Bytes.slice note 0 33
      let sealed ← Bytes.slice note 33 note.length
      let plaintext ← crates.decrypt key nonce sealed aad
      let amount ← (Bytes.slice plaintext 0 32).bind (Bytes.tryInto 32)
      let blinding ← (Bytes.slice plaintext 32 plaintext.length).bind (Bytes.tryInto 32)
      some ⟨amount, blinding⟩

/-! ## 2. Both sides agree -/

/-- What the crates promise of the cipher. -/
structure Primitives.Lawful (crates : Primitives) : Prop where
  /-- 64 bytes are encrypted, to as many and a tag of 16. -/
  seals : ∀ key nonce msg aad, msg.length = 64 →
    ∃ sealed, crates.encrypt key nonce msg aad = some sealed ∧ sealed.length = 64 + 16
  /-- Decryption inverts encryption under equal key, nonce and associated data. -/
  inverse : ∀ {key nonce msg aad sealed}, crates.encrypt key nonce msg aad = some sealed →
    crates.decrypt key nonce sealed aad = some msg

/-- X25519 commutes for these two secrets, and is contributory. -/
structure Primitives.Agree (crates : Primitives) (secret ephemeral : Bytes 32) : Prop where
  commutes : crates.diffieHellman ephemeral (crates.publicKey secret) =
    crates.diffieHellman secret (crates.publicKey ephemeral)
  contributory :
    crates.wasContributory (crates.diffieHellman ephemeral (crates.publicKey secret)) = true

variable {crates : Primitives} {secret ephemeral recipient : Bytes 32} {opened : Opened}
  {note sealed : List UInt8}

/-- **What encryption produces.** -/
theorem encrypt_eq_ok : encrypt crates recipient ephemeral opened = .ok note ↔
    crates.wasContributory (crates.diffieHellman ephemeral recipient) = true ∧
    ∃ sealed, crates.encrypt
        (cipher crates (crates.diffieHellman ephemeral recipient) (crates.publicKey ephemeral)
          recipient).1
        (cipher crates (crates.diffieHellman ephemeral recipient) (crates.publicKey ephemeral)
          recipient).2
        (opened.amount ++ opened.blinding).toList
        (version :: (crates.publicKey ephemeral).toList) = some sealed ∧
      note = version :: ((crates.publicKey ephemeral).toList ++ sealed) := by
  rw [encrypt]
  simp only [bind_eq_ok, ensure_eq_ok, okOr_eq_ok, exists_const, Except.ok.injEq,
    eq_comm (b := note)]

/-- **Encryption succeeds** unless the recipient's key is weak. -/
theorem encrypt_ok (laws : crates.Lawful)
    (h : crates.wasContributory (crates.diffieHellman ephemeral recipient) = true)
    (opened : Opened) : ∃ note, encrypt crates recipient ephemeral opened = .ok note := by
  obtain ⟨sealed, hsealed, -⟩ := laws.seals
    (cipher crates (crates.diffieHellman ephemeral recipient) (crates.publicKey ephemeral)
      recipient).1
    (cipher crates (crates.diffieHellman ephemeral recipient) (crates.publicKey ephemeral)
      recipient).2
    (opened.amount ++ opened.blinding).toList
    (version :: (crates.publicKey ephemeral).toList) (List.Vector.toList_length _)
  exact ⟨_, encrypt_eq_ok.mpr ⟨h, sealed, hsealed, rfl⟩⟩

/-- A note's parts, at the positions where the reader cuts it. -/
theorem slices (key : Bytes 32) (sealed : List UInt8) :
    Bytes.slice (version :: (key.toList ++ sealed)) 1 33 = some key.toList ∧
    Bytes.slice (version :: (key.toList ++ sealed)) 0 33 = some (version :: key.toList) ∧
    Bytes.slice (version :: (key.toList ++ sealed)) 33 (33 + sealed.length) = some sealed := by
  have hkey := Bytes.slice_middle [version] key.toList sealed
  have haad := Bytes.slice_middle [] (version :: key.toList) sealed
  have hsealed := Bytes.slice_middle (version :: key.toList) sealed []
  rw [List.length_singleton, key.toList_length] at hkey
  rw [List.length_nil, List.length_cons, key.toList_length] at haad
  rw [List.length_cons, key.toList_length, List.append_nil] at hsealed
  exact ⟨hkey, haad, hsealed⟩

/-- The plaintext's parts. -/
theorem plaintext_slices (opened : Opened) {plaintext : List UInt8}
    (h : plaintext = (opened.amount ++ opened.blinding).toList) :
    (Bytes.slice plaintext 0 32).bind (Bytes.tryInto 32) = some opened.amount ∧
    (Bytes.slice plaintext 32 plaintext.length).bind (Bytes.tryInto 32) = some opened.blinding := by
  subst h
  have hamount := Bytes.slice_middle [] opened.amount.toList opened.blinding.toList
  have hblinding := Bytes.slice_middle opened.amount.toList opened.blinding.toList []
  rw [List.length_nil, opened.amount.toList_length] at hamount
  rw [opened.amount.toList_length, opened.blinding.toList_length, List.append_nil] at hblinding
  rw [List.Vector.toList_length, List.Vector.toList_append]
  constructor
  · rw [← List.nil_append opened.amount.toList, hamount]
    exact Bytes.tryInto_toList _
  · rw [hblinding]
    exact Bytes.tryInto_toList _

/-- **A note opens for its recipient.** -/
theorem decrypt_encrypt (laws : crates.Lawful) (hagree : crates.Agree secret ephemeral)
    (h : encrypt crates (crates.publicKey secret) ephemeral opened = .ok note) :
    decrypt crates secret note = some opened := by
  obtain ⟨hcontributory, sealed, hsealed, rfl⟩ := encrypt_eq_ok.mp h
  have hlen : sealed.length = 80 := by
    obtain ⟨sealed', hsealed', hlen⟩ := laws.seals _ _ _ _ (List.Vector.toList_length _)
    rwa [Option.some.inj (hsealed'.symm.trans hsealed)] at hlen
  have hnote : (version :: ((crates.publicKey ephemeral).toList ++ sealed)).length =
      33 + sealed.length := by
    rw [List.length_cons, List.length_append, List.Vector.toList_length]
    omega
  obtain ⟨hkey, haad, hbody⟩ := slices (crates.publicKey ephemeral) sealed
  have hopen := laws.inverse hsealed
  obtain ⟨hamount, hblinding⟩ := plaintext_slices opened rfl
  rw [hagree.commutes] at hcontributory hopen
  have hfits : ¬((version :: ((crates.publicKey ephemeral).toList ++ sealed)).length ≠ noteLen ∨
      (version :: ((crates.publicKey ephemeral).toList ++ sealed)).head? ≠ some version) := by
    rw [hnote, hlen]
    simp [noteLen]
  rw [decrypt, if_neg hfits, hkey, Option.bind_some, Bytes.tryInto_toList, hnote]
  simp only [Option.bind_eq_bind, Option.bind_some, hcontributory, Bool.true_eq_false, if_false,
    haad, hbody, hopen, hamount, hblinding]

/-- **What opens has the format's length and version.** -/
theorem format_of_decrypt (h : decrypt crates secret note = some opened) :
    note.length = noteLen ∧ note.head? = some version := by
  unfold decrypt at h
  split at h
  · cases h
  · next hformat =>
    push Not at hformat
    exact hformat

end NoteCrypto

end Veil
