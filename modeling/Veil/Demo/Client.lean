/-
# The demo's wallet and its view of the API

`tools/demo/src/wallet.rs` and `api.rs`, and the texts of `flows.rs`.  Everything the demo learns
about the pool comes through the API, as text: numbers are `0x` and hexadecimal digits.

The HTTP client is a record of what the API's endpoints answer (`Client`).  The texts the API
itself writes (`Api.hex`, `Verify.displayU256`) are read back here: `bytesOfHex_hex`,
`scalar_scalarHex` and `scalarHex_eq`.
-/
import Veil.Api.AllowlistPath
import Veil.Circuit.Prover
import Veil.Demo.NoteCrypto

namespace Veil

open Tx

namespace Demo

/-! ## 1. Errors -/

/-- Why a step of the demo stops. -/
inductive DemoError where
  /-- A request failed. -/
  | request (message : String)
  /-- The error of `hex::decode`. -/
  | notHex
  | notBytes (value : String)
  | note (error : NoteCrypto.NoteError)
  | notEnrolled (name : String)
  | amountNotPositive
  | notPublished (recipient : String)
  | notesOverflow
  | insufficient (available amount : Nat)
  | poolMoved
  | changeUnderflows
  | twoInputs
  | notAddress (recipient : String)
  | badSymbol (key : String)
  /-- More bytes than a length of 32 bits counts. -/
  | tooLong
  /-- The error of the XDR crate. -/
  | xdr
  /-- An index out of bounds. -/
  | panicked
  deriving DecidableEq, Repr

/-- The text, where it is not a crate's. -/
def DemoError.message : DemoError → Option String
  | .request message => message
  | .notHex => none
  | .notBytes value => s!"{value} is not 32 bytes"
  | .note error => error.message
  | .notEnrolled name => s!"{name} is not on the allowlist yet: run `veil-demo enroll`"
  | .amountNotPositive => "the amount must be positive"
  | .notPublished recipient => s!"{recipient} has not published receiving keys"
  | .notesOverflow => "note amounts overflow"
  | .insufficient available amount =>
    s!"the wallet holds {available} stroops privately, less than {amount}"
  | .poolMoved => "the pool moved while reading paths, try again"
  | .changeUnderflows => "change underflows"
  | .twoInputs => "two inputs expected"
  | .notAddress recipient => s!"{recipient} is not an address"
  | .badSymbol key => s!"bad symbol {key}"
  | .tooLong => none
  | .xdr => none
  | .panicked => none

/-! ## 2. Texts -/

/-- `trim_start_matches("0x")`. -/
def trimHex : List Char → List Char
  | '0' :: 'x' :: text => trimHex text
  | text => text

/-- `hex::decode`. -/
def hexDecode : List Char → Option (List UInt8)
  | [] => some []
  | [_] => none
  | high :: low :: text => do
    let high ← Digits.hexValue high
    let low ← Digits.hexValue low
    let bytes ← hexDecode text
    some (UInt8.ofNat (16 * high + low) :: bytes)

def bytesOfHex (value : String) : Except DemoError (List UInt8) :=
  okOr (hexDecode (trimHex value.toList)) .notHex

def hex32 (value : String) : Except DemoError (Bytes 32) := do
  let bytes ← bytesOfHex value
  okOr (Bytes.tryInto 32 bytes) (.notBytes value)

def scalarFromBeBytes (bytes : Bytes 32) : F := (Bytes.toNatBE bytes.toList : F)

def scalarToBeBytes (value : F) : Bytes 32 := Bytes.ofNatBE 32 value.val

def scalar (value : String) : Except DemoError F := do
  let bytes ← hex32 value
  .ok (scalarFromBeBytes bytes)

def scalarHex (value : F) : String := Api.hex (scalarToBeBytes value).toList

/-- The amount in the low 16 of 32 bytes. -/
def amountBytes (amount : Nat) : Bytes 32 := Bytes.ofNatBE 16 0 ++ Bytes.ofNatBE 16 amount

/-! ## 3. The wallet and the API -/

structure Wallet where
  name : String
  address : String
  notePrivateKey : F
  encryptionSecret : Bytes 32

namespace Wallet

def notePublicKey (wallet : Wallet) : F := PolicyFixture.derivePublicKey wallet.notePrivateKey

def encryptionKey (crates : NoteCrypto.Primitives) (wallet : Wallet) : Bytes 32 :=
  crates.publicKey wallet.encryptionSecret

end Wallet

/-- A note as the client reads it. -/
structure Note where
  leafIndex : Nat
  commitment : String
  encryptedOutput : String
  deriving DecidableEq, Repr

/-- The fields the client reads of a note the API serves. -/
def Note.ofApi (note : Api.Note) : Note := ⟨note.leafIndex, note.commitment, note.encryptedOutput⟩

/-- A path as the client reads it. -/
structure Path where
  leafIndex : Nat
  leaf : String
  pathElements : List String
  pathIndices : Nat
  root : String
  deriving DecidableEq, Repr

structure PublicKey where
  encryptionKey : String
  noteKey : String
  deriving DecidableEq, Repr

/-- **The API**, as the client's methods see it. -/
structure Client where
  /-- Every note from the cursor on. -/
  notes : (cursor : Nat) → Except DemoError (List Note)
  isSpent : (nullifier : String) → Except DemoError Bool
  poolPath : (leafIndex : Nat) → Except DemoError Path
  /-- `none` on 404. -/
  allowlistPath : (leaf : String) → Except DemoError (Option Path)
  publicKey : (owner : String) → Except DemoError (Option PublicKey)

/-! ## 4. What the texts stand for -/

theorem trimHex_of_forall_ne : ∀ {text : List Char}, (∀ c ∈ text, c ≠ 'x') → trimHex text = text
  | [], _ => rfl
  | [c], _ => by
    unfold trimHex
    split
    · next h => cases h
    · rfl
  | c :: d :: text, h => by
    have hd : d ≠ 'x' := h d (List.mem_cons_of_mem _ List.mem_cons_self)
    unfold trimHex
    split
    · next heq =>
      injection heq with _ heq
      injection heq with heq _
      exact absurd heq hd
    · rfl

theorem hexDigits_two (value : Nat) : Digits.hexDigits 2 value =
    [Nat.digitChar (value / 16 % 16), Nat.digitChar (value % 16)] := rfl

theorem hexDecode_flatMap : ∀ bytes : List UInt8,
    hexDecode (bytes.flatMap fun byte => Digits.hexDigits 2 byte.toNat) = some bytes
  | [] => rfl
  | byte :: bytes => by
    have hhigh := Digits.hexValue_digitChar (byte.toNat / 16 % 16) (Nat.mod_lt _ (by decide))
    have hlow := Digits.hexValue_digitChar (byte.toNat % 16) (Nat.mod_lt _ (by decide))
    have hbyte : 16 * (byte.toNat / 16 % 16) + byte.toNat % 16 = byte.toNat := by
      have := byte.toNat_lt
      omega
    rw [List.flatMap_cons, hexDigits_two, List.cons_append, List.cons_append, List.nil_append,
      hexDecode, hhigh, hlow, hexDecode_flatMap bytes]
    show some (UInt8.ofNat (16 * (byte.toNat / 16 % 16) + byte.toNat % 16) :: bytes) = _
    rw [hbyte, UInt8.ofNat_toNat]

/-- **The bytes the API writes are the bytes read.** -/
theorem bytesOfHex_hex (bytes : List UInt8) : bytesOfHex (Api.hex bytes) = .ok bytes := by
  have hdigits : ∀ c ∈ bytes.flatMap fun byte => Digits.hexDigits 2 byte.toNat, c ≠ 'x' := by
    rintro c hc rfl
    obtain ⟨byte, -, hc⟩ := List.mem_flatMap.mp hc
    exact absurd (Digits.hexValue_of_mem hc) (by decide)
  rw [bytesOfHex, Api.hex, String.toList_ofList, trimHex, trimHex_of_forall_ne hdigits,
    hexDecode_flatMap, okOr_some]

theorem hex32_hex (bytes : Bytes 32) : hex32 (Api.hex bytes.toList) = .ok bytes := by
  rw [hex32, bytesOfHex_hex, ok_bind, Bytes.tryInto_toList, okOr_some]

theorem val_lt_pow (value : F) : value.val < 256 ^ 32 :=
  (ZMod.val_lt value).trans (by decide)

@[simp] theorem scalarFromBeBytes_scalarToBeBytes (value : F) :
    scalarFromBeBytes (scalarToBeBytes value) = value := by
  rw [scalarFromBeBytes, scalarToBeBytes, Bytes.toNatBE_ofNatBE (val_lt_pow value),
    ZMod.natCast_zmod_val]

/-- **A scalar is read from the text written for it.** -/
theorem scalar_scalarHex (value : F) : scalar (scalarHex value) = .ok value := by
  rw [scalar, scalarHex, hex32_hex, ok_bind, scalarFromBeBytes_scalarToBeBytes]

theorem hexDigits_digitsBE : ∀ n value,
    ((Bytes.digitsBE n value).flatMap fun byte => Digits.hexDigits 2 byte.toNat) =
      Digits.hexDigits (2 * n) value
  | 0, _ => rfl
  | n + 1, value => by
    have hbyte : (UInt8.ofNat (value % 256)).toNat = value % 256 := by
      rw [UInt8.toNat_ofNat']
      omega
    have hhigh : value % 256 / 16 % 16 = value / 16 % 16 := by omega
    have hlow : value % 256 % 16 = value % 16 := by omega
    have hdiv : value / 16 / 16 = value / 256 := by omega
    rw [Bytes.digitsBE, List.flatMap_append, hexDigits_digitsBE n, List.flatMap_singleton, hbyte,
      hexDigits_two, hhigh, hlow, Nat.mul_succ, Digits.hexDigits, Digits.hexDigits, hdiv,
      List.append_assoc]
    rfl

/-- **The demo and the API write a field element alike.** -/
theorem scalarHex_eq (value : F) : scalarHex value = Verify.displayU256 value.val := by
  rw [scalarHex, Api.hex, scalarToBeBytes, Bytes.toList_ofNatBE, hexDigits_digitsBE]
  rfl

theorem scalarHex_inj {a b : F} (h : scalarHex a = scalarHex b) : a = b := by
  have := (scalar_scalarHex a).symm.trans ((congrArg scalar h).trans (scalar_scalarHex b))
  exact Except.ok.inj this

end Demo

end Veil
