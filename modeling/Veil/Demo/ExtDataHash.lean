/-
# The hash of the external data, on both sides

`tools/demo/src/ext_data.rs` against `hash_ext_data` of `contracts/pool/src/contract.rs`.  A proof
binds a transaction's external data by `keccak256(xdr) mod p`.  The pool lets the host encode its
own struct; the client, which has no host, builds the map the struct becomes and encodes that.

Of the two encoders and the two hash functions nothing is assumed but that they agree
(`SameEncoding`): on equal values the encoders write the same bytes, and the host writes a struct as
the map of its fields in the order of their names.  What is proved is the client's part: that
the map it builds is this one (`toScval_eq`), down to the words of the amount
(`i256_eq_ofI256`), and that it reduces and writes the digest as the pool does (`rightAligned_eq`).
-/
import Veil.Core.Digits
import Veil.Demo.Client
import Veil.Indexer.Event

namespace Veil

open Tx Unsigned

/-! ## 1. The pool's side -/

/-- The value of a `#[contracttype]` struct: the map of its fields, sorted by name. -/
def ScVal.ofStruct (fields : List (String × ScVal)) : ScVal :=
  .ofFields (fields.insertionSort (·.1 ≤ ·.1))

/-- The fields of `ExtData`, as the contract declares them. -/
def ExtData.fields (data : ExtData) : List (String × ScVal) :=
  [("recipient", .ofAddress data.recipient), ("ext_amount", .ofI256 data.extAmount),
    ("encrypted_output0", .bytes data.encryptedOutput0),
    ("encrypted_output1", .bytes data.encryptedOutput1)]

/-- What the pool uses of its host. -/
structure ExtDataHost where
  toXdr : ScVal → List UInt8
  keccak256 : List UInt8 → Bytes 32

/-- An address as a value of the XDR crate. -/
def Address.toSc : Address → ScAddress
  | .account key => .account key
  | .contract hash => .contract hash

/-! ## 2. The client's side -/

namespace Demo

/-- The pool's external data for one `transact`. -/
structure ExtData where
  recipient : String
  extAmount : Int
  encryptedOutput0 : List UInt8
  encryptedOutput1 : List UInt8

/-- What the client uses of its crates: `ScAddress::from_str`, `to_xdr` and `Keccak256`. -/
structure XdrCrates where
  scAddressFromStr : String → Option ScAddress
  toXdr : ScVal → Option (List UInt8)
  keccak256 : List UInt8 → Bytes 32

/-- `MODULUS`. -/
def modulus : List Char :=
  "21888242871839275222246405745257275088548364400416034343698204186575808495617".toList

/-- A 128-bit amount, sign-extended to 256 bits. -/
def i256 (value : Int) : ScVal :=
  let high : Int64 := if value < 0 then -1 else 0
  let bytes := (Bytes.ofNatBE 16 (value % 2 ^ 128).toNat).toList
  .i256 high high.toUInt64 (.ofNat (Bytes.toNatBE (bytes.take 8)))
    (.ofNat (Bytes.toNatBE (bytes.drop 8)))

/-- An `ScSymbol` has at most 32 bytes. -/
def entry (key : String) (val : ScVal) : Except DemoError (String × ScVal) := do
  ensure (key.utf8ByteSize ≤ 32) (.badSymbol key)
  .ok (key, val)

/-- `ScBytes` are at most `u32::MAX` bytes. -/
def scBytes (value : List UInt8) : Except DemoError ScVal := do
  ensure (value.length ≤ u32Max) .tooLong
  .ok (.bytes value)

/-- The last 32 bytes, copied from the right into zeros. -/
def rightAligned (raw : List UInt8) : List UInt8 :=
  List.replicate (32 - raw.length) 0 ++ raw.drop (raw.length - 32)

theorem length_rightAligned (raw : List UInt8) : (rightAligned raw).length = 32 := by
  rw [rightAligned, List.length_append, List.length_replicate, List.length_drop]
  omega

namespace ExtData

/-- The value the contract sees, fields in sorted order. -/
def toScval (crates : XdrCrates) (ext : ExtData) : Except DemoError ScVal := do
  let recipient ← okOr (crates.scAddressFromStr ext.recipient) (.notAddress ext.recipient)
  let output0 ← scBytes ext.encryptedOutput0
  let entry0 ← entry "encrypted_output0" output0
  let output1 ← scBytes ext.encryptedOutput1
  let entry1 ← entry "encrypted_output1" output1
  let entry2 ← entry "ext_amount" (i256 ext.extAmount)
  let entry3 ← entry "recipient" (.address recipient)
  .ok (.ofFields [entry0, entry1, entry2, entry3])

/-- `keccak256(xdr) mod p`, as 32 big-endian bytes. -/
def hash (crates : XdrCrates) (ext : ExtData) : Except DemoError (Bytes 32) := do
  let val ← ext.toScval crates
  let xdr ← okOr (crates.toXdr val) .xdr
  let digest := crates.keccak256 xdr
  let reduced := Bytes.toNatBE digest.toList ^ 1 % Digits.decimal modulus
  let raw := Bytes.bytesBE reduced
  .ok ⟨rightAligned raw, length_rightAligned raw⟩

end ExtData

/-- The four keys are short enough for symbols. -/
theorem entry_ok (val : ScVal) :
    entry "encrypted_output0" val = .ok ("encrypted_output0", val) ∧
    entry "encrypted_output1" val = .ok ("encrypted_output1", val) ∧
    entry "ext_amount" val = .ok ("ext_amount", val) ∧
    entry "recipient" val = .ok ("recipient", val) := by
  have hkeys : "encrypted_output0".utf8ByteSize ≤ 32 ∧ "encrypted_output1".utf8ByteSize ≤ 32 ∧
      "ext_amount".utf8ByteSize ≤ 32 ∧ "recipient".utf8ByteSize ≤ 32 := by decide
  obtain ⟨h0, h1, h2, h3⟩ := hkeys
  simp only [entry, ensure_pos h0, ensure_pos h1, ensure_pos h2, ensure_pos h3, ok_bind, and_self]

/-- **The map the client builds.** -/
theorem toScval_ok {crates : XdrCrates} {ext : ExtData} {recipient : ScAddress}
    (hrecipient : crates.scAddressFromStr ext.recipient = some recipient)
    (h0 : ext.encryptedOutput0.length ≤ u32Max) (h1 : ext.encryptedOutput1.length ≤ u32Max) :
    ext.toScval crates = .ok (.ofFields [("encrypted_output0", .bytes ext.encryptedOutput0),
      ("encrypted_output1", .bytes ext.encryptedOutput1), ("ext_amount", i256 ext.extAmount),
      ("recipient", .address recipient)]) := by
  simp only [ExtData.toScval, hrecipient, okOr_some, ok_bind, scBytes, ensure_pos h0,
    ensure_pos h1, entry_ok]

/-- **The client's hash exists** for the text of an address and outputs of a length that fits, if
the map can be encoded. -/
theorem hash_ok {crates : XdrCrates} {ext : ExtData} {recipient : ScAddress}
    (hrecipient : crates.scAddressFromStr ext.recipient = some recipient)
    (h0 : ext.encryptedOutput0.length ≤ u32Max) (h1 : ext.encryptedOutput1.length ≤ u32Max)
    (hxdr : ∀ val, (crates.toXdr val).isSome = true) : ∃ digest, ext.hash crates = .ok digest := by
  obtain ⟨bytes, hbytes⟩ := Option.isSome_iff_exists.mp (hxdr (.ofFields
    [("encrypted_output0", .bytes ext.encryptedOutput0),
      ("encrypted_output1", .bytes ext.encryptedOutput1), ("ext_amount", i256 ext.extAmount),
      ("recipient", .address recipient)]))
  simp only [ExtData.hash, toScval_ok hrecipient h0 h1, ok_bind, hbytes, okOr_some]
  exact ⟨_, rfl⟩

/-! ## 3. What the two sides share -/

/-- **Both sides encode and digest alike.** -/
structure SameEncoding {ρ : Type} (crates : XdrCrates) (host : ExtDataHost) (ext : Externals ρ) :
    Prop where
  /-- The host digests the XDR of the struct, which it writes as the map of its fields. -/
  struct : ∀ data : Veil.ExtData, ext.keccak256Xdr data =
    Bytes.toNatBE (host.keccak256 (host.toXdr (.ofStruct data.fields))).toList
  /-- The encoders agree on equal values. -/
  xdr : ∀ val, crates.toXdr val = some (host.toXdr val)
  /-- The hash functions are the same. -/
  keccak : ∀ bytes, crates.keccak256 bytes = host.keccak256 bytes

theorem decimal_modulus : Digits.decimal modulus = bn256Modulus := by
  decide +kernel

/-- The words of an amount: those above the lowest 128 bits repeat its sign. -/
theorem i256_eq_ofI256 {value : Int} (hlo : -(2 ^ 127) ≤ value) (hhi : value < 2 ^ 127) :
    i256 value = .ofI256 value := by
  -- the low half
  have hbytes : (Bytes.ofNatBE 16 (value % 2 ^ 128).toNat).toList =
      Bytes.digitsBE 8 ((value % 2 ^ 128).toNat / 256 ^ 8) ++
        Bytes.digitsBE 8 (value % 2 ^ 128).toNat := Bytes.digitsBE_add 8 8 _
  have hloHi : (value % 2 ^ 128).toNat / 256 ^ 8 % 256 ^ 8 =
      (value / 2 ^ 64 % 2 ^ 64).toNat := by omega
  have hloLo : (value % 2 ^ 128).toNat % 256 ^ 8 = (value % 2 ^ 64).toNat := by omega
  unfold i256 ScVal.ofI256
  dsimp only
  rw [hbytes, List.take_left' (Bytes.length_digitsBE 8 _),
    List.drop_left' (Bytes.length_digitsBE 8 _), Bytes.toNatBE_digitsBE, Bytes.toNatBE_digitsBE,
    hloHi, hloLo]
  -- the high half
  by_cases hneg : value < 0
  · have hhiHi : value / 2 ^ 192 = -1 := by omega
    have hhiLo : value / 2 ^ 128 % 2 ^ 64 = 2 ^ 64 - 1 := by omega
    rw [if_pos hneg, hhiHi, hhiLo]
    rfl
  · have hhiHi : value / 2 ^ 192 = 0 := by omega
    have hhiLo : value / 2 ^ 128 % 2 ^ 64 = 0 := by omega
    rw [if_neg hneg, hhiHi, hhiLo]
    rfl

theorem rightAligned_eq {value : Nat} (h : value < 256 ^ 32) :
    rightAligned (Bytes.bytesBE value) = Bytes.digitsBE 32 value := by
  have hlen := Bytes.length_bytesBE_le (by decide) h
  rw [rightAligned, Nat.sub_eq_zero_of_le hlen, List.drop_zero,
    Bytes.replicate_append_bytesBE (by decide) h]

/-- Sorted by name, the fields stand as the client writes them. -/
theorem ofStruct_fields (data : Veil.ExtData) : ScVal.ofStruct data.fields = .ofFields
    [("encrypted_output0", .bytes data.encryptedOutput0),
      ("encrypted_output1", .bytes data.encryptedOutput1),
      ("ext_amount", .ofI256 data.extAmount), ("recipient", .ofAddress data.recipient)] := by
  have houtputs : "encrypted_output0" ≤ "encrypted_output1" := by decide
  have hamount0 : ¬"ext_amount" ≤ "encrypted_output0" := by decide
  have hamount1 : ¬"ext_amount" ≤ "encrypted_output1" := by decide
  have hrecipient0 : ¬"recipient" ≤ "encrypted_output0" := by decide
  have hrecipient1 : ¬"recipient" ≤ "encrypted_output1" := by decide
  have hrecipient : ¬"recipient" ≤ "ext_amount" := by decide
  simp only [ScVal.ofStruct, ExtData.fields, List.insertionSort, List.foldr, List.orderedInsert,
    houtputs, hamount0, hamount1, hrecipient0, hrecipient1, hrecipient, if_true, if_false]

/-- **The client builds the value the pool's struct becomes.** -/
theorem toScval_eq {crates : XdrCrates} {recipient : Address} {text : String}
    (htext : crates.scAddressFromStr text = some recipient.toSc) {amount : Int}
    (hlo : -(2 ^ 127) ≤ amount) (hhi : amount < 2 ^ 127) {output0 output1 : List UInt8}
    (h0 : output0.length ≤ u32Max) (h1 : output1.length ≤ u32Max) :
    ExtData.toScval crates ⟨text, amount, output0, output1⟩ =
      .ok (.ofStruct (ExtData.fields ⟨recipient, amount, output0, output1⟩)) := by
  have haddress : ScVal.address recipient.toSc = .ofAddress recipient := by
    cases recipient <;> rfl
  have hmap : ExtData.toScval crates ⟨text, amount, output0, output1⟩ = _ :=
    toScval_ok htext h0 h1
  rw [ofStruct_fields, hmap, haddress, i256_eq_ofI256 hlo hhi]

/-! ## 4. One hash -/

/-- **Client and pool hash external data the same way.**  For every account or contract address
and its text, every amount of 128 bits and every two byte strings of a contract; and the result is
a field element, which neither the client's scalar nor the verifier's public input changes. -/
theorem client_and_pool_hash_alike {ρ : Type} {crates : XdrCrates} {host : ExtDataHost}
    {ext : Externals ρ} (same : SameEncoding crates host ext) {recipient : Address}
    {text : String} (htext : crates.scAddressFromStr text = some recipient.toSc) {amount : Int}
    (hlo : -(2 ^ 127) ≤ amount) (hhi : amount < 2 ^ 127) {output0 output1 : List UInt8}
    (h0 : output0.length ≤ u32Max) (h1 : output1.length ≤ u32Max) :
    let extHash := Pool.hashExtData ext ⟨recipient, amount, output0, output1⟩
    ExtData.hash crates ⟨text, amount, output0, output1⟩ = .ok (Bytes.ofNatBE 32 extHash) ∧
      extHash < bn256Modulus ∧
      (scalarFromBeBytes (Bytes.ofNatBE 32 extHash)).val = extHash ∧
      ∀ proof : Proof, proof.extDataHash = extHash →
        ((Pool.verifierPublicInputs proof).getD 2 0).val = extHash := by
  intro extHash
  have hlt : extHash < bn256Modulus := Nat.mod_lt _ (by decide)
  have hpow : extHash < 256 ^ 32 := hlt.trans (by decide)
  have hval : ((extHash : Nat) : F).val = extHash := ZMod.val_natCast_of_lt hlt
  refine ⟨?_, hlt, ?_, ?_⟩
  · have hreduced : Bytes.toNatBE (crates.keccak256 (host.toXdr (.ofStruct
        (ExtData.fields ⟨recipient, amount, output0, output1⟩)))).toList ^ 1 %
          Digits.decimal modulus = extHash := by
      rw [pow_one, decimal_modulus, same.keccak, ← same.struct]
      rfl
    simp only [ExtData.hash, toScval_eq htext hlo hhi h0 h1, ok_bind, same.xdr, okOr_some,
      hreduced]
    refine congrArg Except.ok (List.Vector.eq _ _ ?_)
    exact rightAligned_eq hpow
  · rw [scalarFromBeBytes, Bytes.toNatBE_ofNatBE hpow, hval]
  · intro proof hproof
    rw [Pool.verifierPublicInputs, hproof]
    exact hval

/-! ## 5. A deposit on testnet -/

/-- A word of XDR. -/
def xdrWord (value : Nat) : List UInt8 := Bytes.digitsBE 4 value

/-- Bytes of variable length, filled up to a multiple of four. -/
def xdrBytes (value : List UInt8) : List UInt8 :=
  xdrWord value.length ++ value ++ List.replicate (3 - (value.length + 3) % 4) 0

def xdrAddress : ScAddress → List UInt8
  | .account key => xdrWord 0 ++ xdrWord 0 ++ Bytes.digitsBE 32 key
  | .contract hash => xdrWord 1 ++ Bytes.digitsBE 32 hash
  | .muxedAccount id key => xdrWord 2 ++ Bytes.digitsBE 8 id ++ Bytes.digitsBE 32 key
  | .claimableBalance hash => xdrWord 3 ++ xdrWord 0 ++ Bytes.digitsBE 32 hash
  | .liquidityPool hash => xdrWord 4 ++ Bytes.digitsBE 32 hash

def xdrSymbol : ScSymbol → List UInt8
  | .utf8 text => xdrBytes text.toUTF8.data.toList
  | .bytes raw => xdrBytes raw

/-- The words of a number. -/
def xdrWords (words : List UInt64) : List UInt8 :=
  words.flatMap fun word => Bytes.digitsBE 8 word.toNat

def mapLength : ScMap → Nat
  | .nil => 0
  | .cons _ _ entries => mapLength entries + 1

mutual

/-- XDR, with the numbers the schema gives the kinds of value. -/
def xdr : ScVal → List UInt8
  | .void => xdrWord 1
  | .u32 value => xdrWord 3 ++ xdrWord value.toNat
  | .u64 value => xdrWord 5 ++ xdrWords [value]
  | .i128 hi lo => xdrWord 10 ++ xdrWords [hi.toUInt64, lo]
  | .u256 hiHi hiLo loHi loLo => xdrWord 11 ++ xdrWords [hiHi, hiLo, loHi, loLo]
  | .i256 hiHi hiLo loHi loLo => xdrWord 12 ++ xdrWords [hiHi.toUInt64, hiLo, loHi, loLo]
  | .bytes value => xdrWord 13 ++ xdrBytes value
  | .symbol name => xdrWord 15 ++ xdrSymbol name
  | .noMap => xdrWord 17 ++ xdrWord 0
  | .map entries => xdrWord 17 ++ xdrWord 1 ++ xdrWord (mapLength entries) ++ xdrEntries entries
  | .address value => xdrWord 18 ++ xdrAddress value
  | .other xdr => xdr

def xdrEntries : ScMap → List UInt8
  | .nil => []
  | .cons key val entries => xdr key ++ xdr val ++ xdrEntries entries

end

/-- The account of the deposit, and the text it is written as. -/
def depositRecipient : Address :=
  .account 0x17f4864965e62103341bcdb41ec311d75f02092b907f429f6978f312c333ac11

def depositText : String := "GAL7JBSJMXTCCAZUDPG3IHWDCHLV6AQJFOIH6QU7NF4PGEWDGOWBDDFO"

def depositExtData : Veil.ExtData := ⟨depositRecipient, 1000000, [1, 2], []⟩

/-- The external data of the deposit as the host encodes it. -/
def depositXdr : List UInt8 :=
  [0x0000001100000001000000040000000f00000011656e637279707465645f6f75,
   0x74707574300000000000000d00000002010200000000000f00000011656e6372,
   0x79707465645f6f7574707574310000000000000d000000000000000f0000000a,
   0x6578745f616d6f756e7400000000000c00000000000000000000000000000000,
   0x000000000000000000000000000f42400000000f00000009726563697069656e,
   0x7400000000000012000000000000000017f4864965e62103341bcdb41ec311d7].flatMap
    (Bytes.digitsBE 32) ++ Bytes.digitsBE 16 0x5f02092b907f429f6978f312c333ac11

/-- A host that knows the digest of the deposit. -/
def depositHost : ExtDataHost where
  toXdr := xdr
  keccak256 bytes :=
    if bytes = depositXdr then
      Bytes.ofNatBE 32 0x93c2c81da1ed490a211eb78ac73c6367725a45f889b7683401f93334e1e166df
    else Bytes.ofNatBE 32 0

def depositCrates : XdrCrates where
  scAddressFromStr text := if text = depositText then some depositRecipient.toSc else none
  toXdr val := some (depositHost.toXdr val)
  keccak256 := depositHost.keccak256

/-- A pool on that host whose callees do nothing. -/
def depositExternals : Externals Unit where
  currentContractAddress := .contract 1
  keccak256Xdr data :=
    Bytes.toNatBE (depositHost.keccak256 (depositHost.toXdr (.ofStruct data.fields))).toList
  transferIn _ _ _ _ _ := none
  getRoot _ _ := none
  verify _ _ _ _ := none
  transferOut _ _ _ _ _ := none
  transferFee _ _ _ _ _ := none

theorem depositEncoding : SameEncoding depositCrates depositHost depositExternals :=
  ⟨fun _ => rfl, fun _ => rfl, fun _ => rfl⟩

/-- The hash the deployed pool returned for the deposit. -/
theorem deposit_hash_alike :
    ExtData.hash depositCrates ⟨depositText, 1000000, [1, 2], []⟩ = .ok (Bytes.ofNatBE 32
      0x0295dcc4fe58688cf82de66742b85a4ff9be8d1f1c8b16803653527911e166dc) := by
  have hpool : Pool.hashExtData depositExternals depositExtData =
      0x0295dcc4fe58688cf82de66742b85a4ff9be8d1f1c8b16803653527911e166dc := by decide +kernel
  have htext : depositCrates.scAddressFromStr depositText = some depositRecipient.toSc := by
    simp [depositCrates]
  have halike := client_and_pool_hash_alike depositEncoding htext
    (show -(2 ^ 127) ≤ (1000000 : Int) by decide) (by decide)
    (show [1, 2].length ≤ u32Max by decide) (show [].length ≤ u32Max by decide)
  rw [← hpool]
  exact halike.1

end Demo

end Veil
