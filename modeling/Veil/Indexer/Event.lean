/-
# Reading contract events

`services/indexer/src/event`.  The indexer reads a contract event as a list of topic values and a
body value, and turns the pair into a typed `VeilEvent`.  Whatever differs from the contracts' own
event types in a name, a topic count, a field or a type is an error.

* Section 1 is the value type, with the kinds of value the readers look at; every other kind is
  its XDR (`other`).
* Section 2 is the decoder, with its errors.
* Section 3 is the other side: what the contracts' event types are published as, topics first,
  the rest as a map of fields in key order.  `PoolEvent.decode_encode` and
  `AspEvent.decode_encode` say that the decoder reads back exactly what was emitted.
-/
import Veil.Contract.Pool
import Veil.Indexer.Position

namespace Veil

open Tx

/-! ## 1. Values -/

/-- An `ScSymbol`: text, or bytes that are no UTF-8. -/
inductive ScSymbol where
  | utf8 (text : String)
  | bytes (raw : List UInt8)
  deriving DecidableEq, Repr

inductive ScAddress where
  | account (key : Nat)
  | contract (hash : Nat)
  | muxedAccount (id key : Nat)
  | claimableBalance (hash : Nat)
  | liquidityPool (hash : Nat)
  deriving DecidableEq, Repr

mutual

inductive ScVal where
  | void
  | u32 (value : UInt32)
  | u64 (value : UInt64)
  | i128 (hi : Int64) (lo : UInt64)
  | u256 (hiHi hiLo loHi loLo : UInt64)
  | i256 (hiHi : Int64) (hiLo loHi loLo : UInt64)
  | bytes (value : List UInt8)
  | symbol (name : ScSymbol)
  | address (value : ScAddress)
  /-- `Map(None)`. -/
  | noMap
  | map (entries : ScMap)
  | other (xdr : List UInt8)

inductive ScMap where
  | nil
  | cons (key val : ScVal) (entries : ScMap)

end

deriving instance DecidableEq for ScVal, ScMap

/-- The topics and body of one event. -/
structure RawEvent where
  topics : List ScVal
  data : ScVal
  deriving DecidableEq

structure Settlement where
  nullifier : Nat
  pool : Address
  outputCommitment0 : Nat
  outputCommitment1 : Nat
  outputIndex0 : Nat
  outputIndex1 : Nat
  amountBucket : Int
  publicAmount : Nat
  recipient : Option Address
  asset : Address
  deriving DecidableEq, Repr

structure Exit where
  nullifier : Nat
  pool : Address
  amountBucket : Int
  publicAmount : Nat
  recipient : Address
  asset : Address
  deriving DecidableEq, Repr

/-- A `Deposit` event of the closed deposit path. -/
structure LegacyDeposit where
  commitment : Nat
  pool : Address
  index : Nat
  amountBucket : Int
  asset : Address
  deriving DecidableEq, Repr

inductive VeilEvent where
  | newCommitment (commitment index : Nat) (encryptedOutput : List UInt8)
  | newNullifier (nullifier : Nat)
  | settlement (settlement : Settlement)
  | exit (exit : Exit)
  | legacyDeposit (deposit : LegacyDeposit)
  | publicKey (owner : Address) (encryptionKey noteKey : List UInt8)
  | leafAdded (leaf index root : Nat)
  | leafRevoked (leaf root : Nat)
  deriving DecidableEq, Repr

inductive Emitter where
  | pool
  | allowlist
  deriving DecidableEq, Repr

namespace VeilEvent

def emitter : VeilEvent → Emitter
  | leafAdded _ _ _ | leafRevoked _ _ => .allowlist
  | _ => .pool

def name : VeilEvent → String
  | newCommitment _ _ _ => "new_commitment_event"
  | newNullifier _ => "new_nullifier_event"
  | settlement _ => "Settlement"
  | exit _ => "Exit"
  | legacyDeposit _ => "Deposit"
  | publicKey _ _ _ => "public_key_event"
  | leafAdded _ _ _ => "LeafAdded"
  | leafRevoked _ _ => "LeafRevoked"

end VeilEvent

inductive Decoded where
  | event (event : VeilEvent)
  /-- Emitted by the host rather than the contract. -/
  | ignored (name : String)
  deriving DecidableEq, Repr

inductive DecodeError where
  | unknownEvent (name : String)
  | topicCount (event : String) (expected found : Nat)
  | missingField (event field : String)
  | unexpectedField (event field : String)
  | shape (event part expected : String)
  | xdr (part reason : String)
  deriving DecidableEq, Repr

/-! ## 2. The decoder -/

namespace ScVal

/-- The symbol that names the event. -/
def eventName : List ScVal → Except DecodeError String
  | .symbol (.utf8 name) :: _ => .ok name
  | .symbol (.bytes _) :: _ => .error (.shape "event" "topic 0" "a UTF-8 symbol")
  | _ => .error (.shape "event" "topic 0" "a symbol naming the event")

/-- The topics after the name, which must be exactly `n`. -/
def topics (n : Nat) (event : String) (topics : List ScVal) :
    Except DecodeError (Vector ScVal n) :=
  let rest := topics.drop 1
  if h : rest.length = n then .ok ⟨rest.toArray, by simpa using h⟩
  else .error (.topicCount event n rest.length)

/-- The four words are the 32 bytes, most significant first. -/
def readU256 (event field : String) : ScVal → Except DecodeError Nat
  | .u256 hiHi hiLo loHi loLo =>
    .ok (((hiHi.toNat * 2 ^ 64 + hiLo.toNat) * 2 ^ 64 + loHi.toNat) * 2 ^ 64 + loLo.toNat)
  | _ => .error (.shape event field "a U256")

def readU32 (event field : String) : ScVal → Except DecodeError Nat
  | .u32 value => .ok value.toNat
  | _ => .error (.shape event field "a u32")

def readU64 (event field : String) : ScVal → Except DecodeError Nat
  | .u64 value => .ok value.toNat
  | _ => .error (.shape event field "a u64")

def readI128 (event field : String) : ScVal → Except DecodeError Int
  | .i128 hi lo => .ok (hi.toInt * 2 ^ 64 + lo.toNat)
  | _ => .error (.shape event field "an i128")

def readBytes (event field : String) : ScVal → Except DecodeError (List UInt8)
  | .bytes value => .ok value
  | _ => .error (.shape event field "bytes")

def readAddress (event field : String) : ScVal → Except DecodeError Address
  | .address (.account key) => .ok (.account key)
  | .address (.contract hash) => .ok (.contract hash)
  | _ => .error (.shape event field "an account or contract address")

def readOptionalAddress (event field : String) : ScVal → Except DecodeError (Option Address)
  | .void => .ok none
  | val => Except.map some (readAddress event field val)

end ScVal

/-- The fields of a body, consumed one by one. -/
structure Fields where
  event : String
  entries : List (String × ScVal)

namespace Fields

def fieldName (event : String) : ScVal → Except DecodeError String
  | .symbol (.utf8 key) => .ok key
  | .symbol (.bytes _) => .error (.shape event "body" "UTF-8 field names")
  | _ => .error (.shape event "body" "symbol field names")

/-- The loop of `Fields::new`. -/
def insertAll (event : String) :
    ScMap → List (String × ScVal) → Except DecodeError (List (String × ScVal))
  | .nil, fields => .ok fields
  | .cons key val entries, fields => do
    let key ← fieldName event key
    ensure ((fields.lookup key).isSome = false) (.shape event "body" "unique field names")
    insertAll event entries (fields ++ [(key, val)])

def new (event : String) : ScVal → Except DecodeError Fields
  | .map entries => do
    let fields ← insertAll event entries []
    .ok ⟨event, fields⟩
  | _ => .error (.shape event "body" "a map of fields")

def take (f : Fields) (field : String) : Except DecodeError (ScVal × Fields) := do
  let val ← okOr (f.entries.lookup field) (.missingField f.event field)
  .ok (val, { f with entries := f.entries.filter (·.1 ≠ field) })

/-- The smallest key of the map, which `keys().next()` returns. -/
def firstKey : List (String × ScVal) → Option String
  | [] => none
  | (key, _) :: entries =>
    match firstKey entries with
    | none => some key
    | some other => if other < key then some other else some key

def finish (f : Fields) : Except DecodeError Unit :=
  match firstKey f.entries with
  | none => .ok ()
  | some field => .error (.unexpectedField f.event field)

end Fields

namespace RawEvent

open ScVal

def decodeNewCommitment (raw : RawEvent) : Except DecodeError VeilEvent := do
  let e := "new_commitment_event"
  let topics ← ScVal.topics 1 e raw.topics
  let fields ← Fields.new e raw.data
  let commitment ← readU256 e "commitment" topics[0]
  let (index, fields) ← fields.take "index"
  let index ← readU32 e "index" index
  let (encryptedOutput, fields) ← fields.take "encrypted_output"
  let encryptedOutput ← readBytes e "encrypted_output" encryptedOutput
  fields.finish
  .ok (.newCommitment commitment index encryptedOutput)

def decodeNewNullifier (raw : RawEvent) : Except DecodeError VeilEvent := do
  let e := "new_nullifier_event"
  let topics ← ScVal.topics 1 e raw.topics
  let fields ← Fields.new e raw.data
  fields.finish
  let nullifier ← readU256 e "nullifier" topics[0]
  .ok (.newNullifier nullifier)

def decodeSettlement (raw : RawEvent) : Except DecodeError VeilEvent := do
  let e := "Settlement"
  let topics ← ScVal.topics 2 e raw.topics
  let f ← Fields.new e raw.data
  let nullifier ← readU256 e "nullifier" topics[0]
  let pool ← readAddress e "pool" topics[1]
  let (val, f) ← f.take "output_commitment0"
  let outputCommitment0 ← readU256 e "output_commitment0" val
  let (val, f) ← f.take "output_commitment1"
  let outputCommitment1 ← readU256 e "output_commitment1" val
  let (val, f) ← f.take "output_index0"
  let outputIndex0 ← readU32 e "output_index0" val
  let (val, f) ← f.take "output_index1"
  let outputIndex1 ← readU32 e "output_index1" val
  let (val, f) ← f.take "amount_bucket"
  let amountBucket ← readI128 e "amount_bucket" val
  let (val, f) ← f.take "public_amount"
  let publicAmount ← readU256 e "public_amount" val
  let (val, f) ← f.take "recipient"
  let recipient ← readOptionalAddress e "recipient" val
  let (val, f) ← f.take "asset"
  let asset ← readAddress e "asset" val
  f.finish
  .ok (.settlement ⟨nullifier, pool, outputCommitment0, outputCommitment1, outputIndex0,
    outputIndex1, amountBucket, publicAmount, recipient, asset⟩)

def decodeExit (raw : RawEvent) : Except DecodeError VeilEvent := do
  let e := "Exit"
  let topics ← ScVal.topics 2 e raw.topics
  let f ← Fields.new e raw.data
  let nullifier ← readU256 e "nullifier" topics[0]
  let pool ← readAddress e "pool" topics[1]
  let (val, f) ← f.take "amount_bucket"
  let amountBucket ← readI128 e "amount_bucket" val
  let (val, f) ← f.take "public_amount"
  let publicAmount ← readU256 e "public_amount" val
  let (val, f) ← f.take "recipient"
  let recipient ← readAddress e "recipient" val
  let (val, f) ← f.take "asset"
  let asset ← readAddress e "asset" val
  f.finish
  .ok (.exit ⟨nullifier, pool, amountBucket, publicAmount, recipient, asset⟩)

def decodeDeposit (raw : RawEvent) : Except DecodeError VeilEvent := do
  let e := "Deposit"
  let topics ← ScVal.topics 2 e raw.topics
  let f ← Fields.new e raw.data
  let commitment ← readU256 e "commitment" topics[0]
  let pool ← readAddress e "pool" topics[1]
  let (val, f) ← f.take "index"
  let index ← readU32 e "index" val
  let (val, f) ← f.take "amount_bucket"
  let amountBucket ← readI128 e "amount_bucket" val
  let (val, f) ← f.take "asset"
  let asset ← readAddress e "asset" val
  f.finish
  .ok (.legacyDeposit ⟨commitment, pool, index, amountBucket, asset⟩)

def decodePublicKey (raw : RawEvent) : Except DecodeError VeilEvent := do
  let e := "public_key_event"
  let topics ← ScVal.topics 1 e raw.topics
  let f ← Fields.new e raw.data
  let owner ← readAddress e "owner" topics[0]
  let (val, f) ← f.take "encryption_key"
  let encryptionKey ← readBytes e "encryption_key" val
  let (val, f) ← f.take "note_key"
  let noteKey ← readBytes e "note_key" val
  f.finish
  .ok (.publicKey owner encryptionKey noteKey)

def decodeLeafAdded (raw : RawEvent) : Except DecodeError VeilEvent := do
  let e := "LeafAdded"
  let _ ← ScVal.topics 0 e raw.topics
  let f ← Fields.new e raw.data
  let (val, f) ← f.take "leaf"
  let leaf ← readU256 e "leaf" val
  let (val, f) ← f.take "index"
  let index ← readU64 e "index" val
  let (val, f) ← f.take "root"
  let root ← readU256 e "root" val
  f.finish
  .ok (.leafAdded leaf index root)

def decodeLeafRevoked (raw : RawEvent) : Except DecodeError VeilEvent := do
  let e := "LeafRevoked"
  let _ ← ScVal.topics 0 e raw.topics
  let f ← Fields.new e raw.data
  let (val, f) ← f.take "leaf"
  let leaf ← readU256 e "leaf" val
  let (val, f) ← f.take "root"
  let root ← readU256 e "root" val
  f.finish
  .ok (.leafRevoked leaf root)

/-- Events the host emits on a contract's behalf. -/
def hostEvents : List String := ["executable_update"]

/-- The `match` on the event's name. -/
def decodeNamed (raw : RawEvent) (name : String) : Except DecodeError Decoded :=
  if name = "new_commitment_event" then Except.map .event raw.decodeNewCommitment
  else if name = "new_nullifier_event" then Except.map .event raw.decodeNewNullifier
  else if name = "Settlement" then Except.map .event raw.decodeSettlement
  else if name = "Exit" then Except.map .event raw.decodeExit
  else if name = "Deposit" then Except.map .event raw.decodeDeposit
  else if name = "public_key_event" then Except.map .event raw.decodePublicKey
  else if name = "LeafAdded" then Except.map .event raw.decodeLeafAdded
  else if name = "LeafRevoked" then Except.map .event raw.decodeLeafRevoked
  else if name ∈ hostEvents then .ok (.ignored name)
  else .error (.unknownEvent name)

def decode (raw : RawEvent) : Except DecodeError Decoded := do
  let name ← eventName raw.topics
  raw.decodeNamed name

end RawEvent

/-! ## 3. What the contracts publish -/

namespace ScVal

def ofSymbol (text : String) : ScVal := .symbol (.utf8 text)

/-- A 256-bit number as its four words. -/
def ofU256 (v : Nat) : ScVal :=
  .u256 (.ofNat (v / 2 ^ 192)) (.ofNat (v / 2 ^ 128)) (.ofNat (v / 2 ^ 64)) (.ofNat v)

/-- A signed 128-bit number as its two words. -/
def ofI128 (v : Int) : ScVal := .i128 (.ofInt (v / 2 ^ 64)) (.ofNat (v % 2 ^ 64).toNat)

/-- A signed 256-bit number as its four words. -/
def ofI256 (v : Int) : ScVal :=
  .i256 (.ofInt (v / 2 ^ 192)) (.ofNat (v / 2 ^ 128 % 2 ^ 64).toNat)
    (.ofNat (v / 2 ^ 64 % 2 ^ 64).toNat) (.ofNat (v % 2 ^ 64).toNat)

def ofU32 (v : Nat) : ScVal := .u32 (.ofNat v)

def ofU64 (v : Nat) : ScVal := .u64 (.ofNat v)

def ofAddress : Address → ScVal
  | .account key => .address (.account key)
  | .contract hash => .address (.contract hash)

def ofOptionalAddress : Option Address → ScVal
  | none => .void
  | some a => ofAddress a

/-- A map of named fields. -/
def ofFields (fields : List (String × ScVal)) : ScVal :=
  .map (fields.foldr (fun field entries => .cons (ofSymbol field.1) field.2 entries) .nil)

@[simp] theorem eventName_ofSymbol (name : String) (topics : List ScVal) :
    eventName (ofSymbol name :: topics) = .ok name := rfl

@[simp] theorem readBytes_bytes (event field : String) (value : List UInt8) :
    readBytes event field (.bytes value) = .ok value := rfl

variable (event field : String)

theorem readU256_ofU256 {v : Nat} (h : v < 2 ^ 256) :
    readU256 event field (ofU256 v) = .ok v := by
  simp only [ofU256, readU256, UInt64.toNat_ofNat', Except.ok.injEq]
  omega

theorem readI128_ofI128 {v : Int} (h1 : -(2 ^ 127) ≤ v) (h2 : v < 2 ^ 127) :
    readI128 event field (ofI128 v) = .ok v := by
  have hhi : (Int64.ofInt (v / 2 ^ 64)).toInt = v / 2 ^ 64 :=
    Int64.toInt_ofInt_of_le (by omega) (by omega)
  simp only [ofI128, readI128, hhi, UInt64.toNat_ofNat', Except.ok.injEq]
  omega

theorem readU32_ofU32 {v : Nat} (h : v < 2 ^ 32) : readU32 event field (ofU32 v) = .ok v := by
  simp only [ofU32, readU32, UInt32.toNat_ofNat', Except.ok.injEq]
  omega

theorem readU64_ofU64 {v : Nat} (h : v < 2 ^ 64) : readU64 event field (ofU64 v) = .ok v := by
  simp only [ofU64, readU64, UInt64.toNat_ofNat', Except.ok.injEq]
  omega

@[simp] theorem readAddress_ofAddress (a : Address) :
    readAddress event field (ofAddress a) = .ok a := by
  cases a <;> rfl

@[simp] theorem readOptionalAddress_ofOptionalAddress (a : Option Address) :
    readOptionalAddress event field (ofOptionalAddress a) = .ok a := by
  match a with
  | none => rfl
  | some (.account _) => rfl
  | some (.contract _) => rfl

end ScVal

namespace Fields

open ScVal

theorem insertAll_ofFields (event : String) : ∀ (fields seen : List (String × ScVal)),
    (fields.map Prod.fst).Nodup → (∀ f ∈ fields, seen.lookup f.1 = none) →
    insertAll event (fields.foldr (fun field entries =>
      .cons (ofSymbol field.1) field.2 entries) .nil) seen = .ok (seen ++ fields)
  | [], seen, _, _ => by rw [List.foldr_nil, insertAll, List.append_nil]
  | (key, val) :: fields, seen, hnd, hnew => by
    rw [List.map_cons, List.nodup_cons] at hnd
    have hkey : (seen.lookup key).isSome = false := by
      rw [hnew (key, val) List.mem_cons_self]
      rfl
    have hrest : ∀ f ∈ fields, (seen ++ [(key, val)]).lookup f.1 = none := by
      intro f hf
      have hne : f.1 ≠ key := fun h => hnd.1 (List.mem_map.mpr ⟨f, hf, h⟩)
      rw [List.lookup_append, hnew f (List.mem_cons_of_mem _ hf), Option.none_or,
        List.lookup_cons, beq_false_of_ne hne]
      rfl
    rw [List.foldr_cons, insertAll, ofSymbol, fieldName, ok_bind, ensure_pos hkey, ok_bind,
      insertAll_ofFields event fields _ hnd.2 hrest, List.append_assoc, List.singleton_append]

/-- A body published as distinct named fields is read as these. -/
theorem new_ofFields (event : String) {fields : List (String × ScVal)}
    (h : (fields.map Prod.fst).Nodup) : new event (ofFields fields) = .ok ⟨event, fields⟩ := by
  rw [ofFields, new, insertAll_ofFields event fields [] h (fun _ _ => rfl), ok_bind,
    List.nil_append]

@[simp] theorem finish_nil (event : String) : finish ⟨event, []⟩ = .ok () := rfl

end Fields

/-- `value` fits the 256-bit type of the contracts. -/
abbrev IsU256 (value : Nat) : Prop := value < 2 ^ 256

abbrev IsI128 (value : Int) : Prop := -(2 ^ 127) ≤ value ∧ value < 2 ^ 127

namespace PoolEvent

open ScVal

/-- The topics and body the event type is published as. -/
def encode : PoolEvent → RawEvent
  | .newCommitment commitment index encryptedOutput =>
    { topics := [ofSymbol "new_commitment_event", ofU256 commitment]
      data := ofFields [("encrypted_output", .bytes encryptedOutput), ("index", ofU32 index)] }
  | .newNullifier nullifier =>
    { topics := [ofSymbol "new_nullifier_event", ofU256 nullifier], data := ofFields [] }
  | .settlement nullifier pool outputCommitment0 outputCommitment1 outputIndex0 outputIndex1
      amountBucket publicAmount recipient asset =>
    { topics := [ofSymbol "Settlement", ofU256 nullifier, ofAddress pool]
      data := ofFields [("amount_bucket", ofI128 amountBucket), ("asset", ofAddress asset),
        ("output_commitment0", ofU256 outputCommitment0),
        ("output_commitment1", ofU256 outputCommitment1), ("output_index0", ofU32 outputIndex0),
        ("output_index1", ofU32 outputIndex1), ("public_amount", ofU256 publicAmount),
        ("recipient", ofOptionalAddress recipient)] }
  | .exit nullifier pool amountBucket publicAmount recipient asset =>
    { topics := [ofSymbol "Exit", ofU256 nullifier, ofAddress pool]
      data := ofFields [("amount_bucket", ofI128 amountBucket), ("asset", ofAddress asset),
        ("public_amount", ofU256 publicAmount), ("recipient", ofAddress recipient)] }
  | .publicKey owner encryptionKey noteKey =>
    { topics := [ofSymbol "public_key_event", ofAddress owner]
      data := ofFields [("encryption_key", .bytes encryptionKey), ("note_key", .bytes noteKey)] }

/-- The indexer's view of the event. -/
def toVeil : PoolEvent → VeilEvent
  | .newCommitment commitment index encryptedOutput =>
    .newCommitment commitment index encryptedOutput
  | .newNullifier nullifier => .newNullifier nullifier
  | .settlement nullifier pool outputCommitment0 outputCommitment1 outputIndex0 outputIndex1
      amountBucket publicAmount recipient asset =>
    .settlement ⟨nullifier, pool, outputCommitment0, outputCommitment1, outputIndex0,
      outputIndex1, amountBucket, publicAmount, recipient, asset⟩
  | .exit nullifier pool amountBucket publicAmount recipient asset =>
    .exit ⟨nullifier, pool, amountBucket, publicAmount, recipient, asset⟩
  | .publicKey owner encryptionKey noteKey => .publicKey owner encryptionKey noteKey

/-- Every number of the event fits its type. -/
def Typed : PoolEvent → Prop
  | .newCommitment commitment index _ => IsU256 commitment ∧ index < 2 ^ 32
  | .newNullifier nullifier => IsU256 nullifier
  | .settlement nullifier _ outputCommitment0 outputCommitment1 outputIndex0 outputIndex1
      amountBucket publicAmount _ _ =>
    IsU256 nullifier ∧ IsU256 outputCommitment0 ∧ IsU256 outputCommitment1 ∧
      outputIndex0 < 2 ^ 32 ∧ outputIndex1 < 2 ^ 32 ∧ IsI128 amountBucket ∧ IsU256 publicAmount
  | .exit nullifier _ amountBucket publicAmount _ _ =>
    IsU256 nullifier ∧ IsI128 amountBucket ∧ IsU256 publicAmount
  | .publicKey _ _ _ => True

/-- **The indexer reads back what the pool emitted.** -/
theorem decode_encode {e : PoolEvent} (h : e.Typed) : e.encode.decode = .ok (.event e.toVeil) := by
  cases e with
  | newCommitment commitment index encryptedOutput =>
    obtain ⟨hc, hi⟩ := h
    simp [encode, toVeil, RawEvent.decode, RawEvent.decodeNamed, RawEvent.decodeNewCommitment,
      topics, Fields.new_ofFields, Fields.take, List.lookup_cons, Except.map, ok_bind,
      readU256_ofU256 _ _ hc, readU32_ofU32 _ _ hi]
  | newNullifier nullifier =>
    simp [encode, toVeil, RawEvent.decode, RawEvent.decodeNamed, RawEvent.decodeNewNullifier,
      topics, Fields.new_ofFields, Except.map, ok_bind, readU256_ofU256 _ _ h]
  | settlement nullifier pool output0 output1 index0 index1 amount publicAmount recipient asset =>
    obtain ⟨hn, h0, h1, hi0, hi1, ⟨hlo, hhi⟩, hp⟩ := h
    simp [encode, toVeil, RawEvent.decode, RawEvent.decodeNamed, RawEvent.decodeSettlement,
      topics, Fields.new_ofFields, Fields.take, List.lookup_cons, Except.map, ok_bind,
      readU256_ofU256 _ _ hn, readU256_ofU256 _ _ h0, readU256_ofU256 _ _ h1,
      readU256_ofU256 _ _ hp, readU32_ofU32 _ _ hi0, readU32_ofU32 _ _ hi1,
      readI128_ofI128 _ _ hlo hhi]
  | exit nullifier pool amount publicAmount recipient asset =>
    obtain ⟨hn, ⟨hlo, hhi⟩, hp⟩ := h
    simp [encode, toVeil, RawEvent.decode, RawEvent.decodeNamed, RawEvent.decodeExit,
      topics, Fields.new_ofFields, Fields.take, List.lookup_cons, Except.map, ok_bind,
      readU256_ofU256 _ _ hn, readU256_ofU256 _ _ hp, readI128_ofI128 _ _ hlo hhi]
  | publicKey owner encryptionKey noteKey =>
    simp [encode, toVeil, RawEvent.decode, RawEvent.decodeNamed, RawEvent.decodePublicKey,
      topics, Fields.new_ofFields, Fields.take, Except.map, ok_bind]

end PoolEvent

namespace AspEvent

open ScVal

def encode : AspEvent → RawEvent
  | .leafAdded leaf index root =>
    { topics := [ofSymbol "LeafAdded"]
      data := ofFields [("index", ofU64 index), ("leaf", ofU256 leaf), ("root", ofU256 root)] }
  | .leafRevoked leaf root =>
    { topics := [ofSymbol "LeafRevoked"]
      data := ofFields [("leaf", ofU256 leaf), ("root", ofU256 root)] }

def toVeil : AspEvent → VeilEvent
  | .leafAdded leaf index root => .leafAdded leaf index root
  | .leafRevoked leaf root => .leafRevoked leaf root

def Typed : AspEvent → Prop
  | .leafAdded leaf index root => IsU256 leaf ∧ index < 2 ^ 64 ∧ IsU256 root
  | .leafRevoked leaf root => IsU256 leaf ∧ IsU256 root

/-- **And what the allowlist emitted.** -/
theorem decode_encode {e : AspEvent} (h : e.Typed) : e.encode.decode = .ok (.event e.toVeil) := by
  cases e with
  | leafAdded leaf index root =>
    obtain ⟨hl, hi, hr⟩ := h
    simp [encode, toVeil, RawEvent.decode, RawEvent.decodeNamed, RawEvent.decodeLeafAdded,
      topics, Fields.new_ofFields, Fields.take, List.lookup_cons, Except.map, ok_bind,
      readU256_ofU256 _ _ hl, readU256_ofU256 _ _ hr, readU64_ofU64 _ _ hi]
  | leafRevoked leaf root =>
    obtain ⟨hl, hr⟩ := h
    simp [encode, toVeil, RawEvent.decode, RawEvent.decodeNamed, RawEvent.decodeLeafRevoked,
      topics, Fields.new_ofFields, Fields.take, Except.map, ok_bind, readU256_ofU256 _ _ hl,
      readU256_ofU256 _ _ hr]

end AspEvent

end Veil
