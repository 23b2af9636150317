/-
# The events the indexer accepts, exactly

`services/indexer/src/event`.  `Veil.Indexer.Event` has the decoder and what the contracts publish.
This module says which pairs of topics and body the decoder accepts as a Veil event: the encodings
of the typed events, up to the order of the entries of the body, and nothing else.

* Section 1 inverts the readers: a value read as a number, an address or bytes is the value these
  are published as, words in order.
* Section 2 is about the map of fields.  `Fields.new_eq_ok` says what a body must be; a field that
  is taken and the fields that are left are all there was (`Fields.take_ok`), and what is left at
  the end is nothing (`Fields.finish_ok`).  `Fields.Same.take_bind` and `Fields.Same.finish_bind`
  say that no step of a decoder sees the order of the entries.
* Section 3 is the encoding of every `VeilEvent`, which on the contracts' own events is theirs,
  and on a `Deposit` of the closed deposit path the one of the retired event type.
* Section 4 inverts the eight decoders and assembles `RawEvent.decode_eq_event_iff`.

An address is kept as the key or hash its strkey stands for, so two addresses with one strkey are
one address here.
-/
import Veil.Core.Assoc
import Veil.Indexer.Event

namespace Veil

open Tx

/-! ## 1. What each reader accepts -/

namespace ScVal

variable {event field : String} {val : ScVal}

theorem readU256_eq_ok {v : Nat} :
    readU256 event field val = .ok v ↔ IsU256 v ∧ val = ofU256 v := by
  constructor
  · intro h
    cases val with
    | u256 hiHi hiLo loHi loLo =>
      obtain rfl := Except.ok.inj h
      have h1 := hiHi.toNat_lt
      have h2 := hiLo.toNat_lt
      have h3 := loHi.toNat_lt
      have h4 := loLo.toNat_lt
      refine ⟨by simp only [IsU256]; omega, ?_⟩
      simp only [ofU256, u256.injEq, ← UInt64.toNat_inj, UInt64.toNat_ofNat']
      omega
    | _ => cases h
  · rintro ⟨hv, rfl⟩
    exact readU256_ofU256 _ _ hv

theorem readI128_eq_ok {v : Int} :
    readI128 event field val = .ok v ↔ IsI128 v ∧ val = ofI128 v := by
  constructor
  · intro h
    cases val with
    | i128 hi lo =>
      obtain rfl := Except.ok.inj h
      have h1 := hi.le_toInt
      have h2 := hi.toInt_lt
      have h3 := lo.toNat_lt
      have hhi : (hi.toInt * 2 ^ 64 + (lo.toNat : Int)) / 2 ^ 64 = hi.toInt := by omega
      have hlo : ((hi.toInt * 2 ^ 64 + (lo.toNat : Int)) % 2 ^ 64).toNat = lo.toNat := by omega
      refine ⟨⟨by omega, by omega⟩, ?_⟩
      rw [ofI128, hhi, hlo, Int64.ofInt_toInt, UInt64.ofNat_toNat]
    | _ => cases h
  · rintro ⟨⟨hlo, hhi⟩, rfl⟩
    exact readI128_ofI128 _ _ hlo hhi

theorem readU32_eq_ok {v : Nat} : readU32 event field val = .ok v ↔ v < 2 ^ 32 ∧ val = ofU32 v := by
  constructor
  · intro h
    cases val with
    | u32 value =>
      obtain rfl := Except.ok.inj h
      exact ⟨value.toNat_lt, by rw [ofU32, UInt32.ofNat_toNat]⟩
    | _ => cases h
  · rintro ⟨hv, rfl⟩
    exact readU32_ofU32 _ _ hv

theorem readU64_eq_ok {v : Nat} : readU64 event field val = .ok v ↔ v < 2 ^ 64 ∧ val = ofU64 v := by
  constructor
  · intro h
    cases val with
    | u64 value =>
      obtain rfl := Except.ok.inj h
      exact ⟨value.toNat_lt, by rw [ofU64, UInt64.ofNat_toNat]⟩
    | _ => cases h
  · rintro ⟨hv, rfl⟩
    exact readU64_ofU64 _ _ hv

theorem readBytes_eq_ok {v : List UInt8} : readBytes event field val = .ok v ↔ val = .bytes v := by
  constructor
  · intro h
    cases val with
    | bytes value => rw [Except.ok.inj h]
    | _ => cases h
  · rintro rfl
    rfl

theorem readAddress_eq_ok {v : Address} :
    readAddress event field val = .ok v ↔ val = ofAddress v := by
  constructor
  · intro h
    cases val with
    | address value =>
      cases value with
      | account key => rw [← Except.ok.inj h, ofAddress]
      | contract hash => rw [← Except.ok.inj h, ofAddress]
      | _ => cases h
    | _ => cases h
  · rintro rfl
    exact readAddress_ofAddress _ _ v

/-- An absent recipient is `Void`, and only that. -/
theorem readOptionalAddress_eq_ok {v : Option Address} :
    readOptionalAddress event field val = .ok v ↔ val = ofOptionalAddress v := by
  constructor
  · intro h
    unfold readOptionalAddress at h
    split at h
    · rw [← Except.ok.inj h, ofOptionalAddress]
    · cases hr : readAddress event field val with
      | error _ => rw [hr] at h; cases h
      | ok a =>
        rw [hr] at h
        rw [← Except.ok.inj h, ofOptionalAddress]
        exact readAddress_eq_ok.mp hr
  · rintro rfl
    exact readOptionalAddress_ofOptionalAddress _ _ v

theorem eventName_eq_ok {ts : List ScVal} {name : String} (h : eventName ts = .ok name) :
    ts = ofSymbol name :: ts.drop 1 := by
  unfold eventName at h
  split at h
  · rw [← Except.ok.inj h]
    rfl
  · cases h
  · cases h

theorem topics_eq_ok {n : Nat} {ts : List ScVal} {v : Vector ScVal n}
    (h : topics n event ts = .ok v) : ts.drop 1 = v.toList := by
  simp only [topics] at h
  split at h
  · rw [← Except.ok.inj h]
    rfl
  · cases h

theorem toList_zero (v : Vector ScVal 0) : v.toList = [] := by
  simp

theorem toList_one (v : Vector ScVal 1) (h : 0 < 1) : v.toList = [getElem v 0 h] := by
  refine List.ext_getElem (by simp) fun i hi _ => ?_
  obtain rfl : i = 0 := by simpa using hi
  simp

theorem toList_two (v : Vector ScVal 2) (h : 0 < 2) (h' : 1 < 2) :
    v.toList = [getElem v 0 h, getElem v 1 h'] := by
  refine List.ext_getElem (by simp) fun i hi _ => ?_
  obtain rfl | rfl : i = 0 ∨ i = 1 := by
    have : i < 2 := by simpa using hi
    omega
  · simp
  · simp

end ScVal

/-! ## 2. The fields of a body -/

namespace Fields

open ScVal

variable {event : String}

theorem insertAll_ok : ∀ {m : ScMap} {seen all : List (String × ScVal)},
    insertAll event m seen = .ok all → (seen.map Prod.fst).Nodup →
    ∃ fields, all = seen ++ fields ∧ (all.map Prod.fst).Nodup ∧
      m = fields.foldr (fun field entries => .cons (ofSymbol field.1) field.2 entries) .nil
  | .nil, seen, all, h, hnd => by
    obtain rfl := Except.ok.inj h
    exact ⟨[], by rw [List.append_nil], hnd, rfl⟩
  | .cons key val entries, seen, all, h, hnd => by
    rw [insertAll] at h
    obtain ⟨name, hname, h⟩ := bind_eq_ok.mp h
    obtain ⟨_, hnew, h⟩ := bind_eq_ok.mp h
    rw [ensure_eq_ok, Option.isSome_eq_false_iff, Option.isNone_iff_eq_none] at hnew
    have hkey : key = ofSymbol name := by
      unfold fieldName at hname
      split at hname
      · rw [← Except.ok.inj hname, ofSymbol]
      · cases hname
      · cases hname
    have hfresh : name ∉ seen.map Prod.fst := by
      rw [← Assoc.isSome_lookup_iff, hnew]
      exact Bool.false_ne_true
    have hnd' : ((seen ++ [(name, val)]).map Prod.fst).Nodup := by
      rw [List.map_append, List.nodup_append_comm, List.map_cons, List.map_nil,
        List.singleton_append, List.nodup_cons]
      exact ⟨hfresh, hnd⟩
    obtain ⟨fields, rfl, hall, rfl⟩ := insertAll_ok h hnd'
    exact ⟨(name, val) :: fields, by rw [List.append_assoc, List.singleton_append], hall,
      by rw [hkey, List.foldr_cons]⟩

/-- A body is accepted when it is a map of distinct named fields. -/
theorem new_eq_ok {data : ScVal} {f : Fields} : new event data = .ok f ↔
    f.event = event ∧ data = ofFields f.entries ∧ (f.entries.map Prod.fst).Nodup := by
  constructor
  · intro h
    cases data with
    | map entries =>
      obtain ⟨all, hall, h⟩ := bind_eq_ok.mp h
      obtain rfl := Except.ok.inj h
      obtain ⟨fields, rfl, hnd, rfl⟩ := insertAll_ok hall List.nodup_nil
      exact ⟨rfl, rfl, hnd⟩
    | _ => cases h
  · rintro ⟨rfl, rfl, hnd⟩
    exact new_ofFields f.event hnd

/-- Where a decoder stands: of the fields `all` of the body it has taken those of `taken`, and
`f` holds the others. -/
structure Left (all taken : List (String × ScVal)) (f : Fields) : Prop where
  perm : all.Perm (taken ++ f.entries)
  nodup : (f.entries.map Prod.fst).Nodup

/-- At the start nothing is taken. -/
theorem new_ok {data : ScVal} {f : Fields} (h : new event data = .ok f) :
    data = ofFields f.entries ∧ Left f.entries [] f := by
  obtain ⟨-, hdata, hnd⟩ := new_eq_ok.mp h
  exact ⟨hdata, List.Perm.refl _, hnd⟩

theorem Left.take_ok {all taken : List (String × ScVal)} {f : Fields} (hl : Left all taken f)
    {field : String} {val : ScVal} {f' : Fields} (h : f.take field = .ok (val, f')) :
    Left all ((field, val) :: taken) f' := by
  obtain ⟨_, hval, h⟩ := bind_eq_ok.mp h
  obtain ⟨rfl, rfl⟩ := Prod.mk.inj (Except.ok.inj h)
  have hout := (Assoc.perm_cons_filter hl.nodup (okOr_eq_ok.mp hval)).append_left taken
  exact ⟨(hl.perm.trans hout).trans List.perm_middle, Assoc.nodup_filter hl.nodup _⟩

/-- **One field.**  A decoder that takes a field and reads it goes on with the value read, and the
field was what this value is published as. -/
theorem Left.field {all taken : List (String × ScVal)} {f : Fields} (hl : Left all taken f)
    {α β : Type} {read : ScVal → Except DecodeError α} {publish : α → ScVal}
    (hread : ∀ val a, read val = .ok a → val = publish a) {field : String}
    {k : ScVal × Fields → α → Except DecodeError β} {b : β}
    (h : (f.take field >>= fun r => read r.1 >>= k r) = .ok b) :
    ∃ a f', read (publish a) = .ok a ∧ Left all ((field, publish a) :: taken) f' ∧
      k (publish a, f') a = .ok b := by
  obtain ⟨⟨val, f'⟩, htake, h⟩ := bind_eq_ok.mp h
  obtain ⟨a, ha, h⟩ := bind_eq_ok.mp h
  obtain rfl := hread val a ha
  exact ⟨a, f', ha, hl.take_ok htake, h⟩

/-- The same for a number, which then is of the field's type. -/
theorem Left.number {all taken : List (String × ScVal)} {f : Fields} (hl : Left all taken f)
    {α β : Type} {read : ScVal → Except DecodeError α} {Typed : α → Prop} {publish : α → ScVal}
    (hread : ∀ val a, read val = .ok a → Typed a ∧ val = publish a) {field : String}
    {k : ScVal × Fields → α → Except DecodeError β} {b : β}
    (h : (f.take field >>= fun r => read r.1 >>= k r) = .ok b) :
    ∃ a f', Typed a ∧ Left all ((field, publish a) :: taken) f' ∧ k (publish a, f') a = .ok b := by
  obtain ⟨a, f', ha, hl, h⟩ := hl.field (fun val a ha => (hread val a ha).2) h
  exact ⟨a, f', (hread _ a ha).1, hl, h⟩

theorem firstKey_eq_none {entries : List (String × ScVal)} :
    firstKey entries = none ↔ entries = [] := by
  cases entries with
  | nil => simp [firstKey]
  | cons p entries =>
    rw [firstKey]
    refine ⟨fun h => ?_, fun h => by cases h⟩
    split at h
    · cases h
    · split at h <;> cases h

/-- What is left at the end is nothing. -/
theorem Left.finish_ok {all taken : List (String × ScVal)} {f : Fields} (hl : Left all taken f)
    {u : Unit} (h : f.finish = .ok u) : all.Perm taken := by
  have hnil : f.entries = [] := by
    unfold finish at h
    split at h
    · rename_i hnone
      exact firstKey_eq_none.mp hnone
    · cases h
  simpa only [hnil, List.append_nil] using hl.perm

theorem firstKey_perm {l l' : List (String × ScVal)} (h : l.Perm l') :
    firstKey l = firstKey l' := by
  induction h with
  | nil => rfl
  | cons p _ ih => rw [firstKey, firstKey, ih]
  | swap p q l =>
    cases hl : firstKey l with
    | none =>
      simp only [firstKey, hl]
      rcases lt_trichotomy p.1 q.1 with h | h | h
      · rw [if_pos h, if_neg h.asymm]
      · rw [h]
      · rw [if_neg h.asymm, if_pos h]
    | some other =>
      simp only [firstKey, hl]
      split_ifs <;> grind
  | trans _ _ ih₁ ih₂ => exact ih₁.trans ih₂

/-- Two states of the map that differ in the order of the entries. -/
structure Same (f g : Fields) : Prop where
  event : f.event = g.event
  perm : f.entries.Perm g.entries
  nodup : (f.entries.map Prod.fst).Nodup

section Same

variable {α : Type} {f g : Fields}

theorem Same.take_bind (h : Same f g) {field : String}
    {k : ScVal × Fields → Except DecodeError α}
    (hk : ∀ val f' g', Same f' g' → k (val, f') = k (val, g')) :
    (f.take field >>= k) = (g.take field >>= k) := by
  unfold take
  rw [Assoc.lookup_perm h.perm h.nodup, h.event]
  cases g.entries.lookup field with
  | none => rfl
  | some val =>
    exact hk val _ _ ⟨rfl, h.perm.filter _, Assoc.nodup_filter h.nodup _⟩

theorem Same.finish_bind (h : Same f g) {k : Unit → Except DecodeError α} :
    (f.finish >>= k) = (g.finish >>= k) := by
  unfold finish
  rw [firstKey_perm h.perm, h.event]

end Same

end Fields

/-! ## 3. What each event is published as -/

namespace VeilEvent

open ScVal

/-- The topics after the name. -/
def topics : VeilEvent → List ScVal
  | newCommitment commitment _ _ => [ofU256 commitment]
  | newNullifier nullifier => [ofU256 nullifier]
  | settlement s => [ofU256 s.nullifier, ofAddress s.pool]
  | exit x => [ofU256 x.nullifier, ofAddress x.pool]
  | legacyDeposit d => [ofU256 d.commitment, ofAddress d.pool]
  | publicKey owner _ _ => [ofAddress owner]
  | leafAdded _ _ _ | leafRevoked _ _ => []

/-- The fields of the body, in key order. -/
def fields : VeilEvent → List (String × ScVal)
  | newCommitment _ index encryptedOutput =>
    [("encrypted_output", .bytes encryptedOutput), ("index", ofU32 index)]
  | newNullifier _ => []
  | settlement s =>
    [("amount_bucket", ofI128 s.amountBucket), ("asset", ofAddress s.asset),
      ("output_commitment0", ofU256 s.outputCommitment0),
      ("output_commitment1", ofU256 s.outputCommitment1),
      ("output_index0", ofU32 s.outputIndex0), ("output_index1", ofU32 s.outputIndex1),
      ("public_amount", ofU256 s.publicAmount), ("recipient", ofOptionalAddress s.recipient)]
  | exit x =>
    [("amount_bucket", ofI128 x.amountBucket), ("asset", ofAddress x.asset),
      ("public_amount", ofU256 x.publicAmount), ("recipient", ofAddress x.recipient)]
  | legacyDeposit d =>
    [("amount_bucket", ofI128 d.amountBucket), ("asset", ofAddress d.asset),
      ("index", ofU32 d.index)]
  | publicKey _ encryptionKey noteKey =>
    [("encryption_key", .bytes encryptionKey), ("note_key", .bytes noteKey)]
  | leafAdded leaf index root =>
    [("index", ofU64 index), ("leaf", ofU256 leaf), ("root", ofU256 root)]
  | leafRevoked leaf root => [("leaf", ofU256 leaf), ("root", ofU256 root)]

def encode (v : VeilEvent) : RawEvent where
  topics := ofSymbol v.name :: v.topics
  data := ofFields v.fields

/-- Every number of the event fits its type. -/
def Typed : VeilEvent → Prop
  | newCommitment commitment index _ => IsU256 commitment ∧ index < 2 ^ 32
  | newNullifier nullifier => IsU256 nullifier
  | settlement s =>
    IsU256 s.nullifier ∧ IsU256 s.outputCommitment0 ∧ IsU256 s.outputCommitment1 ∧
      s.outputIndex0 < 2 ^ 32 ∧ s.outputIndex1 < 2 ^ 32 ∧ IsI128 s.amountBucket ∧
      IsU256 s.publicAmount
  | exit x => IsU256 x.nullifier ∧ IsI128 x.amountBucket ∧ IsU256 x.publicAmount
  | legacyDeposit d => IsU256 d.commitment ∧ d.index < 2 ^ 32 ∧ IsI128 d.amountBucket
  | publicKey _ _ _ => True
  | leafAdded leaf index root => IsU256 leaf ∧ index < 2 ^ 64 ∧ IsU256 root
  | leafRevoked leaf root => IsU256 leaf ∧ IsU256 root

theorem nodup_fields (v : VeilEvent) : (v.fields.map Prod.fst).Nodup := by
  cases v <;> simp [fields]

end VeilEvent

/-- On the pool's events the encoding is the pool's. -/
theorem PoolEvent.encode_toVeil (e : PoolEvent) : e.toVeil.encode = e.encode := by
  cases e <;> rfl

/-- And on the allowlist's events the allowlist's. -/
theorem AspEvent.encode_toVeil (e : AspEvent) : e.toVeil.encode = e.encode := by
  cases e <;> rfl

namespace VeilEvent

open ScVal

/-- **Every typed event is read back.** -/
theorem decode_encode {v : VeilEvent} (h : v.Typed) : v.encode.decode = .ok (.event v) := by
  cases v with
  | newCommitment commitment index encryptedOutput =>
    exact PoolEvent.decode_encode (e := .newCommitment commitment index encryptedOutput) h
  | newNullifier nullifier => exact PoolEvent.decode_encode (e := .newNullifier nullifier) h
  | settlement s =>
    exact PoolEvent.decode_encode (e := .settlement s.nullifier s.pool s.outputCommitment0
      s.outputCommitment1 s.outputIndex0 s.outputIndex1 s.amountBucket s.publicAmount s.recipient
      s.asset) h
  | exit x =>
    exact PoolEvent.decode_encode (e := .exit x.nullifier x.pool x.amountBucket x.publicAmount
      x.recipient x.asset) h
  | legacyDeposit d =>
    obtain ⟨hc, hi, hlo, hhi⟩ := h
    simp [encode, name, topics, fields, RawEvent.decode, RawEvent.decodeNamed,
      RawEvent.decodeDeposit, ScVal.topics, Fields.new_ofFields, Fields.take, List.lookup_cons,
      Except.map, ok_bind, readU256_ofU256 _ _ hc, readU32_ofU32 _ _ hi,
      readI128_ofI128 _ _ hlo hhi]
  | publicKey owner encryptionKey noteKey =>
    exact PoolEvent.decode_encode (e := .publicKey owner encryptionKey noteKey) h
  | leafAdded leaf index root => exact AspEvent.decode_encode (e := .leafAdded leaf index root) h
  | leafRevoked leaf root => exact AspEvent.decode_encode (e := .leafRevoked leaf root) h

end VeilEvent

/-! ## 4. The accepted language -/

namespace ScVal

theorem ofFields_injective {fields fields' : List (String × ScVal)}
    (h : ofFields fields = ofFields fields') : fields = fields' := by
  induction fields generalizing fields' with
  | nil =>
    cases fields' with
    | nil => rfl
    | cons p fields' => cases h
  | cons p fields ih =>
    cases fields' with
    | nil => cases h
    | cons p' fields' =>
      simp only [ofFields, List.foldr_cons, map.injEq, ScMap.cons.injEq, ofSymbol, symbol.injEq,
        ScSymbol.utf8.injEq] at h
      obtain ⟨hkey, hval, hrest⟩ := h
      rw [Prod.ext hkey hval, ih (congrArg ScVal.map hrest)]

/-- Two bodies are maps with the same named entries, in any order. -/
def SameEntries (data data' : ScVal) : Prop :=
  ∃ fields fields', data = ofFields fields ∧ data' = ofFields fields' ∧ fields.Perm fields'

theorem SameEntries.symm {data data' : ScVal} :
    SameEntries data data' → SameEntries data' data := by
  rintro ⟨fields, fields', h, h', hp⟩
  exact ⟨fields', fields, h', h, hp.symm⟩

theorem SameEntries.trans {data₁ data₂ data₃ : ScVal} :
    SameEntries data₁ data₂ → SameEntries data₂ data₃ → SameEntries data₁ data₃ := by
  rintro ⟨fields₁, fields₂, h₁, h₂, hp⟩ ⟨fields₂', fields₃, h₂', h₃, hp'⟩
  obtain rfl := ofFields_injective (h₂.symm.trans h₂')
  exact ⟨fields₁, fields₃, h₁, h₃, hp.trans hp'⟩

end ScVal

namespace RawEvent

open ScVal Fields

/-- The same topics, and the same body up to the order of its entries. -/
structure SameUpToOrder (raw raw' : RawEvent) : Prop where
  topics : raw.topics = raw'.topics
  data : SameEntries raw.data raw'.data

theorem SameUpToOrder.symm {raw raw' : RawEvent} (h : raw.SameUpToOrder raw') :
    raw'.SameUpToOrder raw :=
  ⟨h.topics.symm, h.data.symm⟩

theorem SameUpToOrder.trans {raw₁ raw₂ raw₃ : RawEvent} (h : raw₁.SameUpToOrder raw₂)
    (h' : raw₂.SameUpToOrder raw₃) : raw₁.SameUpToOrder raw₃ :=
  ⟨h.topics.trans h'.topics, h.data.trans h'.data⟩

/-- What the decoder of the events named `name` has seen when it returns `v`. -/
structure Reads (raw : RawEvent) (name : String) (v : VeilEvent) : Prop where
  name : v.name = name
  typed : v.Typed
  topics : raw.topics.drop 1 = v.topics
  data : ∃ fields, raw.data = ofFields fields ∧ fields.Perm v.fields

section Inversion

variable {raw : RawEvent} {v : VeilEvent}

-- One step for each step of the decoder; the fields are then compared as a multiset, since they
-- are read in another order than they are published in.

theorem decodeNewCommitment_ok (h : raw.decodeNewCommitment = .ok v) :
    raw.Reads "new_commitment_event" v := by
  obtain ⟨ts, hts, h⟩ := bind_eq_ok.mp h
  obtain ⟨f, hf, h⟩ := bind_eq_ok.mp h
  obtain ⟨hdata, hl⟩ := new_ok hf
  obtain ⟨commitment, hc, h⟩ := bind_eq_ok.mp h
  obtain ⟨index, _, hi, hl, h⟩ := hl.number (fun _ _ => readU32_eq_ok.mp) h
  obtain ⟨output, _, -, hl, h⟩ := hl.field (fun _ _ => readBytes_eq_ok.mp) h
  obtain ⟨_, hend, h⟩ := bind_eq_ok.mp h
  obtain rfl := Except.ok.inj h
  obtain ⟨hc, htopic⟩ := readU256_eq_ok.mp hc
  refine ⟨rfl, ⟨hc, hi⟩, ?_, f.entries, hdata, hl.finish_ok hend⟩
  rw [topics_eq_ok hts, toList_one _ one_pos, htopic, VeilEvent.topics]

theorem decodeNewNullifier_ok (h : raw.decodeNewNullifier = .ok v) :
    raw.Reads "new_nullifier_event" v := by
  obtain ⟨ts, hts, h⟩ := bind_eq_ok.mp h
  obtain ⟨f, hf, h⟩ := bind_eq_ok.mp h
  obtain ⟨hdata, hl⟩ := new_ok hf
  obtain ⟨_, hend, h⟩ := bind_eq_ok.mp h
  obtain ⟨nullifier, hn, h⟩ := bind_eq_ok.mp h
  obtain rfl := Except.ok.inj h
  obtain ⟨hn, htopic⟩ := readU256_eq_ok.mp hn
  refine ⟨rfl, hn, ?_, f.entries, hdata, hl.finish_ok hend⟩
  rw [topics_eq_ok hts, toList_one _ one_pos, htopic, VeilEvent.topics]

theorem decodeSettlement_ok (h : raw.decodeSettlement = .ok v) : raw.Reads "Settlement" v := by
  obtain ⟨ts, hts, h⟩ := bind_eq_ok.mp h
  obtain ⟨f, hf, h⟩ := bind_eq_ok.mp h
  obtain ⟨hdata, hl⟩ := new_ok hf
  obtain ⟨nullifier, hn, h⟩ := bind_eq_ok.mp h
  obtain ⟨pool, hpool, h⟩ := bind_eq_ok.mp h
  obtain ⟨output0, _, h0, hl, h⟩ := hl.number (fun _ _ => readU256_eq_ok.mp) h
  obtain ⟨output1, _, h1, hl, h⟩ := hl.number (fun _ _ => readU256_eq_ok.mp) h
  obtain ⟨index0, _, hi0, hl, h⟩ := hl.number (fun _ _ => readU32_eq_ok.mp) h
  obtain ⟨index1, _, hi1, hl, h⟩ := hl.number (fun _ _ => readU32_eq_ok.mp) h
  obtain ⟨amount, _, ha, hl, h⟩ := hl.number (fun _ _ => readI128_eq_ok.mp) h
  obtain ⟨publicAmount, _, hp, hl, h⟩ := hl.number (fun _ _ => readU256_eq_ok.mp) h
  obtain ⟨recipient, _, -, hl, h⟩ := hl.field (fun _ _ => readOptionalAddress_eq_ok.mp) h
  obtain ⟨asset, _, -, hl, h⟩ := hl.field (fun _ _ => readAddress_eq_ok.mp) h
  obtain ⟨_, hend, h⟩ := bind_eq_ok.mp h
  obtain rfl := Except.ok.inj h
  obtain ⟨hn, htopic⟩ := readU256_eq_ok.mp hn
  refine ⟨rfl, ⟨hn, h0, h1, hi0, hi1, ha, hp⟩, ?_, f.entries, hdata,
    (hl.finish_ok hend).trans ?_⟩
  · rw [topics_eq_ok hts, toList_two _ two_pos one_lt_two, htopic, readAddress_eq_ok.mp hpool,
      VeilEvent.topics]
  · simp only [VeilEvent.fields, List.perm_iff_count, List.count_cons]
    omega

theorem decodeExit_ok (h : raw.decodeExit = .ok v) : raw.Reads "Exit" v := by
  obtain ⟨ts, hts, h⟩ := bind_eq_ok.mp h
  obtain ⟨f, hf, h⟩ := bind_eq_ok.mp h
  obtain ⟨hdata, hl⟩ := new_ok hf
  obtain ⟨nullifier, hn, h⟩ := bind_eq_ok.mp h
  obtain ⟨pool, hpool, h⟩ := bind_eq_ok.mp h
  obtain ⟨amount, _, ha, hl, h⟩ := hl.number (fun _ _ => readI128_eq_ok.mp) h
  obtain ⟨publicAmount, _, hp, hl, h⟩ := hl.number (fun _ _ => readU256_eq_ok.mp) h
  obtain ⟨recipient, _, -, hl, h⟩ := hl.field (fun _ _ => readAddress_eq_ok.mp) h
  obtain ⟨asset, _, -, hl, h⟩ := hl.field (fun _ _ => readAddress_eq_ok.mp) h
  obtain ⟨_, hend, h⟩ := bind_eq_ok.mp h
  obtain rfl := Except.ok.inj h
  obtain ⟨hn, htopic⟩ := readU256_eq_ok.mp hn
  refine ⟨rfl, ⟨hn, ha, hp⟩, ?_, f.entries, hdata, (hl.finish_ok hend).trans ?_⟩
  · rw [topics_eq_ok hts, toList_two _ two_pos one_lt_two, htopic, readAddress_eq_ok.mp hpool,
      VeilEvent.topics]
  · simp only [VeilEvent.fields, List.perm_iff_count, List.count_cons]
    omega

theorem decodeDeposit_ok (h : raw.decodeDeposit = .ok v) : raw.Reads "Deposit" v := by
  obtain ⟨ts, hts, h⟩ := bind_eq_ok.mp h
  obtain ⟨f, hf, h⟩ := bind_eq_ok.mp h
  obtain ⟨hdata, hl⟩ := new_ok hf
  obtain ⟨commitment, hc, h⟩ := bind_eq_ok.mp h
  obtain ⟨pool, hpool, h⟩ := bind_eq_ok.mp h
  obtain ⟨index, _, hi, hl, h⟩ := hl.number (fun _ _ => readU32_eq_ok.mp) h
  obtain ⟨amount, _, ha, hl, h⟩ := hl.number (fun _ _ => readI128_eq_ok.mp) h
  obtain ⟨asset, _, -, hl, h⟩ := hl.field (fun _ _ => readAddress_eq_ok.mp) h
  obtain ⟨_, hend, h⟩ := bind_eq_ok.mp h
  obtain rfl := Except.ok.inj h
  obtain ⟨hc, htopic⟩ := readU256_eq_ok.mp hc
  refine ⟨rfl, ⟨hc, hi, ha⟩, ?_, f.entries, hdata, (hl.finish_ok hend).trans ?_⟩
  · rw [topics_eq_ok hts, toList_two _ two_pos one_lt_two, htopic, readAddress_eq_ok.mp hpool,
      VeilEvent.topics]
  · simp only [VeilEvent.fields, List.perm_iff_count, List.count_cons]
    omega

theorem decodePublicKey_ok (h : raw.decodePublicKey = .ok v) :
    raw.Reads "public_key_event" v := by
  obtain ⟨ts, hts, h⟩ := bind_eq_ok.mp h
  obtain ⟨f, hf, h⟩ := bind_eq_ok.mp h
  obtain ⟨hdata, hl⟩ := new_ok hf
  obtain ⟨owner, howner, h⟩ := bind_eq_ok.mp h
  obtain ⟨encryptionKey, _, -, hl, h⟩ := hl.field (fun _ _ => readBytes_eq_ok.mp) h
  obtain ⟨noteKey, _, -, hl, h⟩ := hl.field (fun _ _ => readBytes_eq_ok.mp) h
  obtain ⟨_, hend, h⟩ := bind_eq_ok.mp h
  obtain rfl := Except.ok.inj h
  refine ⟨rfl, trivial, ?_, f.entries, hdata, (hl.finish_ok hend).trans (List.Perm.swap _ _ _)⟩
  rw [topics_eq_ok hts, toList_one _ one_pos, readAddress_eq_ok.mp howner, VeilEvent.topics]

theorem decodeLeafAdded_ok (h : raw.decodeLeafAdded = .ok v) : raw.Reads "LeafAdded" v := by
  obtain ⟨ts, hts, h⟩ := bind_eq_ok.mp h
  obtain ⟨f, hf, h⟩ := bind_eq_ok.mp h
  obtain ⟨hdata, hl⟩ := new_ok hf
  obtain ⟨leaf, _, hleaf, hl, h⟩ := hl.number (fun _ _ => readU256_eq_ok.mp) h
  obtain ⟨index, _, hi, hl, h⟩ := hl.number (fun _ _ => readU64_eq_ok.mp) h
  obtain ⟨root, _, hroot, hl, h⟩ := hl.number (fun _ _ => readU256_eq_ok.mp) h
  obtain ⟨_, hend, h⟩ := bind_eq_ok.mp h
  obtain rfl := Except.ok.inj h
  refine ⟨rfl, ⟨hleaf, hi, hroot⟩, ?_, f.entries, hdata, (hl.finish_ok hend).trans ?_⟩
  · rw [topics_eq_ok hts, toList_zero, VeilEvent.topics]
  · simp only [VeilEvent.fields, List.perm_iff_count, List.count_cons]
    omega

theorem decodeLeafRevoked_ok (h : raw.decodeLeafRevoked = .ok v) : raw.Reads "LeafRevoked" v := by
  obtain ⟨ts, hts, h⟩ := bind_eq_ok.mp h
  obtain ⟨f, hf, h⟩ := bind_eq_ok.mp h
  obtain ⟨hdata, hl⟩ := new_ok hf
  obtain ⟨leaf, _, hleaf, hl, h⟩ := hl.number (fun _ _ => readU256_eq_ok.mp) h
  obtain ⟨root, _, hroot, hl, h⟩ := hl.number (fun _ _ => readU256_eq_ok.mp) h
  obtain ⟨_, hend, h⟩ := bind_eq_ok.mp h
  obtain rfl := Except.ok.inj h
  refine ⟨rfl, ⟨hleaf, hroot⟩, ?_, f.entries, hdata,
    (hl.finish_ok hend).trans (List.Perm.swap _ _ _)⟩
  rw [topics_eq_ok hts, toList_zero, VeilEvent.topics]

/-- The `match` on the name runs the decoder of that name. -/
theorem decodeNamed_ok {name : String} (h : raw.decodeNamed name = .ok (.event v)) :
    raw.Reads name v := by
  have hmap : ∀ {x : Except DecodeError VeilEvent},
      Except.map Decoded.event x = .ok (.event v) → x = .ok v := by
    intro x hx
    cases x with
    | error e => cases hx
    | ok w => rw [Decoded.event.inj (Except.ok.inj hx)]
  unfold decodeNamed at h
  by_cases h1 : name = "new_commitment_event"
  · rw [if_pos h1] at h
    exact h1 ▸ decodeNewCommitment_ok (hmap h)
  by_cases h2 : name = "new_nullifier_event"
  · rw [if_neg h1, if_pos h2] at h
    exact h2 ▸ decodeNewNullifier_ok (hmap h)
  by_cases h3 : name = "Settlement"
  · rw [if_neg h1, if_neg h2, if_pos h3] at h
    exact h3 ▸ decodeSettlement_ok (hmap h)
  by_cases h4 : name = "Exit"
  · rw [if_neg h1, if_neg h2, if_neg h3, if_pos h4] at h
    exact h4 ▸ decodeExit_ok (hmap h)
  by_cases h5 : name = "Deposit"
  · rw [if_neg h1, if_neg h2, if_neg h3, if_neg h4, if_pos h5] at h
    exact h5 ▸ decodeDeposit_ok (hmap h)
  by_cases h6 : name = "public_key_event"
  · rw [if_neg h1, if_neg h2, if_neg h3, if_neg h4, if_neg h5, if_pos h6] at h
    exact h6 ▸ decodePublicKey_ok (hmap h)
  by_cases h7 : name = "LeafAdded"
  · rw [if_neg h1, if_neg h2, if_neg h3, if_neg h4, if_neg h5, if_neg h6, if_pos h7] at h
    exact h7 ▸ decodeLeafAdded_ok (hmap h)
  by_cases h8 : name = "LeafRevoked"
  · rw [if_neg h1, if_neg h2, if_neg h3, if_neg h4, if_neg h5, if_neg h6, if_neg h7,
      if_pos h8] at h
    exact h8 ▸ decodeLeafRevoked_ok (hmap h)
  rw [if_neg h1, if_neg h2, if_neg h3, if_neg h4, if_neg h5, if_neg h6, if_neg h7,
    if_neg h8] at h
  split at h <;> cases h

/-- **What is accepted is an encoding.** -/
theorem decode_ok (h : raw.decode = .ok (.event v)) :
    v.Typed ∧ raw.SameUpToOrder v.encode := by
  obtain ⟨name, hname, h⟩ := bind_eq_ok.mp h
  obtain ⟨rfl, htyped, htopics, fields, hdata, hperm⟩ := decodeNamed_ok h
  refine ⟨htyped, ?_, fields, v.fields, hdata, rfl, hperm⟩
  rw [eventName_eq_ok hname, htopics, VeilEvent.encode]

end Inversion

section Order

variable {raw : RawEvent} {v : VeilEvent}

theorem SameUpToOrder.new_bind (h : raw.SameUpToOrder v.encode) {event : String} {α : Type}
    {k : Fields → Except DecodeError α} (hk : ∀ f g, Same f g → k f = k g) :
    (Fields.new event raw.data >>= k) = (Fields.new event v.encode.data >>= k) := by
  obtain ⟨-, fields, fields', h₁, h₂, hperm⟩ := h
  obtain rfl : v.fields = fields' := ofFields_injective h₂
  have hnd := (hperm.map Prod.fst).nodup_iff.mpr v.nodup_fields
  rw [h₁, h₂, new_ofFields event hnd, new_ofFields event v.nodup_fields]
  exact hk _ _ ⟨rfl, hperm, hnd⟩

-- The fields of the two bodies stay the same through every field that is taken.

theorem decodeNewCommitment_congr (h : raw.SameUpToOrder v.encode) :
    raw.decodeNewCommitment = v.encode.decodeNewCommitment := by
  unfold decodeNewCommitment
  rw [h.topics]
  exact bind_congr fun _ => h.new_bind fun _ _ h => bind_congr fun _ => h.take_bind fun _ _ _ h =>
    bind_congr fun _ => h.take_bind fun _ _ _ h => bind_congr fun _ => h.finish_bind

theorem decodeNewNullifier_congr (h : raw.SameUpToOrder v.encode) :
    raw.decodeNewNullifier = v.encode.decodeNewNullifier := by
  unfold decodeNewNullifier
  rw [h.topics]
  exact bind_congr fun _ => h.new_bind fun _ _ h => h.finish_bind

theorem decodeSettlement_congr (h : raw.SameUpToOrder v.encode) :
    raw.decodeSettlement = v.encode.decodeSettlement := by
  unfold decodeSettlement
  rw [h.topics]
  exact bind_congr fun _ => h.new_bind fun _ _ h => bind_congr fun _ => bind_congr fun _ =>
    h.take_bind fun _ _ _ h => bind_congr fun _ => h.take_bind fun _ _ _ h => bind_congr fun _ =>
    h.take_bind fun _ _ _ h => bind_congr fun _ => h.take_bind fun _ _ _ h => bind_congr fun _ =>
    h.take_bind fun _ _ _ h => bind_congr fun _ => h.take_bind fun _ _ _ h => bind_congr fun _ =>
    h.take_bind fun _ _ _ h => bind_congr fun _ => h.take_bind fun _ _ _ h => bind_congr fun _ =>
    h.finish_bind

theorem decodeExit_congr (h : raw.SameUpToOrder v.encode) :
    raw.decodeExit = v.encode.decodeExit := by
  unfold decodeExit
  rw [h.topics]
  exact bind_congr fun _ => h.new_bind fun _ _ h => bind_congr fun _ => bind_congr fun _ =>
    h.take_bind fun _ _ _ h => bind_congr fun _ => h.take_bind fun _ _ _ h => bind_congr fun _ =>
    h.take_bind fun _ _ _ h => bind_congr fun _ => h.take_bind fun _ _ _ h => bind_congr fun _ =>
    h.finish_bind

theorem decodeDeposit_congr (h : raw.SameUpToOrder v.encode) :
    raw.decodeDeposit = v.encode.decodeDeposit := by
  unfold decodeDeposit
  rw [h.topics]
  exact bind_congr fun _ => h.new_bind fun _ _ h => bind_congr fun _ => bind_congr fun _ =>
    h.take_bind fun _ _ _ h => bind_congr fun _ => h.take_bind fun _ _ _ h => bind_congr fun _ =>
    h.take_bind fun _ _ _ h => bind_congr fun _ => h.finish_bind

theorem decodePublicKey_congr (h : raw.SameUpToOrder v.encode) :
    raw.decodePublicKey = v.encode.decodePublicKey := by
  unfold decodePublicKey
  rw [h.topics]
  exact bind_congr fun _ => h.new_bind fun _ _ h => bind_congr fun _ => h.take_bind fun _ _ _ h =>
    bind_congr fun _ => h.take_bind fun _ _ _ h => bind_congr fun _ => h.finish_bind

theorem decodeLeafAdded_congr (h : raw.SameUpToOrder v.encode) :
    raw.decodeLeafAdded = v.encode.decodeLeafAdded := by
  unfold decodeLeafAdded
  rw [h.topics]
  exact bind_congr fun _ => h.new_bind fun _ _ h => h.take_bind fun _ _ _ h => bind_congr fun _ =>
    h.take_bind fun _ _ _ h => bind_congr fun _ => h.take_bind fun _ _ _ h => bind_congr fun _ =>
    h.finish_bind

theorem decodeLeafRevoked_congr (h : raw.SameUpToOrder v.encode) :
    raw.decodeLeafRevoked = v.encode.decodeLeafRevoked := by
  unfold decodeLeafRevoked
  rw [h.topics]
  exact bind_congr fun _ => h.new_bind fun _ _ h => h.take_bind fun _ _ _ h => bind_congr fun _ =>
    h.take_bind fun _ _ _ h => bind_congr fun _ => h.finish_bind

/-- **The order of the entries does not matter.** -/
theorem decode_congr (h : raw.SameUpToOrder v.encode) : raw.decode = v.encode.decode := by
  unfold decode
  rw [h.topics]
  refine bind_congr fun name => ?_
  unfold decodeNamed
  rw [decodeNewCommitment_congr h, decodeNewNullifier_congr h, decodeSettlement_congr h,
    decodeExit_congr h, decodeDeposit_congr h, decodePublicKey_congr h, decodeLeafAdded_congr h,
    decodeLeafRevoked_congr h]

/-- **The accepted language.**  The decoder returns `v` on the encodings of `v`, and on nothing
else. -/
theorem decode_eq_event_iff :
    raw.decode = .ok (.event v) ↔ v.Typed ∧ raw.SameUpToOrder v.encode := by
  constructor
  · exact decode_ok
  · rintro ⟨htyped, hsame⟩
    rw [decode_congr hsame]
    exact VeilEvent.decode_encode htyped

end Order

/-- **Events decode exactly.**  The encoding of the eight kinds of event is the contracts' own on
the events these emit.  A typed event's encoding is read back as that event.  Whatever is read as an
event is that event's encoding up to the order of the entries, and no other typed event's; so two
events read as the same were published the same. -/
theorem events_decode_exactly :
    (∀ e : PoolEvent, e.toVeil.encode = e.encode) ∧
    (∀ e : AspEvent, e.toVeil.encode = e.encode) ∧
    (∀ v : VeilEvent, v.Typed → v.encode.decode = .ok (.event v)) ∧
    (∀ (raw : RawEvent) (v : VeilEvent), raw.decode = .ok (.event v) ↔
      v.Typed ∧ raw.SameUpToOrder v.encode) ∧
    (∀ (raw : RawEvent) (v w : VeilEvent), raw.decode = .ok (.event v) → w.Typed →
      raw.SameUpToOrder w.encode → w = v) ∧
    ∀ (raw raw' : RawEvent) (v : VeilEvent), raw.decode = .ok (.event v) →
      raw'.decode = .ok (.event v) → raw.SameUpToOrder raw' := by
  refine ⟨PoolEvent.encode_toVeil, AspEvent.encode_toVeil, fun _ => VeilEvent.decode_encode,
    fun _ _ => decode_eq_event_iff, ?_, ?_⟩
  · intro raw v w hv hw hsame
    have hdecode := decode_eq_event_iff.mpr ⟨hw, hsame⟩
    exact Decoded.event.inj (Except.ok.inj (hdecode.symm.trans hv))
  · intro raw raw' v h h'
    exact (decode_ok h).2.trans (decode_ok h').2.symm

end RawEvent

end Veil
