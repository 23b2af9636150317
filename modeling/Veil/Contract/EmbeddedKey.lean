/-
# The verifier's embedded key

`circuit-keys/src/lib.rs` and `contracts/verifier/build.rs`.  The ceremony's verifying key reaches
the verifier contract through a file.  `vk_to_snarkjs_json` writes each coordinate as a decimal
text; the build script of the contract reads the file, encodes the points for the host and writes
them out as byte constants, which `embedded_vk` hands to the contract at every call.

* `parseFqDecimal_fqToDecimal`: a coordinate survives the text, whatever its leading zeros;
* `g1Bytes_g1ToSnarkjs` and `g2Bytes_g2ToSnarkjs`: a point read from the file has the bytes of the
  point written to it.  The host wants the imaginary half of a coordinate first, the file has the
  real one first, and the halves change places once, in `g2ToSorobanBytes`;
* `literalBytes_fmtBytes` and `text_inj`: a constant's literal stands for its bytes, and the file
  has no second reading.

A point of the crates has a flag for infinity beside its coordinates.  No function here reads it.
-/
import Veil.Contract.Verifier
import Veil.Core.Bytes
import Veil.Core.Digits

namespace Veil

open Tx

namespace CircuitKeys

/-! ## 1. Keys -/

/-- The modulus of BN254's base field. -/
def baseModulus : Nat := 0x30644e72e131a029b85045b68181585d97816a916871ca8d3c208c16d87cfd47

instance : NeZero baseModulus := ⟨by decide⟩

abbrev Fq := ZMod baseModulus

structure Fq2 where
  c0 : Fq
  c1 : Fq
  deriving DecidableEq

structure G1Affine where
  x : Fq
  y : Fq
  infinity : Bool
  deriving DecidableEq

structure G2Affine where
  x : Fq2
  y : Fq2
  infinity : Bool
  deriving DecidableEq

/-- `G1Affine::new_unchecked`. -/
def G1Affine.newUnchecked (x y : Fq) : G1Affine := ⟨x, y, false⟩

/-- `G2Affine::new_unchecked`. -/
def G2Affine.newUnchecked (x y : Fq2) : G2Affine := ⟨x, y, false⟩

/-- `ark_groth16::VerifyingKey<Bn254>`. -/
structure VerifyingKey where
  alphaG1 : G1Affine
  betaG2 : G2Affine
  gammaG2 : G2Affine
  deltaG2 : G2Affine
  gammaAbcG1 : List G1Affine
  deriving DecidableEq

/-! ## 2. The file -/

/-- `serde_json::Value`, without the kinds the file does not have. -/
inductive Value where
  | null
  | number (value : Nat)
  | string (text : List Char)
  | array (values : List Value)
  | object (members : List (String × Value))

namespace Value

def asArray : Value → Option (List Value)
  | .array values => some values
  | _ => none

def asStr : Value → Option (List Char)
  | .string text => some text
  | _ => none

/-- `value[key]`: a member that is not there is `Null`. -/
def index (key : String) : Value → Value
  | .object members => (members.lookup key).getD .null
  | _ => .null

end Value

/-- The 32 bytes of `into_bigint().to_bytes_be()`. -/
def bigintBytes (f : Fq) : List UInt8 := Bytes.digitsBE 32 f.val

def fqToDecimal (f : Fq) : List Char := Nat.toDigits 10 (Bytes.toNatBE (bigintBytes f))

def g1ToSnarkjs (p : G1Affine) : Value :=
  .array [.string (fqToDecimal p.x), .string (fqToDecimal p.y), .string ['1']]

def g2ToSnarkjs (p : G2Affine) : Value :=
  .array [.array [.string (fqToDecimal p.x.c0), .string (fqToDecimal p.x.c1)],
    .array [.string (fqToDecimal p.y.c0), .string (fqToDecimal p.y.c1)],
    .array [.string ['1'], .string ['0']]]

def vkToSnarkjsJson (vk : VerifyingKey) : Value :=
  .object [("protocol", .string "groth16".toList), ("curve", .string "bn128".toList),
    ("nPublic", .number (vk.gammaAbcG1.length - 1)), ("vk_alpha_1", g1ToSnarkjs vk.alphaG1),
    ("vk_beta_2", g2ToSnarkjs vk.betaG2), ("vk_gamma_2", g2ToSnarkjs vk.gammaG2),
    ("vk_delta_2", g2ToSnarkjs vk.deltaG2), ("IC", .array (vk.gammaAbcG1.map g1ToSnarkjs))]

/-! ## 3. The host's encoding -/

/-- At most the first 32 bytes of the integer, right-aligned. -/
def bigintToBe32 (value : Fq) : Bytes 32 :=
  let bytes := bigintBytes value
  ⟨List.replicate (32 - bytes.length) 0 ++ bytes.take (min bytes.length 32), by
    rw [List.length_append, List.length_replicate, List.length_take]
    omega⟩

def g1ToSorobanBytes (p : G1Affine) : Bytes 64 := bigintToBe32 p.x ++ bigintToBe32 p.y

/-- The imaginary half of each coordinate comes first. -/
def g2ToSorobanBytes (p : G2Affine) : Bytes 128 :=
  (bigintToBe32 p.x.c1 ++ bigintToBe32 p.x.c0 : Bytes 64) ++
    (bigintToBe32 p.y.c1 ++ bigintToBe32 p.y.c0 : Bytes 64)

/-! ## 4. The build script -/

/-- The error of `parse_fq_decimal`. -/
structure InvalidDecimal where
  value : List Char

/-- A panic of the build script. -/
inductive BuildPanic where
  | expect (message : String)
  | outOfBounds

/-- `BigUint::parse_bytes` to base 10: a plus sign may stand before the digits, underscores
between them. -/
def parseBytes (text : List Char) : Option Nat :=
  let digits := match text with
    | '+' :: rest => if rest.head? = some '+' then text else rest
    | _ => text
  if digits = [] ∨ digits.head? = some '_' then none
  else if (digits.filter (· ≠ '_')).all Char.isDigit = true then
    some (Digits.decimal (digits.filter (· ≠ '_')))
  else none

/-- `Fq::from_be_bytes_mod_order` reads the bytes of the number. -/
def parseFqDecimal (value : List Char) : Except InvalidDecimal Fq := do
  let bigint ← okOr (parseBytes value) ⟨value⟩
  .ok (Bytes.toNatBE (Bytes.bytesBE bigint) : Fq)

def fq2FromDecimals (c0 c1 : List Char) : Except InvalidDecimal Fq2 := do
  let c0 ← parseFqDecimal c0
  let c1 ← parseFqDecimal c1
  .ok ⟨c0, c1⟩

def expect {α : Type} (x : Option α) (message : String) : Except BuildPanic α :=
  okOr x (.expect message)

/-- `arr[i]`. -/
def valueAt (arr : List Value) (i : Nat) : Except BuildPanic Value := okOr arr[i]? .outOfBounds

/-- A string at its place in an array. -/
def strAt (arr : List Value) (i : Nat) (message : String) : Except BuildPanic (List Char) := do
  let value ← valueAt arr i
  expect value.asStr message

def g1Bytes (pt : Value) : Except BuildPanic (Bytes 64) := do
  let arr ← expect pt.asArray "G1 point must be a JSON array"
  let x ← strAt arr 0 "G1.x must be a string"
  let x ← expect (parseFqDecimal x).toOption "invalid G1.x field element"
  let y ← strAt arr 1 "G1.y must be a string"
  let y ← expect (parseFqDecimal y).toOption "invalid G1.y field element"
  .ok (g1ToSorobanBytes (.newUnchecked x y))

def g2Bytes (pt : Value) : Except BuildPanic (Bytes 128) := do
  let arr ← expect pt.asArray "G2 point must be a JSON array"
  let x ← valueAt arr 0
  let x ← expect x.asArray "G2.x must be a JSON array"
  let y ← valueAt arr 1
  let y ← expect y.asArray "G2.y must be a JSON array"
  let xc0 ← strAt x 0 "G2.x.c0 must be a string"
  let xc1 ← strAt x 1 "G2.x.c1 must be a string"
  let xf ← expect (fq2FromDecimals xc0 xc1).toOption "invalid G2.x field element"
  let yc0 ← strAt y 0 "G2.y.c0 must be a string"
  let yc1 ← strAt y 1 "G2.y.c1 must be a string"
  let yf ← expect (fq2FromDecimals yc0 yc1).toOption "invalid G2.y field element"
  .ok (g2ToSorobanBytes (.newUnchecked xf yf))

def fmtByte (b : UInt8) : List Char := '0' :: 'x' :: Digits.hexDigits 2 b.toNat

/-- Render bytes as a Rust array literal. -/
def fmtBytes (bytes : List UInt8) : List Char :=
  '[' :: List.intercalate [','] (bytes.map fmtByte) ++ [']']

/-- The constants of `vk.rs`. -/
structure VkConstants where
  alphaG1 : Bytes 64
  betaG2 : Bytes 128
  gammaG2 : Bytes 128
  deltaG2 : Bytes 128
  ic : List (Bytes 64)

/-- One line of `vk.rs`. -/
def constLine (declaration literal : List Char) : List Char :=
  declaration ++ (literal ++ [';', '\n'])

/-- The text of `vk.rs`. -/
def VkConstants.text (c : VkConstants) : List Char :=
  "// Auto-generated by build.rs — do not edit manually.\n".toList ++
  (constLine "const VK_ALPHA_G1: [u8; 64] = ".toList (fmtBytes c.alphaG1.toList) ++
  (constLine "const VK_BETA_G2: [u8; 128] = ".toList (fmtBytes c.betaG2.toList) ++
  (constLine "const VK_GAMMA_G2: [u8; 128] = ".toList (fmtBytes c.gammaG2.toList) ++
  (constLine "const VK_DELTA_G2: [u8; 128] = ".toList (fmtBytes c.deltaG2.toList) ++
  ("const VK_IC: [[u8; 64]; ".toList ++ (Nat.toDigits 10 c.ic.length ++ ']' :: (" = [".toList ++
    (List.intercalate [','] (c.ic.map fun point => fmtBytes point.toList) ++ "];\n".toList))))))))

/-- The constants read from the file. -/
def vkConstants (v : Value) : Except BuildPanic VkConstants := do
  let alpha ← g1Bytes (v.index "vk_alpha_1")
  let beta ← g2Bytes (v.index "vk_beta_2")
  let gamma ← g2Bytes (v.index "vk_gamma_2")
  let delta ← g2Bytes (v.index "vk_delta_2")
  let icArr ← expect (v.index "IC").asArray "IC must be a JSON array"
  let ic ← icArr.mapM g1Bytes
  .ok ⟨alpha, beta, gamma, delta, ic⟩

/-- `vk_rs_from_json`.  `fromStr` is `serde_json::from_str`. -/
def vkRsFromJson (fromStr : String → Option Value) (json : String) :
    Except BuildPanic (List Char) := do
  let v ← expect (fromStr json) "VK file is not valid JSON"
  let constants ← vkConstants v
  .ok constants.text

/-- `BytesN::from_array`. -/
def fromArray {n : Nat} (bytes : Bytes n) : Vector UInt8 n :=
  ⟨bytes.toList.toArray, by rw [List.size_toArray, bytes.toList_length]⟩

/-- `embedded_vk`: the contract's key, from the constants. -/
def embeddedVk (c : VkConstants) : CircomGroth16Verifier.VerificationKey where
  alpha := fromArray c.alphaG1
  beta := fromArray c.betaG2
  gamma := fromArray c.gammaG2
  delta := fromArray c.deltaG2
  ic := c.ic.map fromArray

/-! ## 5. A coordinate and its text -/

theorem val_lt (f : Fq) : f.val < 256 ^ 32 := (ZMod.val_lt f).trans (by decide)

theorem toNatBE_bigintBytes (f : Fq) : Bytes.toNatBE (bigintBytes f) = f.val := by
  rw [bigintBytes, Bytes.toNatBE_digitsBE, Nat.mod_eq_of_lt (val_lt f)]

theorem parseBytes_of_isDigit {text : List Char} (hne : text ≠ [])
    (hdigits : ∀ c ∈ text, c.isDigit = true) :
    parseBytes text = some (Digits.decimal text) := by
  obtain ⟨c, rest, rfl⟩ := List.exists_cons_of_ne_nil hne
  have hplus : c ≠ '+' := by
    rintro rfl
    exact absurd (hdigits '+' List.mem_cons_self) (by decide)
  have hscore : ∀ d ∈ c :: rest, d ≠ '_' := by
    rintro d hd rfl
    exact absurd (hdigits '_' hd) (by decide)
  have hfilter : (c :: rest).filter (· ≠ '_') = c :: rest :=
    List.filter_eq_self.mpr fun d hd => decide_eq_true (hscore d hd)
  have hdrop : (match c :: rest with
      | '+' :: tail => if tail.head? = some '+' then c :: rest else tail
      | _ => c :: rest) = c :: rest := by
    split
    · rename_i heq
      exact absurd (List.cons.inj heq).1 hplus
    · rfl
  have hstart : ¬(c :: rest = [] ∨ (c :: rest).head? = some '_') := by
    rintro (h | h)
    · cases h
    · exact hscore c List.mem_cons_self (Option.some.inj h)
  unfold parseBytes
  rw [hdrop]
  dsimp only
  rw [if_neg hstart, hfilter, if_pos (List.all_eq_true.mpr hdigits)]

/-- **A coordinate survives the text.** -/
theorem parseFqDecimal_fqToDecimal (f : Fq) : parseFqDecimal (fqToDecimal f) = .ok f := by
  have hdigits : ∀ c ∈ Nat.toDigits 10 f.val, c.isDigit = true := fun c hc =>
    Nat.isDigit_of_mem_toDigits (by decide) (by decide) hc
  rw [fqToDecimal, toNatBE_bigintBytes, parseFqDecimal,
    parseBytes_of_isDigit Nat.toDigits_ne_nil hdigits, okOr_some, ok_bind, Bytes.toNatBE_bytesBE,
    Digits.decimal_eq, Nat.ofDigitChars_ten_toDigits, ZMod.natCast_zmod_val]

theorem fq2FromDecimals_fqToDecimal (c0 c1 : Fq) :
    fq2FromDecimals (fqToDecimal c0) (fqToDecimal c1) = .ok ⟨c0, c1⟩ := by
  rw [fq2FromDecimals, parseFqDecimal_fqToDecimal, ok_bind, parseFqDecimal_fqToDecimal, ok_bind]

/-- A coordinate in 32 bytes, leading zeros and all. -/
theorem bigintToBe32_eq (f : Fq) : bigintToBe32 f = Bytes.ofNatBE 32 f.val := by
  have hlen : (bigintBytes f).length = 32 := Bytes.length_digitsBE 32 f.val
  refine List.Vector.eq _ _ ?_
  show List.replicate (32 - (bigintBytes f).length) 0 ++
    (bigintBytes f).take (min (bigintBytes f).length 32) = bigintBytes f
  rw [hlen, Nat.sub_self, List.replicate_zero, List.nil_append, Nat.min_self, ← hlen,
    List.take_length]

/-! ## 6. A point and its bytes -/

/-- **A point of the first group**, read from where it was written. -/
theorem g1Bytes_g1ToSnarkjs (p : G1Affine) :
    g1Bytes (g1ToSnarkjs p) = .ok (g1ToSorobanBytes p) := by
  simp only [g1Bytes, g1ToSnarkjs, Value.asArray, Value.asStr, expect, okOr_some, ok_bind, strAt,
    valueAt, List.getElem?_cons_zero, List.getElem?_cons_succ, parseFqDecimal_fqToDecimal,
    Except.toOption]
  rfl

/-- **A point of the second group.** -/
theorem g2Bytes_g2ToSnarkjs (p : G2Affine) :
    g2Bytes (g2ToSnarkjs p) = .ok (g2ToSorobanBytes p) := by
  simp only [g2Bytes, g2ToSnarkjs, Value.asArray, Value.asStr, expect, okOr_some, ok_bind, strAt,
    valueAt, List.getElem?_cons_zero, List.getElem?_cons_succ, fq2FromDecimals_fqToDecimal,
    Except.toOption]
  rfl

theorem mapM_g1Bytes : ∀ points : List G1Affine,
    (points.map g1ToSnarkjs).mapM g1Bytes = .ok (points.map g1ToSorobanBytes)
  | [] => rfl
  | p :: points => by
    rw [List.map_cons, List.mapM_cons, g1Bytes_g1ToSnarkjs, ok_bind, mapM_g1Bytes points, ok_bind]
    rfl

theorem bigintToBe32_inj {f g : Fq} (h : bigintToBe32 f = bigintToBe32 g) : f = g := by
  rw [bigintToBe32_eq, bigintToBe32_eq] at h
  have hval := congrArg (fun b : Bytes 32 => Bytes.toNatBE b.toList) h
  rw [Bytes.toNatBE_ofNatBE (val_lt f), Bytes.toNatBE_ofNatBE (val_lt g)] at hval
  exact ZMod.val_injective _ hval

/-! ## 7. A constant and its literal -/

/-- The bytes of the array literal after its opening bracket. -/
def literalItems : List Char → Option (List UInt8)
  | [']'] => some []
  | '0' :: 'x' :: high :: low :: ']' :: [] => do
    let high ← Digits.hexValue high
    let low ← Digits.hexValue low
    some [UInt8.ofNat (16 * high + low)]
  | '0' :: 'x' :: high :: low :: ',' :: rest => do
    let high ← Digits.hexValue high
    let low ← Digits.hexValue low
    let bytes ← literalItems rest
    some (UInt8.ofNat (16 * high + low) :: bytes)
  | _ => none

/-- The bytes a Rust array literal of hexadecimal bytes stands for. -/
def literalBytes : List Char → Option (List UInt8)
  | '[' :: rest => literalItems rest
  | _ => none

/-- A byte is what its two digits are read as. -/
theorem hexValue_byte (b : UInt8) :
    Digits.hexValue (Nat.digitChar (b.toNat / 16 % 16)) = some (b.toNat / 16 % 16) ∧
      Digits.hexValue (Nat.digitChar (b.toNat % 16)) = some (b.toNat % 16) ∧
      UInt8.ofNat (16 * (b.toNat / 16 % 16) + b.toNat % 16) = b := by
  have hbyte : 16 * (b.toNat / 16 % 16) + b.toNat % 16 = b.toNat := by
    have := b.toNat_lt
    omega
  exact ⟨Digits.hexValue_digitChar _ (Nat.mod_lt _ (by decide)),
    Digits.hexValue_digitChar _ (Nat.mod_lt _ (by decide)), by rw [hbyte, UInt8.ofNat_toNat]⟩

theorem literalItems_intercalate : ∀ bytes : List UInt8,
    literalItems (List.intercalate [','] (bytes.map fmtByte) ++ [']']) = some bytes
  | [] => rfl
  | [b] => by
    obtain ⟨hhigh, hlow, hbyte⟩ := hexValue_byte b
    show literalItems ['0', 'x', Nat.digitChar (b.toNat / 16 % 16),
      Nat.digitChar (b.toNat % 16), ']'] = _
    rw [literalItems, hhigh, hlow]
    exact congrArg (fun byte => some [byte]) hbyte
  | b :: c :: bytes => by
    obtain ⟨hhigh, hlow, hbyte⟩ := hexValue_byte b
    have ih := literalItems_intercalate (c :: bytes)
    show literalItems ('0' :: 'x' :: Nat.digitChar (b.toNat / 16 % 16) ::
      Nat.digitChar (b.toNat % 16) :: ',' :: _) = _
    rw [literalItems, hhigh, hlow]
    show (do
      let rest ← literalItems (List.intercalate [','] ((c :: bytes).map fmtByte) ++ [']'])
      some (UInt8.ofNat (16 * (b.toNat / 16 % 16) + b.toNat % 16) :: rest)) = _
    rw [ih, hbyte]
    rfl

/-- **A constant's literal stands for its bytes.** -/
theorem literalBytes_fmtBytes (bytes : List UInt8) : literalBytes (fmtBytes bytes) = some bytes :=
  literalItems_intercalate bytes

/-! ## 8. The embedded key -/

/-- The constants the verifying key should become. -/
def VerifyingKey.constants (vk : VerifyingKey) : VkConstants where
  alphaG1 := g1ToSorobanBytes vk.alphaG1
  betaG2 := g2ToSorobanBytes vk.betaG2
  gammaG2 := g2ToSorobanBytes vk.gammaG2
  deltaG2 := g2ToSorobanBytes vk.deltaG2
  ic := vk.gammaAbcG1.map g1ToSorobanBytes

theorem vkConstants_vkToSnarkjsJson (vk : VerifyingKey) :
    vkConstants (vkToSnarkjsJson vk) = .ok vk.constants := by
  have halpha : (vkToSnarkjsJson vk).index "vk_alpha_1" = g1ToSnarkjs vk.alphaG1 := rfl
  have hbeta : (vkToSnarkjsJson vk).index "vk_beta_2" = g2ToSnarkjs vk.betaG2 := rfl
  have hgamma : (vkToSnarkjsJson vk).index "vk_gamma_2" = g2ToSnarkjs vk.gammaG2 := rfl
  have hdelta : (vkToSnarkjsJson vk).index "vk_delta_2" = g2ToSnarkjs vk.deltaG2 := rfl
  have hic : (vkToSnarkjsJson vk).index "IC" = .array (vk.gammaAbcG1.map g1ToSnarkjs) := rfl
  rw [vkConstants, halpha, hbeta, hgamma, hdelta, hic, g1Bytes_g1ToSnarkjs, ok_bind,
    g2Bytes_g2ToSnarkjs, ok_bind, g2Bytes_g2ToSnarkjs, ok_bind, g2Bytes_g2ToSnarkjs, ok_bind,
    Value.asArray, expect, okOr_some, ok_bind, mapM_g1Bytes, ok_bind]
  rfl

/-- Points with the same coordinates. -/
def G1Affine.Same (p q : G1Affine) : Prop := p.x = q.x ∧ p.y = q.y

def G2Affine.Same (p q : G2Affine) : Prop := p.x = q.x ∧ p.y = q.y

/-- Keys with the same coordinates, point by point. -/
structure VerifyingKey.Same (vk vk' : VerifyingKey) : Prop where
  alphaG1 : vk.alphaG1.Same vk'.alphaG1
  betaG2 : vk.betaG2.Same vk'.betaG2
  gammaG2 : vk.gammaG2.Same vk'.gammaG2
  deltaG2 : vk.deltaG2.Same vk'.deltaG2
  gammaAbcG1 : List.Forall₂ G1Affine.Same vk.gammaAbcG1 vk'.gammaAbcG1

theorem same_of_g1ToSorobanBytes {p q : G1Affine}
    (h : g1ToSorobanBytes p = g1ToSorobanBytes q) : p.Same q := by
  obtain ⟨hx, hy⟩ := Bytes.append_inj h
  exact ⟨bigintToBe32_inj hx, bigintToBe32_inj hy⟩

theorem same_of_g2ToSorobanBytes {p q : G2Affine}
    (h : g2ToSorobanBytes p = g2ToSorobanBytes q) : p.Same q := by
  have hfq2 : ∀ {a b : Fq2}, (bigintToBe32 a.c1 ++ bigintToBe32 a.c0 : Bytes 64) =
      bigintToBe32 b.c1 ++ bigintToBe32 b.c0 → a = b := by
    rintro ⟨a0, a1⟩ ⟨b0, b1⟩ hab
    obtain ⟨h1, h0⟩ := Bytes.append_inj hab
    have hc0 : a0 = b0 := bigintToBe32_inj h0
    have hc1 : a1 = b1 := bigintToBe32_inj h1
    rw [hc0, hc1]
  obtain ⟨hx, hy⟩ := Bytes.append_inj h
  exact ⟨hfq2 hx, hfq2 hy⟩

theorem forall₂_same_of_map : ∀ {ps qs : List G1Affine},
    ps.map g1ToSorobanBytes = qs.map g1ToSorobanBytes → List.Forall₂ G1Affine.Same ps qs
  | [], [], _ => .nil
  | p :: ps, q :: qs, h => by
    obtain ⟨hp, hps⟩ := List.cons.inj h
    exact .cons (same_of_g1ToSorobanBytes hp) (forall₂_same_of_map hps)

/-- **Constants determine coordinates.** -/
theorem same_of_constants {vk vk' : VerifyingKey} (h : vk.constants = vk'.constants) :
    vk.Same vk' := by
  simp only [VerifyingKey.constants, VkConstants.mk.injEq] at h
  obtain ⟨halpha, hbeta, hgamma, hdelta, hic⟩ := h
  exact ⟨same_of_g1ToSorobanBytes halpha, same_of_g2ToSorobanBytes hbeta,
    same_of_g2ToSorobanBytes hgamma, same_of_g2ToSorobanBytes hdelta, forall₂_same_of_map hic⟩

theorem fromArray_inj {n : Nat} {a b : Bytes n} (h : fromArray a = fromArray b) : a = b := by
  have hlist : (fromArray a).toArray.toList = (fromArray b).toArray.toList := by rw [h]
  exact List.Vector.eq _ _ hlist

theorem embeddedVk_inj {c c' : VkConstants} (h : embeddedVk c = embeddedVk c') : c = c' := by
  cases c
  cases c'
  simp only [embeddedVk, CircomGroth16Verifier.VerificationKey.mk.injEq] at h
  obtain ⟨halpha, hbeta, hgamma, hdelta, hic⟩ := h
  rw [fromArray_inj halpha, fromArray_inj hbeta, fromArray_inj hgamma, fromArray_inj hdelta,
    List.map_injective_iff.mpr (fun _ _ => fromArray_inj) hic]

/-! ## 9. The text of the constants -/

theorem intercalate_cons_cons (x y : List Char) (l : List (List Char)) :
    List.intercalate [','] (x :: y :: l) = x ++ ',' :: List.intercalate [','] (y :: l) := by
  simp [List.intercalate]

/-- The width of items of one width, with commas between. -/
theorem length_intercalate {k : Nat} : ∀ {l : List (List Char)}, (∀ x ∈ l, x.length = k) →
    (List.intercalate [','] l).length = l.length * k + (l.length - 1)
  | [], _ => by rw [List.length_nil, Nat.zero_mul]; rfl
  | [x], h => by
    rw [List.intercalate_singleton, h x List.mem_cons_self, List.length_singleton, Nat.one_mul]
    rfl
  | x :: y :: l, h => by
    have ih := length_intercalate fun z hz => h z (List.mem_cons_of_mem x hz)
    have hcount : (x :: y :: l).length * k = (y :: l).length * k + k := Nat.succ_mul _ k
    rw [intercalate_cons_cons, List.length_append, List.length_cons, ih, h x List.mem_cons_self,
      hcount]
    simp only [List.length_cons]
    omega

/-- As many items of one width, with commas between, are told apart by the text. -/
theorem intercalate_inj {k : Nat} : ∀ {l l' : List (List Char)}, (∀ x ∈ l, x.length = k) →
    (∀ x ∈ l', x.length = k) → l.length = l'.length →
    List.intercalate [','] l = List.intercalate [','] l' → l = l'
  | [], [], _, _, _, _ => rfl
  | [x], [x'], _, _, _, h => by
    rw [List.intercalate_singleton, List.intercalate_singleton] at h
    rw [h]
  | x :: y :: l, x' :: y' :: l', hl, hl', hlen, h => by
    rw [intercalate_cons_cons, intercalate_cons_cons] at h
    have hwidth : x.length = x'.length :=
      (hl x List.mem_cons_self).trans (hl' x' List.mem_cons_self).symm
    obtain ⟨hx, hrest⟩ := List.append_inj h hwidth
    have htail := intercalate_inj (fun z hz => hl z (List.mem_cons_of_mem x hz))
      (fun z hz => hl' z (List.mem_cons_of_mem x' hz)) (Nat.succ.inj hlen) (List.cons.inj hrest).2
    rw [hx, htail]

theorem fmtBytes_inj {a b : List UInt8} (h : fmtBytes a = fmtBytes b) : a = b := by
  have hread := congrArg literalBytes h
  rwa [literalBytes_fmtBytes, literalBytes_fmtBytes, Option.some.injEq] at hread

theorem length_fmtBytes {n : Nat} (bytes : Bytes n) :
    (fmtBytes bytes.toList).length = n * 4 + (n - 1) + 2 := by
  have hitems : ∀ x ∈ bytes.toList.map fmtByte, x.length = 4 := by
    intro x hx
    obtain ⟨b, -, rfl⟩ := List.mem_map.mp hx
    rfl
  rw [fmtBytes, List.length_append, List.length_cons, length_intercalate hitems, List.length_map,
    bytes.toList_length]
  rfl

/-- A constant's line, followed by more text. -/
theorem constLine_append_inj {n : Nat} {declaration : List Char} {a b : Bytes n}
    {s s' : List Char} (h : constLine declaration (fmtBytes a.toList) ++ s =
      constLine declaration (fmtBytes b.toList) ++ s') : a = b ∧ s = s' := by
  simp only [constLine, List.append_assoc] at h
  obtain ⟨htext, hrest⟩ := List.append_inj (List.append_cancel_left h)
    ((length_fmtBytes a).trans (length_fmtBytes b).symm)
  exact ⟨List.Vector.eq _ _ (fmtBytes_inj htext), List.append_cancel_left hrest⟩

/-- The number of points ends at its bracket. -/
theorem toDigits_append_inj {m n : Nat} {s s' : List Char}
    (h : Nat.toDigits 10 m ++ ']' :: s = Nat.toDigits 10 n ++ ']' :: s') : m = n ∧ s = s' := by
  have hspan : ∀ (k : Nat) (t : List Char),
      (Nat.toDigits 10 k ++ ']' :: t).span (· ≠ ']') = (Nat.toDigits 10 k, ']' :: t) := by
    intro k t
    have hdigits : ∀ c ∈ Nat.toDigits 10 k, decide (c ≠ ']') = true := by
      intro c hc
      refine decide_eq_true ?_
      rintro rfl
      exact absurd (Nat.isDigit_of_mem_toDigits (by decide) (by decide) hc) (by decide)
    rw [List.span_eq_takeWhile_dropWhile, List.takeWhile_append_of_pos hdigits,
      List.dropWhile_append_of_pos hdigits]
    simp
  have hboth := congrArg (List.span (· ≠ ']')) h
  rw [hspan, hspan, Prod.mk.injEq] at hboth
  refine ⟨?_, (List.cons.inj hboth.2).2⟩
  rw [← Nat.ofDigitChars_ten_toDigits (n := m), hboth.1, Nat.ofDigitChars_ten_toDigits]

/-- The line of the points, read from its number on. -/
theorem icLine_inj {declaration close tail : List Char} {ic ic' : List (Bytes 64)}
    (h : declaration ++ (Nat.toDigits 10 ic.length ++ ']' :: (close ++
        (List.intercalate [','] (ic.map fun point => fmtBytes point.toList) ++ tail))) =
      declaration ++ (Nat.toDigits 10 ic'.length ++ ']' :: (close ++
        (List.intercalate [','] (ic'.map fun point => fmtBytes point.toList) ++ tail)))) :
    ic = ic' := by
  obtain ⟨hlen, hrest⟩ := toDigits_append_inj (List.append_cancel_left h)
  have hjoined := List.append_cancel_right (List.append_cancel_left hrest)
  have hwidth : ∀ points : List (Bytes 64),
      ∀ x ∈ points.map fun point => fmtBytes point.toList, x.length = 64 * 4 + (64 - 1) + 2 := by
    intro points x hx
    obtain ⟨point, -, rfl⟩ := List.mem_map.mp hx
    exact length_fmtBytes point
  have hitems := intercalate_inj (hwidth ic) (hwidth ic')
    (by rw [List.length_map, List.length_map, hlen]) hjoined
  exact List.map_injective_iff.mpr (fun a b hab => List.Vector.eq _ _ (fmtBytes_inj hab)) hitems

/-- **The text determines the constants.** -/
theorem text_inj {c c' : VkConstants} (h : c.text = c'.text) : c = c' := by
  obtain ⟨alpha, beta, gamma, delta, ic⟩ := c
  obtain ⟨alpha', beta', gamma', delta', ic'⟩ := c'
  unfold VkConstants.text at h
  obtain ⟨halpha, h⟩ := constLine_append_inj (List.append_cancel_left h)
  obtain ⟨hbeta, h⟩ := constLine_append_inj h
  obtain ⟨hgamma, h⟩ := constLine_append_inj h
  obtain ⟨hdelta, h⟩ := constLine_append_inj h
  have hic := icLine_inj h
  dsimp only at halpha hbeta hgamma hdelta hic
  rw [halpha, hbeta, hgamma, hdelta, hic]

/-! ## 10. The embedded key is the trusted one -/

/-- **The embedded verification key is the trusted one.**  For every verifying key, with any number
of points: the build script writes the encodings of the key's own points, in their order; every
coordinate survives its decimal text, and stands in 32 bytes with the imaginary half before the real
one; and keys with different coordinates give different files, and different keys of the
contract. -/
theorem embedded_key_is_the_trusted_one {fromStr : String → Option Value} {json : String}
    {vk : VerifyingKey} (hjson : fromStr json = some (vkToSnarkjsJson vk)) :
    vkRsFromJson fromStr json = .ok (VkConstants.text
      { alphaG1 := g1ToSorobanBytes vk.alphaG1
        betaG2 := g2ToSorobanBytes vk.betaG2
        gammaG2 := g2ToSorobanBytes vk.gammaG2
        deltaG2 := g2ToSorobanBytes vk.deltaG2
        ic := vk.gammaAbcG1.map g1ToSorobanBytes }) ∧
    (∀ bytes, literalBytes (fmtBytes bytes) = some bytes) ∧
    (∀ f : Fq, parseFqDecimal (fqToDecimal f) = .ok f ∧ bigintToBe32 f = Bytes.ofNatBE 32 f.val) ∧
    (∀ p : G2Affine, (g2ToSorobanBytes p).toList =
      (Bytes.ofNatBE 32 p.x.c1.val).toList ++ (Bytes.ofNatBE 32 p.x.c0.val).toList ++
        ((Bytes.ofNatBE 32 p.y.c1.val).toList ++ (Bytes.ofNatBE 32 p.y.c0.val).toList)) ∧
    ∀ {json' : String} {vk' : VerifyingKey}, fromStr json' = some (vkToSnarkjsJson vk') →
      ¬vk.Same vk' →
      vkRsFromJson fromStr json ≠ vkRsFromJson fromStr json' ∧
        embeddedVk vk.constants ≠ embeddedVk vk'.constants := by
  have hfile : ∀ {json : String} {vk : VerifyingKey}, fromStr json = some (vkToSnarkjsJson vk) →
      vkRsFromJson fromStr json = .ok vk.constants.text := by
    intro json vk hjson
    rw [vkRsFromJson, hjson, expect, okOr_some, ok_bind, vkConstants_vkToSnarkjsJson, ok_bind]
  refine ⟨hfile hjson, literalBytes_fmtBytes,
    fun f => ⟨parseFqDecimal_fqToDecimal f, bigintToBe32_eq f⟩, fun p => ?_, ?_⟩
  · simp only [← bigintToBe32_eq]
    rfl
  · intro json' vk' hjson' hdiff
    refine ⟨fun h => hdiff ?_, fun h => hdiff (same_of_constants (embeddedVk_inj h))⟩
    rw [hfile hjson, hfile hjson'] at h
    exact same_of_constants (text_inj (Except.ok.inj h))

/-- The generators of the two groups. -/
def g1Generator : G1Affine := ⟨1, ((2 : Nat) : Fq), false⟩

def g2Generator : G2Affine where
  x := ⟨10857046999023057135944570762232829481370756359578518086990519993285655852781,
    11559732032986387107991004021392285783925812861821192530917403151452391805634⟩
  y := ⟨8495653923123431417604973247489272438418190587263600148770280649306958101930,
    4082367875863433681332203403145435568316851327593401208105741076214120093531⟩
  infinity := false

def generatorKey (ic : List G1Affine) : VerifyingKey :=
  ⟨g1Generator, g2Generator, g2Generator, g2Generator, ic⟩

/-- The file of such a key. -/
def generatorJson (ic : String) : String :=
  let g2 :=
    "[[\"10857046999023057135944570762232829481370756359578518086990519993285655852781\"," ++
    "\"11559732032986387107991004021392285783925812861821192530917403151452391805634\"]," ++
    "[\"8495653923123431417604973247489272438418190587263600148770280649306958101930\"," ++
    "\"4082367875863433681332203403145435568316851327593401208105741076214120093531\"]," ++
    "[\"1\",\"0\"]]"
  "\x7b\"protocol\":\"groth16\",\"curve\":\"bn128\",\"nPublic\":0," ++
    "\"vk_alpha_1\":[\"1\",\"2\",\"1\"],\"vk_beta_2\":" ++ g2 ++ ",\"vk_gamma_2\":" ++ g2 ++
    ",\"vk_delta_2\":" ++ g2 ++ ",\"IC\":" ++ ic ++ "\x7d"

/-- `serde_json::from_str` on two such files. -/
def generatorFromStr (text : String) : Option Value :=
  if text = generatorJson "[[\"1\",\"2\",\"1\"]]" then
    some (vkToSnarkjsJson (generatorKey [g1Generator]))
  else if text = generatorJson "[]" then some (vkToSnarkjsJson (generatorKey []))
  else none

/-- The generators in the file of a key are the generators in its constants, and a key without the
point is another. -/
theorem generator_key_is_embedded :
    vkRsFromJson generatorFromStr (generatorJson "[[\"1\",\"2\",\"1\"]]") =
        .ok (generatorKey [g1Generator]).constants.text ∧
      (generatorKey [g1Generator]).constants.ic.map List.Vector.toList =
        [List.replicate 31 0 ++ [1] ++ (List.replicate 31 0 ++ [2])] ∧
      vkRsFromJson generatorFromStr (generatorJson "[[\"1\",\"2\",\"1\"]]") ≠
        vkRsFromJson generatorFromStr (generatorJson "[]") := by
  have hone : generatorFromStr (generatorJson "[[\"1\",\"2\",\"1\"]]") =
      some (vkToSnarkjsJson (generatorKey [g1Generator])) := if_pos rfl
  have hnone : generatorFromStr (generatorJson "[]") =
      some (vkToSnarkjsJson (generatorKey [])) := by
    have hne : generatorJson "[]" ≠ generatorJson "[[\"1\",\"2\",\"1\"]]" := by decide +kernel
    rw [generatorFromStr, if_neg hne, if_pos rfl]
  obtain ⟨hfile, -, -, -, hdiff⟩ := embedded_key_is_the_trusted_one hone
  refine ⟨hfile, by decide +kernel, (hdiff hnone fun hsame => ?_).1⟩
  cases hsame.gammaAbcG1

end CircuitKeys

end Veil
