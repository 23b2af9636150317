/-
# The hashes of the system

Two modes of the Poseidon2 permutation are in use.

* `compress`, the node hash of both Merkle trees: the first output of the width-2 permutation
  plus the left input.  The indexer has it in `tree.rs`, the circuits as `PoseidonCompress`.
* `poseidon2Two` and `poseidon2Three`, the circuit's `Poseidon2(2)` and `Poseidon2(3)`: the
  inputs fill the state, the domain separator is its last element, and the first output is the
  hash.  Keys, commitments, signatures, nullifiers and membership leaves are such hashes.

The contracts hash 256-bit integers.  `poseidon2Compress` refuses an input outside the field by
panicking (`none`) and otherwise returns the field's result as an integer.

`getZeroes` is the table the contracts start their trees from.  That its entries are the roots
of the empty trees of each depth is not an assumption here: `zeroes_chain` computes them.
-/
import Veil.Merkle.Tree
import Veil.Poseidon2.Bn256

namespace Veil

/-! ## 1. The field's hashes -/

/-- `tree::compress`. -/
@[irreducible] def compress (left right : F) : F :=
  ((Poseidon2.permutation Poseidon2.bn256Params2 [left, right]).getD []).headD 0 + left

/-- The circuit's `Poseidon2(2)`. -/
@[irreducible] def poseidon2Two (a b domainSeparation : F) : F :=
  ((Poseidon2.permutation Poseidon2.bn256Params3 [a, b, domainSeparation]).getD []).headD 0

/-- The circuit's `Poseidon2(3)`. -/
@[irreducible] def poseidon2Three (a b c domainSeparation : F) : F :=
  ((Poseidon2.permutation Poseidon2.bn256Params4 [a, b, c, domainSeparation]).getD []).headD 0

/-! ## 2. The contracts' hash -/

/-- `soroban_utils::poseidon2_compress`, on a host that reads of a partial round's row the one
constant it needs (`Contract/HostHash.lean`).  Its permutation is the width-2 instance; the first
output is added to the left input as integers and reduced once. -/
def poseidon2Compress (left right : Nat) : Option Nat :=
  if left ≥ bn256Modulus ∨ right ≥ bn256Modulus then none
  else
    let out := (Poseidon2.permutation Poseidon2.bn256Params2 [(left : F), (right : F)]).getD []
    let compressed0 := (out.headD 0).val + left
    some (if compressed0 ≥ bn256Modulus then compressed0 % bn256Modulus else compressed0)

/-- What `poseidon2Compress` computes on field elements, as a total function. -/
def compressNat (left right : Nat) : Nat := (compress left right).val

theorem poseidon2Compress_of_lt {left right : Nat} (hl : left < bn256Modulus)
    (hr : right < bn256Modulus) : poseidon2Compress left right = some (compressNat left right) := by
  have hval : ((left : F)).val = left := ZMod.val_natCast_of_lt hl
  rw [poseidon2Compress, if_neg (by omega)]
  simp only [compressNat, compress, ZMod.val_add, hval, Option.some.injEq]
  split
  · rfl
  · rw [Nat.mod_eq_of_lt (by omega)]

theorem compressNat_lt (left right : Nat) : compressNat left right < bn256Modulus :=
  ZMod.val_lt _

theorem val_compress (a b : F) : (compress a b).val = compressNat a.val b.val := by
  simp [compressNat]

/-! ## 3. The empty trees -/

/-- `soroban_utils::get_zeroes`. -/
def getZeroes : List Nat :=
  [0x25302288db99350344974183ce310d63b53abb9ef0f8575753eed36e0118f9ce,
   0x21f4ea2492ade006a8ee7fb764060a95a4eef5ca931e037bcdf05fc28067d008,
   0x0ebfb4d2f05bb6a473c9bff72586fec806f1ac237015c570d7c78249cf7d7740,
   0x066882a5dab186d4d63fa6600f9ea3d5cdfef2a2811c89731128a729d7e8b897,
   0x065db3148d8da5329beaec5042785c69f2ce0709e26d468bda1e255c599b5686,
   0x19926faa23b0737d467f9476f0f84b2968ff6666e16a23e4d44898f884504764,
   0x287c485a72ccc8d4d80692d97eb62c164953a0422791f6af6214a9a7ad2279c0,
   0x1f729e103e7d415f728dc945e3b6e2c40ac0cb369e532ba50a569790cdde2acc,
   0x1887e71f92217ffe86620e6ea5a71ad3521fade4c83203ffa3e838fe3d6e7203,
   0x295aa78e56c7a09a864f2f4175100095f3e7b9ef2a911af87cb0f3f7eef27700,
   0x0517032a796b0340dc5f9df28b1fd320daba24d5a45335a137167300ee368828,
   0x15fadf4947d2a40c7b439e83ea3c979ff725aad11c47aaaf892aab413db2dcdd,
   0x00acb7236b6d87f4875b3b9d1720a9e0682c70e4bc6d54edf61faa2bc93841d6,
   0x09836dd9054d560ae60ea6a8033404b3e40309f6ee4d170acb92e6667e86c775,
   0x2198946b17f9ba035d7ee728741ca5f4e5875cb6afb29684a6f5f9a82feec482,
   0x15d4b16830604dbe0b3212e31f9574787c15b0f54e5e24b080687e7a6ef6d455,
   0x2d07f73e04cf0a538037ba07561651ac979bb00e1705c75ddc9516ec4b8a6a76,
   0x02f8731aea289a6b401000487e8c6925c922407eeca58f2e18cc8ad9b6c5d13f,
   0x0a30053c1787c79782e60bc8d825e9e323c8a902f93aa5923c24d17d16db925c,
   0x0ea3058d9958ba5fe441fbd79dc968f449215ddee66146161afcf34c34bfa490,
   0x27b9937e47a65983ad50a5b7f6b9cf0542c91a8dfa1714cef89013438a06f9b7,
   0x2d347be4e547c5837c1b2172322628a0c48d668193196791b310674b0453c039,
   0x03f2461b35b892fc8c589706283d1083f4d2d66be4f97e461abaf2f06f89cffd,
   0x259b8fa0082cf6066f005a0a49006712fe1dcfef6a98d68f7ab445f88adb61a7,
   0x1980a5f7eac09daac7b2d2179ba1d970fb3f0213dd90613128f5d55863d84414,
   0x1cfcd94aabc23cacd4ccab22e87d2303200d09b03042b2047f03d2e0def57e85,
   0x102bdc81acbf8c52d35871a21ff27516ddbe6e31ef51740c49bd2ee2b1980c21,
   0x2fad84f388a263e714c7b39fb0dd24be6158b9e21480aa3a60778707889f76ad,
   0x2ace942d30becb369f1cfd025b5394d6ee4c97f55930048a18fb501128c87777,
   0x0930feccbf762a6b239acee2c369de9a31bd3e232c90c64af141945c1c415463,
   0x1a59e2ba55f1e829bca2c6316a9ccd08017d2e9bf532942c26d82365ca604b58,
   0x1a8e840c84e2fb5212d61f09ad5f91d6a70a83074e942772ef74b42d12a11f50,
   0x134b50df02e2ccb98b59af2c2c55d7a41ff102681730c42ba364dbff1271cf62]

/-- `EMPTY_LEAF` of `tree.rs`, and the first entry of the contracts' table. -/
def emptyLeaf : F := 0x25302288db99350344974183ce310d63b53abb9ef0f8575753eed36e0118f9ce

theorem getZeroes_getElem? {i : Nat} (hi : i < 33) :
    getZeroes[i]? = some (getZeroes.getD i 0) := by
  have hlen : i < getZeroes.length := hi
  rw [List.getElem?_eq_getElem hlen, List.getD_eq_getElem _ _ hlen]

/-- Each entry of the table is the compression of the one before it with itself. -/
theorem zeroes_chain : ∀ i < 32, compress (getZeroes.getD i 0 : Nat) (getZeroes.getD i 0 : Nat) =
    (getZeroes.getD (i + 1) 0 : Nat) := by
  decide +kernel

theorem getZeroes_lt : ∀ i < 33, getZeroes.getD i 0 < bn256Modulus := by
  decide +kernel

/-- **The table is the empty trees.**  Its entry at a level is the root of the tree of that depth
all of whose leaves are the empty leaf. -/
theorem getZeroes_eq_zeroAt : ∀ i ≤ 32,
    ((getZeroes.getD i 0 : Nat) : F) = Merkle.zeroAt compress emptyLeaf i
  | 0, _ => rfl
  | i + 1, h => by
    rw [Merkle.zeroAt_succ, ← getZeroes_eq_zeroAt i (by omega), zeroes_chain i (by omega)]

/-- The empty leaf as the contracts hold it. -/
def emptyLeafNat : Nat := emptyLeaf.val

/-- The same over the contracts' integers. -/
theorem getZeroes_eq_zeroAt_nat {i : Nat} (h : i ≤ 32) :
    getZeroes.getD i 0 = Merkle.zeroAt compressNat emptyLeafNat i := by
  have hval : (Merkle.zeroAt compress emptyLeaf i).val =
      Merkle.zeroAt compressNat emptyLeafNat i := Merkle.map_zeroAt val_compress emptyLeaf i
  rw [← hval, ← getZeroes_eq_zeroAt i h, ZMod.val_natCast_of_lt (getZeroes_lt i (by omega))]

theorem zeroAt_lt (l : Nat) : Merkle.zeroAt compressNat emptyLeafNat l < bn256Modulus := by
  cases l with
  | zero => exact ZMod.val_lt emptyLeaf
  | succ l =>
    rw [Merkle.zeroAt_succ]
    exact compressNat_lt _ _

/-! ## 4. Roots -/

/-- The root of the complete tree of depth `L` over the contracts' integers. -/
def treeRoot (L : Nat) (leaves : List Nat) : Nat :=
  Merkle.fullRoot compressNat emptyLeafNat L leaves

/-- The same over the field. -/
def fieldRoot (L : Nat) (leaves : List F) : F := Merkle.fullRoot compress emptyLeaf L leaves

theorem val_fieldRoot (L : Nat) (leaves : List F) :
    (fieldRoot L leaves).val = treeRoot L (leaves.map ZMod.val) :=
  Merkle.map_fullRoot val_compress emptyLeaf L leaves

/-- A list of integers below the modulus is a list of field elements. -/
theorem map_val_map_cast {leaves : List Nat} (h : ∀ x ∈ leaves, x < bn256Modulus) :
    (leaves.map (Nat.cast : Nat → F)).map ZMod.val = leaves := by
  rw [List.map_map]
  refine (List.map_congr_left fun x hx => ?_).trans (List.map_id leaves)
  exact ZMod.val_natCast_of_lt (h x hx)

theorem treeRoot_eq_val {L : Nat} {leaves : List Nat} (h : ∀ x ∈ leaves, x < bn256Modulus) :
    treeRoot L leaves = (fieldRoot L (leaves.map (Nat.cast : Nat → F))).val := by
  rw [val_fieldRoot, map_val_map_cast h]

@[simp] theorem treeRoot_nil (L : Nat) :
    treeRoot L [] = Merkle.zeroAt compressNat emptyLeafNat L :=
  Merkle.fullRoot_nil _ _

end Veil
