/-
# The allowlist contract

`contracts/asp-membership`.  The allowlist is a Merkle tree of membership leaves whose current
root the pool compares a spend against.  It lives in two phases.  At first the contract keeps the
tree itself, like the pool's but one leaf at a time (`insertLeaf`).  A tree kept that way cannot
lose a leaf, so the first revocation hands it over for good: `revokeLeaf` stores a root the
operator computed off chain, `insertLeaf` closes, and later members arrive by `publishLeaf`.

Section 1 is the contract.  Section 2 relates its storage to the tree it describes during the
first phase, and section 3 says what an accepted call does, once for each entry point.
-/
import Veil.Contract.PathUpdate

namespace Veil

open Tx Unsigned

/-- An address on the platform, by the key or the hash its text form encodes. -/
inductive Address where
  | account (key : Nat)
  | contract (hash : Nat)
  deriving DecidableEq, Repr

/-- `address.require_auth()`, with the authorisations of the call. -/
def requireAuth {ε : Type} (auth : Address → Bool) (a : Address) : Except (Fault ε) Unit :=
  ensure (auth a = true) .notAuthorized

@[simp] theorem requireAuth_eq_ok {ε : Type} {auth : Address → Bool} {a : Address} {u : Unit} :
    requireAuth (ε := ε) auth a = .ok u ↔ auth a = true := by
  simp [requireAuth]

/-- The contract's `Error`. -/
inductive AspError where
  | notAuthorized
  | merkleTreeFull
  | wrongLevels
  | notInitialized
  | overflow
  | invalidFieldElement
  | operatorMaintained
  | notOperatorMaintained
  deriving DecidableEq, Repr

inductive AspEvent where
  | leafAdded (leaf index root : Nat)
  | leafRevoked (leaf root : Nat)
  deriving DecidableEq, Repr

def AspEvent.root : AspEvent → Nat
  | .leafAdded _ _ root => root
  | .leafRevoked _ root => root

/-- The persistent entries under `DataKey`, and the events published so far. -/
structure AspState where
  admin : Option Address
  filledSubtrees : Nat → Option Nat
  zeroes : Nat → Option Nat
  levels : Option Nat
  nextIndex : Option Nat
  root : Option Nat
  adminInsertOnly : Option Bool
  operatorMaintained : Option Bool
  events : List AspEvent

namespace ASPMembership

/-! ## 1. The contract -/

def getAdminInsertOnly (s : AspState) : Bool := s.adminInsertOnly.getD true

def getOperatorMaintained (s : AspState) : Bool := s.operatorMaintained.getD false

def ensureFieldElement (value : Nat) : Except (Fault AspError) Unit :=
  ensure (¬value ≥ bn256Modulus) (.contract .invalidFieldElement)

def constructor (admin : Address) (levels : Nat) : Except (Fault AspError) AspState := do
  ensure (¬(levels = 0 ∨ levels > 32)) (.contract .wrongLevels)
  let (filledSubtrees, zeroes) ← storeZeroes .notInitialized (List.range (levels + 1))
    (fun _ => none, fun _ => none)
  let rootVal ← okOr getZeroes[levels]? (.contract .notInitialized)
  .ok { admin := some admin
        filledSubtrees := filledSubtrees
        zeroes := zeroes
        levels := some levels
        nextIndex := some 0
        root := some rootVal
        adminInsertOnly := some true
        operatorMaintained := none
        events := [] }

/-- The `admin_insert_only` branch of `insert_leaf`. -/
def authorizeInsert (auth : Address → Bool) (s : AspState) : Except (Fault AspError) Unit :=
  if getAdminInsertOnly s then do
    let admin ← okOr s.admin (.contract .notInitialized)
    requireAuth auth admin
  else .ok ()

def insertLeaf (auth : Address → Bool) (leaf : Nat) (s : AspState) :
    Except (Fault AspError) AspState := do
  ensureFieldElement leaf
  ensure (getOperatorMaintained s = false) (.contract .operatorMaintained)
  authorizeInsert auth s
  let levels ← okOr s.levels (.contract .notInitialized)
  let actualIndex ← okOr s.nextIndex (.contract .notInitialized)
  let capacity ← okOr (checkedShl levels) (.contract .merkleTreeFull)
  ensure (¬actualIndex ≥ capacity) (.contract .merkleTreeFull)
  let (currentHash, filledSubtrees) ← updatePath .notInitialized s.zeroes levels 0 actualIndex
    leaf s.filledSubtrees
  let nextIndex ← okOr (checkedAdd 64 actualIndex 1) (.contract .overflow)
  .ok { s with
        filledSubtrees := filledSubtrees
        root := some currentHash
        events := s.events ++ [.leafAdded leaf actualIndex currentHash]
        nextIndex := some nextIndex }

def revokeLeaf (auth : Address → Bool) (leaf newRoot : Nat) (s : AspState) :
    Except (Fault AspError) AspState := do
  ensureFieldElement leaf
  ensureFieldElement newRoot
  let admin ← okOr s.admin (.contract .notInitialized)
  requireAuth auth admin
  .ok { s with
        operatorMaintained := some true
        root := some newRoot
        events := s.events ++ [.leafRevoked leaf newRoot] }

def publishLeaf (auth : Address → Bool) (leaf index newRoot : Nat) (s : AspState) :
    Except (Fault AspError) AspState := do
  ensureFieldElement leaf
  ensureFieldElement newRoot
  ensure (getOperatorMaintained s = true) (.contract .notOperatorMaintained)
  let admin ← okOr s.admin (.contract .notInitialized)
  requireAuth auth admin
  .ok { s with
        root := some newRoot
        events := s.events ++ [.leafAdded leaf index newRoot] }

def getRoot (s : AspState) : Except (Fault AspError) Nat :=
  okOr s.root (.contract .notInitialized)

def updateAdmin (auth : Address → Bool) (newAdmin : Address) (s : AspState) :
    Except (Fault AspError) AspState := do
  ensure (s.admin.isSome = true) (.contract .notInitialized)
  let admin ← okOr s.admin .trapped
  requireAuth auth admin
  .ok { s with admin := some newAdmin }

def setAdminInsertOnly (auth : Address → Bool) (adminOnly : Bool) (s : AspState) :
    Except (Fault AspError) AspState := do
  let admin ← okOr s.admin (.contract .notInitialized)
  requireAuth auth admin
  .ok { s with adminInsertOnly := some adminOnly }

/-- The entry points that can write, with their arguments. -/
inductive Call where
  | insertLeaf (leaf : Nat)
  | revokeLeaf (leaf newRoot : Nat)
  | publishLeaf (leaf index newRoot : Nat)
  | setAdminInsertOnly (adminOnly : Bool)
  | updateAdmin (newAdmin : Address)
  deriving DecidableEq, Repr

/-- A call together with the authorisations it carries. -/
structure Invocation where
  call : Call
  auth : Address → Bool

def exec (i : Invocation) (s : AspState) : Except (Fault AspError) AspState :=
  match i.call with
  | .insertLeaf leaf => insertLeaf i.auth leaf s
  | .revokeLeaf leaf newRoot => revokeLeaf i.auth leaf newRoot s
  | .publishLeaf leaf index newRoot => publishLeaf i.auth leaf index newRoot s
  | .setAdminInsertOnly adminOnly => setAdminInsertOnly i.auth adminOnly s
  | .updateAdmin newAdmin => updateAdmin i.auth newAdmin s

/-! ## 2. The first phase: the storage describes a tree -/

/-- **The contract maintains the tree of depth `L` over `leaves` itself.** -/
structure Maintains (L : Nat) (leaves : List Nat) (s : AspState) : Prop where
  levels : s.levels = some L
  depth : 1 ≤ L ∧ L ≤ 32
  nextIndex : s.nextIndex = some leaves.length
  fits : leaves.length ≤ 2 ^ L
  field : ∀ x ∈ leaves, x < bn256Modulus
  frontier : ∃ fl, Stored L s.filledSubtrees fl ∧ Merkle.Frontier compressNat L 0
    leaves.length (Merkle.padded emptyLeafNat leaves) fl
  zeroes : Stored L s.zeroes (Merkle.zeroAt compressNat emptyLeafNat)
  root : s.root = some (treeRoot L leaves)
  notOperator : getOperatorMaintained s = false

theorem maintains_constructor (admin : Address) {L : Nat} (h1 : 1 ≤ L) (h2 : L ≤ 32) :
    ∃ s, constructor admin L = .ok s ∧ Maintains L [] s ∧ s.events = [] ∧ s.admin = some admin := by
  obtain ⟨m, hm, hstored⟩ := storeZeroes_range AspError.notInitialized h2
  refine ⟨_, by
    simp only [constructor, ensure_pos (show ¬(L = 0 ∨ L > 32) by omega), ok_bind,
      hm, getZeroes_root h2, okOr_some]; rfl, ?_, rfl, rfl⟩
  exact {
    levels := rfl
    depth := ⟨h1, h2⟩
    nextIndex := rfl
    fits := Nat.zero_le _
    field := by simp
    frontier := ⟨_, hstored, Merkle.frontier_zero _ _ _ _ _⟩
    zeroes := hstored
    root := rfl
    notOperator := rfl }

variable {L : Nat} {leaves : List Nat} {s s' : AspState} {leaf index newRoot : Nat}
  {auth : Address → Bool}

theorem Maintains.updatePath (h : Maintains L leaves s) (hleaf : leaf < bn256Modulus)
    (hfit : leaves.length < 2 ^ L) :
    ∃ m' fl', updatePath AspError.notInitialized s.zeroes L 0 leaves.length leaf
        s.filledSubtrees = .ok (treeRoot L (leaves ++ [leaf]), m') ∧
      Stored L m' fl' ∧ Merkle.Frontier compressNat L 0 (leaves.length + 1)
        (Merkle.padded emptyLeafNat (leaves ++ [leaf])) fl' := by
  obtain ⟨fl, hst, hfr⟩ := h.frontier
  obtain ⟨m', hup, hst', -⟩ := updatePath_eq AspError.notInitialized
    h.zeroes L 0 leaves.length leaf s.filledSubtrees fl (by omega) hst hleaf
  obtain ⟨hroot, hfr'⟩ := hfr.append (g := Merkle.padded emptyLeafNat (leaves ++ [leaf]))
    (fun i hi => (Merkle.padded_append_of_lt (by omega)).symm)
    (fun i hi => Merkle.padded_of_le (by simp; omega)) (fun _ _ _ => rfl) (Nat.zero_le L)
    (by simpa using hfit)
  have hnode : Merkle.nodeAt compressNat (Merkle.padded emptyLeafNat (leaves ++ [leaf])) 0
      leaves.length = leaf := by
    rw [Merkle.nodeAt_zero, Merkle.padded_of_lt (by simp)]
    simp
  rw [hnode, Nat.sub_zero] at hroot hfr'
  exact ⟨m', _, by rw [hup, hroot]; rfl, hst', hfr'⟩

/-- A call that touches neither the tree nor the handover flag keeps the invariant. -/
theorem Maintains.congr (h : Maintains L leaves s) (h1 : s'.levels = s.levels)
    (h2 : s'.nextIndex = s.nextIndex) (h3 : s'.filledSubtrees = s.filledSubtrees)
    (h4 : s'.zeroes = s.zeroes) (h5 : s'.root = s.root)
    (h6 : s'.operatorMaintained = s.operatorMaintained) : Maintains L leaves s' where
  levels := h1.trans h.levels
  depth := h.depth
  nextIndex := h2.trans h.nextIndex
  fits := h.fits
  field := h.field
  frontier := by rw [h3]; exact h.frontier
  zeroes := by rw [h4]; exact h.zeroes
  root := h5.trans h.root
  notOperator := by unfold getOperatorMaintained; rw [h6]; exact h.notOperator

/-! ## 3. Accepted calls -/

@[simp] theorem ensureFieldElement_eq_ok {value : Nat} {u : Unit} :
    ensureFieldElement value = .ok u ↔ value < bn256Modulus := by
  simp [ensureFieldElement]

theorem insertLeaf_ok (hok : insertLeaf auth leaf s = .ok s') :
    leaf < bn256Modulus ∧ getOperatorMaintained s = false ∧ authorizeInsert auth s = .ok () ∧
      (∃ levels index, s.levels = some levels ∧ s.nextIndex = some index ∧ index < 2 ^ levels) := by
  simp only [insertLeaf, bind_eq_ok, okOr_eq_ok, ensure_eq_ok, ensureFieldElement_eq_ok,
    Prod.exists, checkedAdd_eq_some, checkedShl_eq_some] at hok
  obtain ⟨-, hleaf, -, hop, _, hauth, levels, hlev, index, hnext, -, ⟨-, rfl⟩, -, hlt, -⟩ := hok
  exact ⟨hleaf, hop, hauth, levels, index, hlev, hnext, Nat.not_le.mp hlt⟩

/-- **One insertion.**  With room left and the authorisation given it succeeds, appends its leaf
to the tree, and announces the new root. -/
theorem Maintains.insertLeaf (h : Maintains L leaves s) (hleaf : leaf < bn256Modulus)
    (hfit : leaves.length < 2 ^ L) (hauth : authorizeInsert auth s = .ok ()) :
    ∃ s', insertLeaf auth leaf s = .ok s' ∧ Maintains L (leaves ++ [leaf]) s' ∧
      s'.events = s.events ++ [.leafAdded leaf leaves.length (treeRoot L (leaves ++ [leaf]))] ∧
      s'.admin = s.admin ∧ s'.adminInsertOnly = s.adminInsertOnly := by
  obtain ⟨m', fl', hup, hst', hfr'⟩ := h.updatePath hleaf hfit
  have hL := h.depth.2
  have hcap : 2 ^ L ≤ 2 ^ 32 := Nat.pow_le_pow_right (by omega) hL
  have hshl : checkedShl L = some (2 ^ L) := by simp; omega
  have hadd : checkedAdd 64 leaves.length 1 = some (leaves.length + 1) := by simp; omega
  refine ⟨{ s with
      filledSubtrees := m'
      root := some (treeRoot L (leaves ++ [leaf]))
      events := s.events ++ [.leafAdded leaf leaves.length (treeRoot L (leaves ++ [leaf]))]
      nextIndex := some (leaves.length + 1) }, ?_, ?_, rfl, rfl, rfl⟩
  · simp only [ASPMembership.insertLeaf, ensureFieldElement, ensure_pos (Nat.not_le.mpr hleaf),
      ensure_pos h.notOperator, hauth, h.levels, h.nextIndex, hshl, hadd,
      ensure_pos (Nat.not_le.mpr hfit), hup, okOr_some, ok_bind]
  exact {
    levels := h.levels
    depth := h.depth
    nextIndex := by simp
    fits := by simpa using hfit
    field := by
      intro x hx
      rcases List.mem_append.mp hx with hx | hx
      · exact h.field x hx
      · rwa [List.mem_singleton.mp hx]
    frontier := ⟨fl', hst', by simpa using hfr'⟩
    zeroes := h.zeroes
    root := rfl
    notOperator := h.notOperator }

/-- The same, read backwards from an accepted insertion. -/
theorem Maintains.of_insertLeaf (h : Maintains L leaves s)
    (hok : ASPMembership.insertLeaf auth leaf s = .ok s') :
    leaves.length < 2 ^ L ∧ Maintains L (leaves ++ [leaf]) s' ∧
      s'.events = s.events ++ [.leafAdded leaf leaves.length (treeRoot L (leaves ++ [leaf]))] := by
  obtain ⟨hleaf, -, hauth, levels, index, hlev, hnext, hlt⟩ := insertLeaf_ok hok
  obtain rfl : L = levels := Option.some.inj (h.levels.symm.trans hlev)
  obtain rfl : leaves.length = index := Option.some.inj (h.nextIndex.symm.trans hnext)
  obtain ⟨t, ht, hm, he, -⟩ := h.insertLeaf hleaf hlt hauth
  obtain rfl : t = s' := Except.ok.inj (ht.symm.trans hok)
  exact ⟨hlt, hm, he⟩

theorem revokeLeaf_ok (hok : revokeLeaf auth leaf newRoot s = .ok s') :
    leaf < bn256Modulus ∧ newRoot < bn256Modulus ∧
      s' = { s with operatorMaintained := some true, root := some newRoot,
                    events := s.events ++ [.leafRevoked leaf newRoot] } := by
  simp only [revokeLeaf, bind_eq_ok, okOr_eq_ok, ensureFieldElement_eq_ok, requireAuth_eq_ok,
    Except.ok.injEq] at hok
  obtain ⟨-, hleaf, -, hroot, -, -, -, -, rfl⟩ := hok
  exact ⟨hleaf, hroot, rfl⟩

theorem publishLeaf_ok (hok : publishLeaf auth leaf index newRoot s = .ok s') :
    leaf < bn256Modulus ∧ newRoot < bn256Modulus ∧ getOperatorMaintained s = true ∧
      s' = { s with root := some newRoot,
                    events := s.events ++ [.leafAdded leaf index newRoot] } := by
  simp only [publishLeaf, bind_eq_ok, okOr_eq_ok, ensure_eq_ok, ensureFieldElement_eq_ok,
    requireAuth_eq_ok, Except.ok.injEq] at hok
  obtain ⟨-, hleaf, -, hroot, -, hop, -, -, -, -, rfl⟩ := hok
  exact ⟨hleaf, hroot, hop, rfl⟩

theorem setAdminInsertOnly_ok {adminOnly : Bool}
    (hok : setAdminInsertOnly auth adminOnly s = .ok s') :
    s' = { s with adminInsertOnly := some adminOnly } := by
  simp only [setAdminInsertOnly, bind_eq_ok, okOr_eq_ok, requireAuth_eq_ok,
    Except.ok.injEq] at hok
  obtain ⟨-, -, -, -, rfl⟩ := hok
  rfl

theorem updateAdmin_ok {newAdmin : Address} (hok : updateAdmin auth newAdmin s = .ok s') :
    s' = { s with admin := some newAdmin } := by
  simp only [updateAdmin, bind_eq_ok, okOr_eq_ok, ensure_eq_ok, requireAuth_eq_ok,
    Except.ok.injEq] at hok
  obtain ⟨-, -, -, -, -, -, rfl⟩ := hok
  rfl

end ASPMembership

end Veil
