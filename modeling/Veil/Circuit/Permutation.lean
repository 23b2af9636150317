/-
# The permutation as constraints

`poseidon2_perm.circom`.  A template is the relation its constraints put between its input and
output signals; inner signals are existentially quantified.  Arrays of signals are lists.  The
field and the tables of constants are arbitrary: of the tables of `poseidon2_const.circom` the
templates read the entries only.

The constraints of a round determine its output, so the 65 states `aux[0]`, …, `aux[64]` of
`Permutation` are determined one after the other (`chain_iff`, `permutation_iff`).  If the tables
hold the same values as the parameters of `Poseidon2::permutation` (`SameTables`), the last state
is what that function returns (`permutation_eq_forcedState`).
-/
import Veil.Poseidon2.Permutation

namespace Veil

namespace Circuit

/-- `poseidon2_const.circom`, over any field: `POSEIDON_PARTIAL_ROUNDS(t)`,
`POSEIDON_FULL_ROUNDS(t)` and `POSEIDON_INTERNAL_MAT_DIAG(t)`. -/
structure Constants (K : Type*) where
  partialRounds : Nat → List K
  fullRounds : Nat → List (List K)
  internalMatDiag : Nat → List K

/-! ## 1. The templates -/

section Templates

variable {K : Type*} [Field K]

/-- `SBox`. -/
def sBox (inp out : K) : Prop := ∃ x2 x4, x2 = inp * inp ∧ x4 = x2 * x2 ∧ out = inp * x4

/-- `MatMul_M4`. -/
def matMulM4 : (inp out : List K) → Prop
  | [i0, i1, i2, i3], out => ∃ t0 t1 t2 t3 t4 t5 t6 t7,
      t0 = i0 + i1 ∧ t1 = i2 + i3 ∧ t2 = (2 : Nat) * i1 + t1 ∧ t3 = (2 : Nat) * i3 + t0 ∧
      t4 = (4 : Nat) * t1 + t3 ∧ t5 = (4 : Nat) * t0 + t2 ∧ t6 = t3 + t5 ∧ t7 = t2 + t4 ∧
      out = [t6, t5, t7, t4]
  | _, _ => False

/-- `InternalRound(i, t)`. -/
def internalRound (consts : Constants K) (i t : Nat) (inp out : List K) : Prop :=
  ∃ sb, sBox (inp.headD 0 + (consts.partialRounds t).getD i 0) sb ∧
    let total := sb + inp.tail.sum
    out = List.zipWith (fun x m => total + x * m) (sb :: inp.tail) (consts.internalMatDiag t)

/-- `ExternalRound(i, t)`. -/
def externalRound (consts : Constants K) (i t : Nat) (inp out : List K) : Prop :=
  ∃ sbExt, List.Forall₂ sBox (List.zipWith (· + ·) inp ((consts.fullRounds t).getD i [])) sbExt ∧
    if t = 4 then matMulM4 sbExt out else out = sbExt.map fun x => sbExt.sum + x

/-- `LinearLayer(t)`. -/
def linearLayer (t : Nat) (inp out : List K) : Prop :=
  if t = 4 then matMulM4 inp out else out = inp.map fun x => inp.sum + x

/-- `Permutation(t)`. -/
def permutation (consts : Constants K) (t : Nat) (inputs out : List K) : Prop :=
  ∃ aux : Nat → List K, linearLayer t inputs (aux 0) ∧
    (∀ k < 4, externalRound consts k t (aux k) (aux (k + 1))) ∧
    (∀ k < 56, internalRound consts k t (aux (k + 4)) (aux (k + 5))) ∧
    (∀ k < 4, externalRound consts (k + 4) t (aux (k + 60)) (aux (k + 61))) ∧
    out = aux 64

end Templates

/-! ## 2. Chained signals -/

/-- **Signals of which each is determined by the one before it.**  `P` is what the constraints
need of a signal to determine the next. -/
theorem chain_iff {α : Type*} {R : Nat → α → α → Prop} {f : Nat → α → α} {P : α → Prop}
    {aux : Nat → α} {n : Nat} (hP : ∀ k < n, ∀ x, P x → P (f k x))
    (hR : ∀ k < n, ∀ x y, P x → (R k x y ↔ y = f k x)) (h0 : P (aux 0)) :
    (∀ k < n, R k (aux k) (aux (k + 1))) ↔
      ∀ k ≤ n, aux k = (List.range k).foldl (fun x i => f i x) (aux 0) := by
  -- the folds all satisfy `P`
  have hfold : ∀ k ≤ n, P ((List.range k).foldl (fun x i => f i x) (aux 0)) := by
    intro k hk
    induction k with
    | zero => exact h0
    | succ k ih =>
      rw [List.range_succ, List.foldl_append]
      exact hP k hk _ (ih (by omega))
  constructor
  · intro h k hk
    induction k with
    | zero => rfl
    | succ k ih =>
      have hprev := ih (by omega)
      have hstep := h k hk
      rw [hprev] at hstep
      rw [List.range_succ, List.foldl_append]
      exact (hR k hk _ _ (hfold k (by omega))).mp hstep
  · intro h k hk
    rw [h k (by omega), h (k + 1) hk]
    refine (hR k hk _ _ (hfold k (by omega))).mpr ?_
    rw [List.range_succ, List.foldl_append]
    rfl

/-- A fold over a list is a fold over its indices. -/
theorem foldl_range_getD {α β : Type*} (g : α → β → α) (d : β) (l : List β) (a : α) :
    (List.range l.length).foldl (fun x k => g x (l.getD k d)) a = l.foldl g a := by
  induction l generalizing a with
  | nil => rfl
  | cons b l ih =>
    rw [List.length_cons, List.range_succ_eq_map, List.foldl_cons, List.foldl_map]
    exact ih (g a b)

/-! ## 3. What the constraints force -/

section Forced

variable {K : Type*} [Field K] {consts : Constants K} {diag : List K} {t : Nat}

theorem sBox_iff {inp out : K} : sBox inp out ↔ out = Poseidon2.sboxP inp := by
  constructor
  · rintro ⟨x2, x4, rfl, rfl, rfl⟩
    simp only [Poseidon2.sboxP]
    ring
  · rintro rfl
    refine ⟨_, _, rfl, rfl, ?_⟩
    simp only [Poseidon2.sboxP]
    ring

theorem forall₂_sBox_iff {inp out : List K} :
    List.Forall₂ sBox inp out ↔ out = Poseidon2.sbox inp := by
  induction inp generalizing out with
  | nil => simp [Poseidon2.sbox]
  | cons x inp ih =>
    cases out with
    | nil => simp [Poseidon2.sbox]
    | cons y out => simp [List.forall₂_cons, sBox_iff, ih, Poseidon2.sbox]

/-- The widths the circuits support. -/
def IsWidth (t : Nat) : Prop := t = 2 ∨ t = 3 ∨ t = 4

theorem matMulM4_iff {i0 i1 i2 i3 : K} {out : List K} :
    matMulM4 [i0, i1, i2, i3] out ↔ out = Poseidon2.matmulM4 i0 i1 i2 i3 := by
  simp only [matMulM4, Poseidon2.matmulM4]
  constructor
  · rintro ⟨_, _, _, _, _, _, _, _, rfl, rfl, rfl, rfl, rfl, rfl, rfl, rfl, rfl⟩
    simp only [List.cons.injEq, and_true]
    refine ⟨?_, ?_, ?_, ?_⟩ <;> push_cast <;> ring
  · rintro rfl
    refine ⟨_, _, _, _, _, _, _, _, rfl, rfl, rfl, rfl, rfl, rfl, rfl, rfl, ?_⟩
    simp only [List.cons.injEq, and_true]
    refine ⟨?_, ?_, ?_, ?_⟩ <;> push_cast <;> ring

/-- At widths 2 and 3 the external matrix adds the sum to every element. -/
theorem matmulExternal_eq_map {inp : List K} (h : inp.length = 2 ∨ inp.length = 3) :
    Poseidon2.matmulExternal inp = inp.map fun x => inp.sum + x := by
  rcases h with h | h
  · obtain ⟨x0, x1, rfl⟩ := List.length_eq_two.mp h
    simp [Poseidon2.matmulExternal, add_comm]
  · obtain ⟨x0, x1, x2, rfl⟩ := List.length_eq_three.mp h
    simp only [Poseidon2.matmulExternal, List.map_cons, List.map_nil, List.sum_cons, List.sum_nil,
      List.cons.injEq, and_true]
    refine ⟨?_, ?_, ?_⟩ <;> ring

theorem linearLayer_iff (ht : IsWidth t) {inp out : List K} (hlen : inp.length = t) :
    linearLayer t inp out ↔ out = Poseidon2.matmulExternal inp := by
  rcases ht with rfl | rfl | rfl
  · rw [matmulExternal_eq_map (.inl hlen)]
    rfl
  · rw [matmulExternal_eq_map (.inr hlen)]
    rfl
  · obtain ⟨x0, x1, x2, x3, rfl⟩ := List.length_eq_four.mp hlen
    rw [linearLayer, if_pos rfl, Poseidon2.matmulExternal]
    exact matMulM4_iff

theorem length_matmulExternal (ht : IsWidth t) {inp : List K} (hlen : inp.length = t) :
    (Poseidon2.matmulExternal inp).length = t := by
  rcases ht with rfl | rfl | rfl
  · rw [matmulExternal_eq_map (.inl hlen), List.length_map, hlen]
  · rw [matmulExternal_eq_map (.inr hlen), List.length_map, hlen]
  · match inp, hlen with
    | [x0, x1, x2, x3], _ => rfl

/-- The internal matrix of a circuit is the function's.  At widths 2 and 3 the function has its
diagonal built in. -/
def SameDiagonal (circuit diag : List K) (t : Nat) : Prop :=
  t = 2 ∧ circuit = [1, ((2 : Nat) : K)] ∨ t = 3 ∧ circuit = [1, 1, ((2 : Nat) : K)] ∨
    t = 4 ∧ circuit = diag ∧ diag.length = 4

theorem matmulInternal_eq {circuit : List K} (h : SameDiagonal circuit diag t) {state : List K}
    (hlen : state.length = t) : Poseidon2.matmulInternal diag state =
      List.zipWith (fun x m => state.sum + x * m) state circuit := by
  rcases h with ⟨rfl, rfl⟩ | ⟨rfl, rfl⟩ | ⟨rfl, rfl, hdiag⟩
  · obtain ⟨x0, x1, rfl⟩ := List.length_eq_two.mp hlen
    simp only [Poseidon2.matmulInternal, List.zipWith_cons_cons, List.zipWith_nil_left,
      List.sum_cons, List.sum_nil, List.cons.injEq, and_true]
    refine ⟨?_, ?_⟩ <;> push_cast <;> ring
  · obtain ⟨x0, x1, x2, rfl⟩ := List.length_eq_three.mp hlen
    simp only [Poseidon2.matmulInternal, List.zipWith_cons_cons, List.zipWith_nil_left,
      List.sum_cons, List.sum_nil, List.cons.injEq, and_true]
    refine ⟨?_, ?_, ?_⟩ <;> push_cast <;> ring
  · obtain ⟨x0, x1, x2, x3, rfl⟩ := List.length_eq_four.mp hlen
    obtain ⟨m0, m1, m2, m3, rfl⟩ := List.length_eq_four.mp hdiag
    simp only [Poseidon2.matmulInternal, List.zipWith_cons_cons, List.zipWith_nil_left,
      List.sum_cons, List.sum_nil, List.cons.injEq, and_true]
    refine ⟨?_, ?_, ?_, ?_⟩ <;> ring

theorem length_matmulInternal {circuit : List K} (h : SameDiagonal circuit diag t)
    {state : List K} (hlen : state.length = t) :
    (Poseidon2.matmulInternal diag state).length = t := by
  have hcircuit : circuit.length = t := by
    rcases h with ⟨rfl, rfl⟩ | ⟨rfl, rfl⟩ | ⟨rfl, rfl, hdiag⟩
    · rfl
    · rfl
    · exact hdiag
  rw [matmulInternal_eq h hlen, List.length_zipWith, hlen, hcircuit, Nat.min_self]

theorem isWidth_of_sameDiagonal {circuit : List K} (h : SameDiagonal circuit diag t) :
    IsWidth t := by
  rcases h with ⟨rfl, -⟩ | ⟨rfl, -⟩ | ⟨rfl, -⟩
  · exact .inl rfl
  · exact .inr (.inl rfl)
  · exact .inr (.inr rfl)

/-- The shape of the tables at width `t`, and the diagonal they stand for. -/
structure Constants.Shaped (consts : Constants K) (diag : List K) (t : Nat) : Prop where
  row : ∀ i < 8, ((consts.fullRounds t).getD i []).length = t
  diagonal : SameDiagonal (consts.internalMatDiag t) diag t

namespace Constants.Shaped

theorem width (h : consts.Shaped diag t) : IsWidth t := isWidth_of_sameDiagonal h.diagonal

end Constants.Shaped

/-- An external round mixes the S-boxes' outputs as the initial layer mixes the inputs. -/
theorem externalRound_iff {i : Nat} (h : consts.Shaped diag t) (hi : i < 8) {inp out : List K}
    (hlen : inp.length = t) : externalRound consts i t inp out ↔
      out = Poseidon2.fullRound inp ((consts.fullRounds t).getD i []) := by
  have hsb : (Poseidon2.sbox (Poseidon2.addRc inp ((consts.fullRounds t).getD i []))).length =
      t := by
    rw [Poseidon2.sbox, List.length_map, Poseidon2.addRc, List.length_zipWith, hlen, h.row i hi,
      Nat.min_self]
  rw [Poseidon2.fullRound, ← linearLayer_iff h.width hsb]
  constructor
  · rintro ⟨sbExt, hbox, hmix⟩
    rw [forall₂_sBox_iff.mp hbox] at hmix
    exact hmix
  · intro hmix
    exact ⟨_, forall₂_sBox_iff.mpr rfl, hmix⟩

theorem internalRound_iff {i : Nat} (h : consts.Shaped diag t) {inp out : List K}
    (hlen : inp.length = t) : internalRound consts i t inp out ↔
      out = Poseidon2.partialRound diag inp [(consts.partialRounds t).getD i 0] := by
  have hne : inp ≠ [] := by
    rintro rfl
    rcases h.width with rfl | rfl | rfl <;> cases hlen
  obtain ⟨x, xs, rfl⟩ := List.exists_cons_of_ne_nil hne
  simp only [internalRound, sBox_iff, exists_eq_left, List.headD_cons, List.tail_cons,
    Poseidon2.partialRound]
  rw [matmulInternal_eq h.diagonal (by exact hlen), List.sum_cons]

theorem length_fullRound (ht : IsWidth t) {state row : List K} (hs : state.length = t)
    (hr : row.length = t) : (Poseidon2.fullRound state row).length = t := by
  refine length_matmulExternal ht ?_
  rw [Poseidon2.sbox, List.length_map, Poseidon2.addRc, List.length_zipWith, hs, hr, Nat.min_self]

theorem length_partialRound {circuit : List K} (h : SameDiagonal circuit diag t)
    {state : List K} (hs : state.length = t) (c : K) :
    (Poseidon2.partialRound diag state [c]).length = t := by
  cases state with
  | nil => exact hs
  | cons x xs => exact length_matmulInternal h hs

/-- The round that leads from `aux[k]` to `aux[k + 1]`. -/
def forcedRound (consts : Constants K) (diag : List K) (t k : Nat) (state : List K) : List K :=
  if k < 4 then Poseidon2.fullRound state ((consts.fullRounds t).getD k [])
  else if k < 60 then
    Poseidon2.partialRound diag state [(consts.partialRounds t).getD (k - 4) 0]
  else Poseidon2.fullRound state ((consts.fullRounds t).getD (k - 56) [])

theorem length_forcedRound {k : Nat} (h : consts.Shaped diag t) (hk : k < 64) {state : List K}
    (hs : state.length = t) : (forcedRound consts diag t k state).length = t := by
  unfold forcedRound
  split
  · exact length_fullRound h.width hs (h.row k (by omega))
  · split
    · exact length_partialRound h.diagonal hs _
    · exact length_fullRound h.width hs (h.row (k - 56) (by omega))

/-- The constraint between `aux[k]` and `aux[k + 1]`. -/
def roundAt (consts : Constants K) (t k : Nat) (inp out : List K) : Prop :=
  if k < 4 then externalRound consts k t inp out
  else if k < 60 then internalRound consts (k - 4) t inp out
  else externalRound consts (k - 56) t inp out

theorem roundAt_iff {k : Nat} (h : consts.Shaped diag t) (hk : k < 64) {inp out : List K}
    (hlen : inp.length = t) :
    roundAt consts t k inp out ↔ out = forcedRound consts diag t k inp := by
  unfold roundAt forcedRound
  split
  · exact externalRound_iff h (by omega) hlen
  · split
    · exact internalRound_iff h hlen
    · exact externalRound_iff h (by omega) hlen

/-- The three loops of `Permutation` are one. -/
theorem forall_roundAt_iff {aux : Nat → List K} :
    (∀ k < 64, roundAt consts t k (aux k) (aux (k + 1))) ↔
      (∀ k < 4, externalRound consts k t (aux k) (aux (k + 1))) ∧
      (∀ k < 56, internalRound consts k t (aux (k + 4)) (aux (k + 5))) ∧
      (∀ k < 4, externalRound consts (k + 4) t (aux (k + 60)) (aux (k + 61))) := by
  constructor
  · intro h
    refine ⟨fun k hk => ?_, fun k hk => ?_, fun k hk => ?_⟩
    · simpa [roundAt, hk] using h k (by omega)
    · simpa [roundAt, show ¬k + 4 < 4 by omega, show k + 4 < 60 by omega] using
        h (k + 4) (by omega)
    · simpa [roundAt, show ¬k + 60 < 4 by omega, show ¬k + 60 < 60 by omega,
        show k + 60 - 56 = k + 4 by omega] using h (k + 60) (by omega)
  · rintro ⟨h1, h2, h3⟩ k hk
    unfold roundAt
    split
    · exact h1 k ‹_›
    · split
      · have h := h2 (k - 4) (by omega)
        rwa [show k - 4 + 4 = k by omega, show k - 4 + 5 = k + 1 by omega] at h
      · have h := h3 (k - 60) (by omega)
        rwa [show k - 60 + 4 = k - 56 by omega, show k - 60 + 60 = k by omega,
          show k - 60 + 61 = k + 1 by omega] at h

/-- What the constraints force on `aux[k]`. -/
@[irreducible] def forcedState (consts : Constants K) (diag : List K) (t : Nat)
    (inputs : List K) (k : Nat) : List K :=
  (List.range k).foldl (fun state i => forcedRound consts diag t i state)
    (Poseidon2.matmulExternal inputs)

theorem length_forcedState {k : Nat} (h : consts.Shaped diag t) {inputs : List K}
    (hlen : inputs.length = t) (hk : k ≤ 64) :
    (forcedState consts diag t inputs k).length = t := by
  rw [forcedState]
  induction k with
  | zero => exact length_matmulExternal h.width hlen
  | succ k ih =>
    rw [List.range_succ, List.foldl_append]
    exact length_forcedRound h hk (ih (by omega))

/-- **The constraints force the permutation.** -/
theorem permutation_iff (h : consts.Shaped diag t) {inputs out : List K}
    (hlen : inputs.length = t) :
    permutation consts t inputs out ↔ out = forcedState consts diag t inputs 64 := by
  have hchain : ∀ {aux : Nat → List K}, aux 0 = Poseidon2.matmulExternal inputs →
      ((∀ k < 64, roundAt consts t k (aux k) (aux (k + 1))) ↔
        ∀ k ≤ 64, aux k = forcedState consts diag t inputs k) := by
    intro aux h0
    simp only [forcedState, ← h0]
    exact chain_iff (P := fun state => state.length = t)
      (fun _ hk _ hs => length_forcedRound h hk hs)
      (fun _ hk _ _ hs => roundAt_iff h hk hs) (h0 ▸ length_matmulExternal h.width hlen)
  constructor
  · rintro ⟨aux, hlin, h1, h2, h3, hout⟩
    have h0 := (linearLayer_iff h.width hlen).mp hlin
    rw [hout]
    exact (hchain h0).mp (forall_roundAt_iff.mpr ⟨h1, h2, h3⟩) 64 (by omega)
  · intro hout
    have h0 : forcedState consts diag t inputs 0 = Poseidon2.matmulExternal inputs := by
      rw [forcedState]
      rfl
    obtain ⟨h1, h2, h3⟩ := forall_roundAt_iff.mp ((hchain h0).mpr fun k _ => rfl)
    exact ⟨forcedState consts diag t inputs, (linearLayer_iff h.width hlen).mpr h0, h1, h2, h3,
      hout⟩

/-! ## 4. The forced permutation is the function's -/

/-- The 64 rounds in three blocks. -/
theorem forcedState_eq_rounds {begins ends : List (List K)}
    (hfull : consts.fullRounds t = begins ++ ends) (hbegins : begins.length = 4)
    (hends : ends.length = 4) (hmiddle : (consts.partialRounds t).length = 56)
    (inputs : List K) :
    forcedState consts diag t inputs 64 =
      Poseidon2.rounds diag begins (consts.partialRounds t) ends inputs := by
  have hsplit : List.range 64 = List.range 4 ++ (List.range 56).map (4 + ·) ++
      (List.range 4).map (60 + ·) := by decide
  rw [forcedState, hsplit, List.foldl_append, List.foldl_append, List.foldl_map,
    List.foldl_map, Poseidon2.rounds, ← foldl_range_getD _ [] begins,
    ← foldl_range_getD _ 0 (consts.partialRounds t), ← foldl_range_getD _ [] ends, hbegins, hends,
    hmiddle]
  -- block by block, the round is the one the block's own constants say
  have hfirst : ∀ state, ∀ k ∈ List.range 4,
      forcedRound consts diag t k state = Poseidon2.fullRound state (begins.getD k []) := by
    intro state k hk
    have hk := List.mem_range.mp hk
    rw [forcedRound, if_pos hk, hfull, List.getD_append _ _ _ _ (by omega)]
  have hmiddle : ∀ state, ∀ k ∈ List.range 56, forcedRound consts diag t (4 + k) state =
      Poseidon2.partialRound diag state [(consts.partialRounds t).getD k 0] := by
    intro state k hk
    have hk := List.mem_range.mp hk
    rw [forcedRound, if_neg (by omega), if_pos (by omega), Nat.add_sub_cancel_left]
  have hlast : ∀ state, ∀ k ∈ List.range 4, forcedRound consts diag t (60 + k) state =
      Poseidon2.fullRound state (ends.getD k []) := by
    intro state k hk
    have hk := List.mem_range.mp hk
    rw [forcedRound, if_neg (by omega), if_neg (by omega), hfull,
      List.getD_append_right _ _ _ _ (by omega), hbegins, show 60 + k - 56 - 4 = k by omega]
  rw [List.foldl_ext _ _ _ hfirst, List.foldl_ext _ _ _ hmiddle, List.foldl_ext _ _ _ hlast]

/-- **The circuit's tables hold the values of the function's parameters.**  Full round `k` has row
`k` or, after the partial rounds, row `56 + k`; partial round `k` has the first entry of row
`4 + k`. -/
structure SameTables (consts : Constants K) (params : Poseidon2Params K) : Prop where
  d : params.d = 5
  roundsFDiv2 : params.roundsFDiv2 = 4
  roundsP : params.roundsP = 56
  rows : params.roundConstants.length = 64
  fullRounds : (consts.fullRounds params.t).length = 8
  row : ∀ row ∈ consts.fullRounds params.t, row.length = params.t
  fullRow : ∀ k < 8, (consts.fullRounds params.t)[k]? =
    params.roundConstants[if k < 4 then k else 56 + k]?
  partialRounds : (consts.partialRounds params.t).length = 56
  partialEntry : ∀ k < 56, (consts.partialRounds params.t)[k]? =
    params.roundConstants[4 + k]?.bind List.head?
  diagonal : SameDiagonal (consts.internalMatDiag params.t) params.matInternalDiagM1 params.t

namespace SameTables

variable {params : Poseidon2Params K}

theorem shaped (h : SameTables consts params) :
    consts.Shaped params.matInternalDiagM1 params.t where
  row i hi := by
    have hlt : i < (consts.fullRounds params.t).length := h.fullRounds ▸ hi
    rw [List.getD_eq_getElem _ _ hlt]
    exact h.row _ (List.getElem_mem hlt)
  diagonal := h.diagonal

/-- The full rounds are the rows at both ends of the function's table. -/
theorem fullRounds_eq (h : SameTables consts params) : consts.fullRounds params.t =
    params.roundConstants.take 4 ++ params.roundConstants.drop 60 := by
  have hrows := h.rows
  have hbegins : (params.roundConstants.take 4).length = 4 := by
    rw [List.length_take]
    omega
  refine List.ext_getElem? fun k => ?_
  rcases Nat.lt_or_ge k 8 with hk | hk
  · rw [h.fullRow k hk]
    split
    · rw [List.getElem?_append_left (by omega), List.getElem?_take_of_lt (by omega)]
    · rw [List.getElem?_append_right (by omega), List.getElem?_drop, hbegins,
        show 60 + (k - 4) = 56 + k by omega]
  · have hfull := h.fullRounds
    rw [List.getElem?_eq_none (by omega), List.getElem?_eq_none]
    rw [List.length_append, hbegins, List.length_drop]
    omega

/-- The constants of the partial rounds are the heads of the rows between them. -/
theorem heads_eq (h : SameTables consts params) :
    ((params.roundConstants.drop 4).take 56).map List.head? =
      (consts.partialRounds params.t).map some := by
  have hrows := h.rows
  have hpartials := h.partialRounds
  refine List.ext_getElem? fun k => ?_
  rw [List.getElem?_map, List.getElem?_map]
  rcases Nat.lt_or_ge k 56 with hk | hk
  · have hentry := h.partialEntry k hk
    have hlt : 4 + k < params.roundConstants.length := by omega
    rw [List.getElem?_eq_getElem hlt, Option.bind_some] at hentry
    rw [List.getElem?_take_of_lt hk, List.getElem?_drop, List.getElem?_eq_getElem hlt,
      Option.map_some, ← hentry, List.getElem?_eq_getElem (by omega), Option.map_some]
  · rw [List.getElem?_eq_none (by rw [List.length_take, List.length_drop]; omega),
      List.getElem?_eq_none (by omega)]
    rfl

/-- **The state the constraints force is the one the function returns.** -/
theorem permutation_eq_forcedState (h : SameTables consts params) {inputs : List K}
    (hlen : inputs.length = params.t) : Poseidon2.permutation params inputs =
      some (forcedState consts params.matInternalDiagM1 params.t inputs 64) := by
  have hrows := h.rows
  have hbegins : (params.roundConstants.take 4).length = 4 := by
    rw [List.length_take]
    omega
  have hmiddle : ((params.roundConstants.drop 4).take 56).length = 56 := by
    rw [List.length_take, List.length_drop]
    omega
  have hends : (params.roundConstants.drop 60).length = 4 := by
    rw [List.length_drop]
    omega
  have hblocks : params.roundConstants = params.roundConstants.take 4 ++
      (params.roundConstants.drop 4).take 56 ++ params.roundConstants.drop 60 := by
    have hrest : (params.roundConstants.drop 4).drop 56 = params.roundConstants.drop 60 :=
      List.drop_drop
    rw [List.append_assoc, ← hrest, List.take_append_drop, List.take_append_drop]
  have ht : params.t ∈ [2, 3, 4] := by
    rcases h.shaped.width with ht | ht | ht <;> rw [ht] <;> decide
  rw [forcedState_eq_rounds h.fullRounds_eq hbegins hends h.partialRounds]
  exact Poseidon2.permutation_eq_rounds hblocks (hbegins.trans h.roundsFDiv2.symm)
    (hmiddle.trans h.roundsP.symm) h.heads_eq hlen h.d ht

/-- **`Permutation(t)` and `Poseidon2::permutation` are one function.** -/
theorem permutation_iff_function (h : SameTables consts params) {inputs out : List K}
    (hlen : inputs.length = params.t) :
    permutation consts params.t inputs out ↔ Poseidon2.permutation params inputs = some out := by
  rw [permutation_iff h.shaped hlen, h.permutation_eq_forcedState hlen, Option.some.injEq, eq_comm]

/-- The function is defined on inputs of its width, and the output has that width again. -/
theorem exists_permutation (h : SameTables consts params) {inputs : List K}
    (hlen : inputs.length = params.t) :
    ∃ out, Poseidon2.permutation params inputs = some out ∧ out.length = params.t :=
  ⟨_, h.permutation_eq_forcedState hlen, length_forcedState h.shaped hlen le_rfl⟩

end SameTables

end Forced

end Circuit

end Veil
