/-
# Calls that either commit or leave no trace

A call is a function from a state to `Except ε σ`.  It reads, checks and writes in order, and the
first check that fails aborts it; the platform then discards everything the call wrote.  So a
failed call needs no state in its result, and `commit` is the whole rollback semantics.

* `bind_eq_ok` and `bind_eq_error` invert a sequence of steps, one step at a time;
* `ensure` and `okOr` are the two checks programs make, with what their success means;
* `run` is a history of calls, each of which may fail, and `run_induction` is the rule by which
  an invariant is carried through it;
* `accepted` and `visits` are two records of a history: the calls that succeeded, and every call
  with the state it ran on;
* `Agree` relates two programs that accept the same calls, and `Agree.accepted_eq` carries it
  through a history.
-/
import Mathlib

namespace Tx

universe u

variable {α β : Type u} {ε σ κ δ τ : Type*}

/-! ## 1. Inverting a sequence of steps -/

theorem bind_eq_ok {x : Except ε α} {f : α → Except ε β} {b : β} :
    (x >>= f) = .ok b ↔ ∃ a, x = .ok a ∧ f a = .ok b := by
  cases x <;> simp [Bind.bind, Except.bind]

theorem bind_eq_error {x : Except ε α} {f : α → Except ε β} {e : ε} :
    (x >>= f) = .error e ↔ x = .error e ∨ ∃ a, x = .ok a ∧ f a = .error e := by
  cases x <;> simp [Bind.bind, Except.bind]

theorem ok_bind (a : α) (f : α → Except ε β) : ((Except.ok a : Except ε α) >>= f) = f a := rfl

theorem error_bind (e : ε) (f : α → Except ε β) :
    ((Except.error e : Except ε α) >>= f) = .error e := rfl

/-- Renaming the errors keeps the results. -/
theorem mapError_eq_ok {x : Except ε α} {f : ε → δ} {a : α} :
    x.mapError f = .ok a ↔ x = .ok a := by
  cases x <;> simp [Except.mapError]

/-- One step for each element of a list. -/
theorem mapM_eq_ok {f : α → Except ε β} : ∀ {l : List α} {ys : List β},
    l.mapM f = .ok ys ↔ List.Forall₂ (fun a b => f a = .ok b) l ys
  | [], ys => by
    rw [List.mapM_nil, List.forall₂_nil_left_iff]
    exact ⟨fun h => (Except.ok.inj h).symm, fun h => congrArg Except.ok h.symm⟩
  | a :: l, ys => by
    rw [List.mapM_cons, bind_eq_ok, List.forall₂_cons_left_iff]
    constructor
    · rintro ⟨b, hb, h⟩
      obtain ⟨bs, hbs, h⟩ := bind_eq_ok.mp h
      exact ⟨b, bs, hb, mapM_eq_ok.mp hbs, (Except.ok.inj h).symm⟩
    · rintro ⟨b, bs, hb, hbs, rfl⟩
      exact ⟨b, hb, bind_eq_ok.mpr ⟨bs, mapM_eq_ok.mpr hbs, rfl⟩⟩

theorem mem_of_mapM {f : α → Except ε β} {l : List α} {ys : List β} (h : l.mapM f = .ok ys)
    {b : β} (hb : b ∈ ys) : ∃ a ∈ l, f a = .ok b := by
  have hall := mapM_eq_ok.mp h
  obtain ⟨k, hk, rfl⟩ := List.mem_iff_getElem.mp hb
  have hk' : k < l.length := hall.length_eq ▸ hk
  exact ⟨l[k], List.getElem_mem hk', hall.get hk' hk⟩

/-- Two sequences fail alike if their first steps agree on what decides the failure of the
rest. -/
theorem bind_eq_error_congr {γ : Type*} {x y : Except ε α} {p : α → γ} {f : α → Except ε β}
    {e : ε} (hxy : x.map p = y.map p) (hf : ∀ a b, p a = p b → (f a = .error e ↔ f b = .error e)) :
    (x >>= f) = .error e ↔ (y >>= f) = .error e := by
  cases x with
  | error d =>
    cases y with
    | error d' =>
      obtain rfl : d = d' := by simpa [Except.map] using hxy
      rfl
    | ok b => cases hxy
  | ok a =>
    cases y with
    | error d' => cases hxy
    | ok b => exact hf a b (by simpa [Except.map] using hxy)

/-! ## 2. Checks -/

/-- Abort with `e` unless `p` holds. -/
def ensure (p : Prop) [Decidable p] (e : ε) : Except ε Unit := if p then .ok () else .error e

@[simp] theorem ensure_eq_ok {p : Prop} [Decidable p] {e : ε} {u : Unit} :
    ensure p e = .ok u ↔ p := by
  by_cases h : p <;> simp [ensure, h]

@[simp] theorem ensure_eq_error {p : Prop} [Decidable p] {e e' : ε} :
    ensure p e = .error e' ↔ ¬p ∧ e = e' := by
  by_cases h : p <;> simp [ensure, h]

theorem ensure_pos {p : Prop} [Decidable p] (h : p) (e : ε) : ensure p e = .ok () := if_pos h

theorem ensure_neg {p : Prop} [Decidable p] (h : ¬p) (e : ε) : ensure p e = .error e := if_neg h

/-- The value read, or abort with `e`. -/
def okOr (o : Option α) (e : ε) : Except ε α := o.elim (.error e) .ok

@[simp] theorem okOr_some (a : α) (e : ε) : okOr (some a) e = .ok a := rfl

@[simp] theorem okOr_none (e : ε) : okOr (none : Option α) e = .error e := rfl

@[simp] theorem okOr_eq_ok {o : Option α} {e : ε} {a : α} : okOr o e = .ok a ↔ o = some a := by
  cases o <;> simp [okOr]

@[simp] theorem okOr_eq_error {o : Option α} {e e' : ε} :
    okOr o e = .error e' ↔ o = none ∧ e = e' := by
  cases o <;> simp [okOr]

/-- `x` succeeds, with a result that passes `p`. -/
def okAnd (x : Except ε α) (p : α → Bool) : Bool :=
  match x with
  | .ok a => p a
  | .error _ => false

theorem okAnd_eq_true {x : Except ε α} {p : α → Bool} :
    okAnd x p = true ↔ ∃ a, x = .ok a ∧ p a = true := by
  cases x <;> simp [okAnd]

/-! ### Which errors a sequence can end in -/

/-- `x` aborts, if at all, with an error that satisfies `P`. -/
def Fails (P : ε → Prop) (x : Except ε α) : Prop := ∀ e, x = .error e → P e

theorem Fails.ok {P : ε → Prop} (a : α) : Fails P (.ok a : Except ε α) := by
  intro e h
  cases h

theorem Fails.error {P : ε → Prop} {e : ε} (h : P e) : Fails P (.error e : Except ε α) := by
  intro e' h'
  cases h'
  exact h

theorem Fails.ensure {P : ε → Prop} {p : Prop} [Decidable p] {e : ε} (h : P e) :
    Fails P (ensure p e) := fun _ he => (ensure_eq_error.mp he).2 ▸ h

theorem Fails.okOr {P : ε → Prop} {o : Option α} {e : ε} (h : P e) : Fails P (okOr o e) :=
  fun _ he => (okOr_eq_error.mp he).2 ▸ h

theorem Fails.bind {P : ε → Prop} {x : Except ε α} {f : α → Except ε β} (hx : Fails P x)
    (hf : ∀ a, x = .ok a → Fails P (f a)) : Fails P (x >>= f) := by
  intro e h
  rcases bind_eq_error.mp h with h | ⟨a, ha, h⟩
  exacts [hx e h, hf a ha e h]

theorem Fails.mapError {P : ε → Prop} {x : Except δ α} {f : δ → ε}
    (h : Fails (fun e => P (f e)) x) : Fails P (x.mapError f) := by
  cases x with
  | error e => exact Fails.error (h e rfl)
  | ok a => exact Fails.ok a

/-! ## 3. Histories -/

/-- The state a call leaves behind: its own if it succeeds, the old one if it aborts. -/
def commit (r : Except ε σ) (s : σ) : σ :=
  match r with
  | .ok s' => s'
  | .error _ => s

@[simp] theorem commit_ok (s s' : σ) : commit (.ok s' : Except ε σ) s = s' := rfl

@[simp] theorem commit_error (e : ε) (s : σ) : commit (.error e) s = s := rfl

/-- A history: every call runs on what the one before it left. -/
def run (step : κ → σ → Except ε σ) (calls : List κ) (s : σ) : σ :=
  calls.foldl (fun s c => commit (step c s) s) s

@[simp] theorem run_nil (step : κ → σ → Except ε σ) (s : σ) : run step [] s = s := rfl

@[simp] theorem run_cons (step : κ → σ → Except ε σ) (c : κ) (cs : List κ) (s : σ) :
    run step (c :: cs) s = run step cs (commit (step c s) s) := rfl

theorem run_append (step : κ → σ → Except ε σ) (cs ds : List κ) (s : σ) :
    run step (cs ++ ds) s = run step ds (run step cs s) := by
  simp [run]

@[simp] theorem run_concat (step : κ → σ → Except ε σ) (cs : List κ) (c : κ) (s : σ) :
    run step (cs ++ [c]) s = commit (step c (run step cs s)) (run step cs s) := by
  simp [run]

/-- **The invariant rule.**  What every successful call keeps, every history keeps. -/
theorem run_induction {step : κ → σ → Except ε σ} {P : σ → Prop} {cs : List κ} {s : σ}
    (hstep : ∀ c ∈ cs, ∀ s s', P s → step c s = .ok s' → P s') (h0 : P s) :
    P (run step cs s) := by
  induction cs generalizing s with
  | nil => exact h0
  | cons c cs ih =>
    rw [run_cons]
    refine ih (fun d hd => hstep d (List.mem_cons_of_mem _ hd)) ?_
    cases hr : step c s with
    | error e => simpa using h0
    | ok s' => simpa using hstep c List.mem_cons_self s s' h0 hr

/-! ## 4. The calls that counted -/

/-- The calls of a history that succeed, in order. -/
def accepted (step : κ → σ → Except ε σ) : List κ → σ → List κ
  | [], _ => []
  | c :: cs, s =>
    match step c s with
    | .ok s' => c :: accepted step cs s'
    | .error _ => accepted step cs s

theorem accepted_singleton {step : κ → σ → Except ε σ} {c : κ} {s : σ}
    (h : (step c s).isOk = true) : accepted step [c] s = [c] := by
  cases hr : step c s with
  | ok s' => simp [accepted, hr]
  | error e =>
    rw [hr] at h
    cases h

/-- **The invariant rule with a log.**  A relation between the accepted calls and the state that
every accepted call extends holds after every history. -/
theorem accepted_induction {step : κ → σ → Except ε σ} {P : List κ → σ → Prop}
    (hstep : ∀ acc s c s', P acc s → step c s = .ok s' → P (acc ++ [c]) s') :
    ∀ (cs : List κ) (acc : List κ) (s : σ), P acc s →
      P (acc ++ accepted step cs s) (run step cs s)
  | [], acc, s, h => by simpa [accepted] using h
  | c :: cs, acc, s, h => by
    cases hr : step c s with
    | error e => simpa [accepted, hr] using accepted_induction hstep cs acc s h
    | ok s' =>
      simpa [accepted, hr] using accepted_induction hstep cs (acc ++ [c]) s' (hstep acc s c s' h hr)

theorem accepted_sublist (step : κ → σ → Except ε σ) : ∀ (cs : List κ) (s : σ),
    (accepted step cs s).Sublist cs
  | [], _ => List.Sublist.slnil
  | c :: cs, s => by
    cases hr : step c s with
    | error e => simpa [accepted, hr] using (accepted_sublist step cs s).cons c
    | ok s' => simpa [accepted, hr] using accepted_sublist step cs s'

theorem accepted_append (step : κ → σ → Except ε σ) (ds : List κ) : ∀ (cs : List κ) (s : σ),
    accepted step (cs ++ ds) s = accepted step cs s ++ accepted step ds (run step cs s)
  | [], s => by simp [accepted]
  | c :: cs, s => by
    cases hr : step c s with
    | error e => simpa [accepted, hr] using accepted_append step ds cs s
    | ok s' => simpa [accepted, hr] using accepted_append step ds cs s'

/-! ## 5. The states calls run on -/

/-- The calls of a history, each with the state it runs on. -/
def visits (step : κ → σ → Except ε σ) : List κ → σ → List (σ × κ)
  | [], _ => []
  | c :: cs, s => (s, c) :: visits step cs (commit (step c s) s)

theorem visits_concat (step : κ → σ → Except ε σ) (c : κ) : ∀ (cs : List κ) (s : σ),
    visits step (cs ++ [c]) s = visits step cs s ++ [(run step cs s, c)]
  | [], _ => rfl
  | d :: cs, s => by
    rw [List.cons_append, visits, visits, visits_concat step c cs, run_cons, List.cons_append]

theorem exists_of_mem_visits {step : κ → σ → Except ε σ} {v : σ × κ} : ∀ {cs : List κ} {s : σ},
    v ∈ visits step cs s → ∃ before after, cs = before ++ v.2 :: after ∧ v.1 = run step before s
  | c :: cs, s, h => by
    rcases List.mem_cons.mp h with rfl | h
    · exact ⟨[], cs, rfl, rfl⟩
    · obtain ⟨before, after, hcs, hs⟩ := exists_of_mem_visits h
      exact ⟨c :: before, after, by rw [hcs, List.cons_append], hs⟩

/-! ## 6. Two levels -/

/-- **Two programs agree** under `R`: in related states they accept the same calls, and an
accepted call leaves related states. -/
structure Agree (R : σ → τ → Prop) (step : κ → σ → Except ε σ) (spec : κ → τ → Except δ τ) :
    Prop where
  forth : ∀ {c s t s'}, R s t → step c s = .ok s' → ∃ t', spec c t = .ok t' ∧ R s' t'
  back : ∀ {c s t t'}, R s t → spec c t = .ok t' → ∃ s', step c s = .ok s'

variable {R : σ → τ → Prop} {step : κ → σ → Except ε σ} {spec : κ → τ → Except δ τ}

/-- **Every history** has the same accepted calls at both levels. -/
theorem Agree.accepted_eq (h : Agree R step spec) : ∀ (cs : List κ) {s : σ} {t : τ}, R s t →
    accepted step cs s = accepted spec cs t ∧ R (run step cs s) (run spec cs t)
  | [], _, _, hR => ⟨rfl, hR⟩
  | c :: cs, s, t, hR => by
    cases hs : step c s with
    | ok s' =>
      obtain ⟨t', ht, hR'⟩ := h.forth hR hs
      obtain ⟨hacc, hrun⟩ := h.accepted_eq cs hR'
      simpa [accepted, hs, ht] using ⟨hacc, hrun⟩
    | error e =>
      cases ht : spec c t with
      | ok t' =>
        obtain ⟨s', hs'⟩ := h.back hR ht
        rw [hs] at hs'
        cases hs'
      | error d => simpa [accepted, hs, ht] using h.accepted_eq cs hR

end Tx
