/-
# Loops that run until a round ends them

A loop is a function from a state to the next state or a result.  Whether it ends depends on what
the rounds do, so `run` is given a number of rounds it may use and returns the states it went
through, together with the result if there is one by then.

* `Ends` says that a loop goes through certain states and ends with a certain result, however many
  more rounds it is allowed.
* `exists_ends` is the rule for termination: a rank that falls with every round bounds the number
  of rounds.
* `invariant_run` carries an invariant to every state of a run, and `exists_last` to the round that
  ended it.
-/
import Mathlib

namespace Loop

variable {σ ρ : Type*}

/-- The states of at most `fuel` rounds, and the result if the loop has ended by then. -/
def run (step : σ → σ ⊕ ρ) : (fuel : Nat) → (s : σ) → List σ × Option ρ
  | 0, _ => ([], none)
  | fuel + 1, s =>
    match step s with
    | .inr r => ([s], some r)
    | .inl s' => (s :: (run step fuel s').1, (run step fuel s').2)

/-- The loop goes through `visited` and ends with `r`. -/
def Ends (step : σ → σ ⊕ ρ) (s : σ) (visited : List σ) (r : ρ) : Prop :=
  ∀ fuel, visited.length ≤ fuel → run step fuel s = (visited, some r)

variable {step : σ → σ ⊕ ρ} {s s' : σ} {r : ρ} {visited : List σ}

theorem run_inr (h : step s = .inr r) (fuel : Nat) : run step (fuel + 1) s = ([s], some r) := by
  rw [run, h]

theorem run_inl (h : step s = .inl s') (fuel : Nat) :
    run step (fuel + 1) s = (s :: (run step fuel s').1, (run step fuel s').2) := by
  rw [run, h]

theorem ends_inr (h : step s = .inr r) : Ends step s [s] r := by
  intro fuel hfuel
  obtain ⟨n, rfl⟩ : ∃ n, fuel = n + 1 := Nat.exists_eq_add_one.mpr hfuel
  exact run_inr h n

theorem Ends.cons (h : step s = .inl s') (hrest : Ends step s' visited r) :
    Ends step s (s :: visited) r := by
  intro fuel hfuel
  rw [List.length_cons] at hfuel
  obtain ⟨n, rfl⟩ : ∃ n, fuel = n + 1 := Nat.exists_eq_add_one.mpr (by omega)
  rw [run_inl h, hrest n (by omega)]

/-- **A loop whose rank falls with every round ends**, after at most one round more than its rank.
The rank has to fall at the states that satisfy an invariant only. -/
theorem exists_ends {P : σ → Prop} (rank : σ → Nat)
    (hstep : ∀ s s', P s → step s = .inl s' → P s' ∧ rank s' < rank s) :
    ∀ s, P s → ∃ visited r, Ends step s visited r ∧ visited.length ≤ rank s + 1 := by
  intro s hs
  induction hn : rank s using Nat.strong_induction_on generalizing s with
  | _ n ih =>
    cases hround : step s with
    | inr r => exact ⟨[s], r, ends_inr hround, by simp⟩
    | inl s' =>
      obtain ⟨hs', hlt⟩ := hstep s s' hs hround
      obtain ⟨visited, r, hends, hlen⟩ := ih (rank s') (hn ▸ hlt) s' hs' rfl
      refine ⟨s :: visited, r, .cons hround hends, ?_⟩
      rw [List.length_cons]
      omega

/-- **An invariant holds at every state of a run.** -/
theorem invariant_run {P : σ → Prop} (hstep : ∀ s s', P s → step s = .inl s' → P s') :
    ∀ fuel s, P s → ∀ v ∈ (run step fuel s).1, P v
  | 0, _, _, _, hv => by cases hv
  | fuel + 1, s, hs, v, hv => by
    cases hround : step s with
    | inr r =>
      rw [run_inr hround, List.mem_singleton] at hv
      exact hv ▸ hs
    | inl s' =>
      rw [run_inl hround, List.mem_cons] at hv
      rcases hv with rfl | hv
      · exact hs
      · exact invariant_run hstep fuel s' (hstep s s' hs hround) v hv

/-- A run begins at its first state. -/
theorem head?_run (step : σ → σ ⊕ ρ) (s : σ) (fuel : Nat) :
    (run step (fuel + 1) s).1.head? = some s := by
  cases hround : step s with
  | inr r =>
    rw [run_inr hround]
    rfl
  | inl s' =>
    rw [run_inl hround]
    rfl

/-- The result comes from the last state. -/
theorem exists_last : ∀ fuel s, (run step fuel s).2 = some r →
    ∃ last ∈ (run step fuel s).1.getLast?, step last = .inr r
  | 0, _, h => by cases h
  | fuel + 1, s, h => by
    cases hround : step s with
    | inr r' =>
      rw [run_inr hround] at h ⊢
      exact ⟨s, rfl, hround.trans (congrArg _ (Option.some.inj h))⟩
    | inl s' =>
      rw [run_inl hround] at h ⊢
      obtain ⟨last, hlast, hr⟩ := exists_last fuel s' h
      refine ⟨last, ?_, hr⟩
      rw [List.getLast?_cons, Option.mem_def.mp hlast]
      rfl

theorem Ends.invariant {P : σ → Prop} (h : Ends step s visited r)
    (hstep : ∀ s s', P s → step s = .inl s' → P s') (hs : P s) : ∀ v ∈ visited, P v := by
  have hrun := invariant_run hstep visited.length s hs
  rwa [h _ le_rfl] at hrun

theorem Ends.last (h : Ends step s visited r) :
    ∃ last ∈ visited.getLast?, step last = .inr r := by
  have hrun := h visited.length le_rfl
  have hlast : ∃ last ∈ (run step visited.length s).1.getLast?, step last = .inr r :=
    exists_last visited.length s (by rw [hrun])
  rwa [hrun] at hlast

end Loop
