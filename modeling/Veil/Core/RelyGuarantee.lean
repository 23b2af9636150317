/-
# Processes that share a state

Any number of processes, each with a state of its own, and one state they share.  A step is a step
of the surroundings on the shared state, or of one process on the shared state and its own.

What a process knows of the shared state must survive what the others do.  `Guarantees` asks for it
in three parts: what the surroundings and each process keep, what they leave to the others (`R`),
and that a process's knowledge (`V`) survives that.  `Guarantees.run` is the rule: then every
process knows the truth in every reachable state.
-/
import Mathlib.Logic.Function.Basic
import Mathlib.Logic.Relation

namespace RelyGuarantee

variable {ι S L : Type*}

structure World (ι S L : Type*) where
  shared : S
  own : ι → L

/-- One step: of the surroundings, or of one process. -/
inductive Step [DecidableEq ι] (env : S → S → Prop) (act : ι → S → L → S → L → Prop) :
    World ι S L → World ι S L → Prop
  | env {w : World ι S L} {s : S} (step : env w.shared s) : Step env act w { w with shared := s }
  | act {w : World ι S L} (i : ι) {s : S} {l : L} (step : act i w.shared (w.own i) s l) :
      Step env act w ⟨s, Function.update w.own i l⟩

abbrev Reaches [DecidableEq ι] (env : S → S → Prop) (act : ι → S → L → S → L → Prop) :
    World ι S L → World ι S L → Prop :=
  Relation.ReflTransGen (Step env act)

/-- **Rely and guarantee**: `I` is kept of the shared state, `V i` is what process `i` knows of it,
and `R i` is what the others do to it. -/
structure Guarantees (env : S → S → Prop) (act : ι → S → L → S → L → Prop) (I : S → Prop)
    (V : ι → S → L → Prop) (R : ι → S → S → Prop) : Prop where
  env : ∀ {s s'}, I s → env s s' → I s' ∧ ∀ i, R i s s'
  act : ∀ {i s l s' l'}, I s → V i s l → act i s l s' l' → I s' ∧ V i s' l' ∧ ∀ j ≠ i, R j s s'
  stable : ∀ {i s l s'}, V i s l → R i s s' → V i s' l

/-- Everything known is true. -/
structure Holds (I : S → Prop) (V : ι → S → L → Prop) (w : World ι S L) : Prop where
  shared : I w.shared
  own : ∀ i, V i w.shared (w.own i)

variable {env : S → S → Prop} {act : ι → S → L → S → L → Prop} {I : S → Prop}
  {V : ι → S → L → Prop} {R : ι → S → S → Prop}

section Runs

variable [DecidableEq ι] {w w' : World ι S L}

theorem Guarantees.step (h : Guarantees env act I V R) (hw : Holds I V w)
    (hstep : Step env act w w') : Holds I V w' := by
  cases hstep with
  | env step =>
    obtain ⟨hshared, hothers⟩ := h.env hw.shared step
    exact ⟨hshared, fun i => h.stable (hw.own i) (hothers i)⟩
  | act i step =>
    obtain ⟨hshared, hown, hothers⟩ := h.act hw.shared (hw.own i) step
    refine ⟨hshared, fun j => ?_⟩
    by_cases hj : j = i
    · subst hj
      dsimp only
      rw [Function.update_self]
      exact hown
    · dsimp only
      rw [Function.update_of_ne hj]
      exact h.stable (hw.own j) (hothers j hj)

/-- **The rule for whole runs.** -/
theorem Guarantees.run (h : Guarantees env act I V R) (hw : Holds I V w)
    (hrun : Reaches env act w w') : Holds I V w' := by
  induction hrun with
  | refl => exact hw
  | tail _ hstep ih => exact h.step ih hstep

/-- A relation that every step keeps to, from a state where everything known is true, is kept to by
whole runs. -/
theorem Guarantees.run_rel (h : Guarantees env act I V R) {P : S → S → Prop}
    (refl : ∀ s, P s s) (trans : ∀ {s s' s''}, P s s' → P s' s'' → P s s'')
    (henv : ∀ {s s'}, I s → env s s' → P s s')
    (hact : ∀ {i s l s' l'}, I s → V i s l → act i s l s' l' → P s s')
    (hw : Holds I V w) (hrun : Reaches env act w w') : P w.shared w'.shared := by
  induction hrun with
  | refl => exact refl _
  | tail hbefore hstep ih =>
    have hmid := h.run hw hbefore
    cases hstep with
    | env step => exact trans ih (henv hmid.shared step)
    | act i step => exact trans ih (hact hmid.shared (hmid.own i) step)

end Runs

end RelyGuarantee
