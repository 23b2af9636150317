/-
# Association lists without repeated keys

A finite map that is only looked up, as a list of pairs.  While no key stands twice, an entry is
found under its key, and neither looking up nor taking an entry out depends on the order of the
entries: `lookup_perm` and `perm_cons_filter` are what a proof about such a map uses.
-/
import Mathlib

namespace Assoc

variable {κ α : Type*} [BEq κ] [LawfulBEq κ] {l l' : List (κ × α)} {k : κ} {v : α}

theorem isSome_lookup_iff : (l.lookup k).isSome = true ↔ k ∈ l.map Prod.fst := by
  induction l with
  | nil => simp
  | cons p l ih =>
    rw [List.lookup_cons]
    by_cases h : k = p.1
    · simp [h]
    · simp [beq_false_of_ne h, h, ih]

/-- In a list without repeated keys every entry is found. -/
theorem lookup_eq_some_of_mem (hnd : (l.map Prod.fst).Nodup) (h : (k, v) ∈ l) :
    l.lookup k = some v := by
  induction l with
  | nil => cases h
  | cons p l ih =>
    rw [List.map_cons, List.nodup_cons] at hnd
    rcases List.mem_cons.mp h with rfl | h
    · simp
    · have hne : k ≠ p.1 := fun he => hnd.1 (he ▸ List.mem_map.mpr ⟨_, h, rfl⟩)
      rw [List.lookup_cons, beq_false_of_ne hne]
      exact ih hnd.2 h

theorem mem_of_lookup (h : l.lookup k = some v) : (k, v) ∈ l := by
  obtain ⟨l₁, l₂, rfl, -⟩ := List.lookup_eq_some_iff.mp h
  simp

theorem lookup_perm (hp : l.Perm l') (hnd : (l.map Prod.fst).Nodup) (k : κ) :
    l.lookup k = l'.lookup k := by
  have hnd' : (l'.map Prod.fst).Nodup := (hp.map _).nodup_iff.mp hnd
  cases hl : l'.lookup k with
  | some v => exact lookup_eq_some_of_mem hnd (hp.mem_iff.mpr (mem_of_lookup hl))
  | none =>
    rw [← Option.not_isSome_iff_eq_none, isSome_lookup_iff, ← (hp.map Prod.fst).mem_iff,
      ← isSome_lookup_iff] at hl
    exact Option.not_isSome_iff_eq_none.mp hl

omit [BEq κ] [LawfulBEq κ] in
/-- The other entries keep their keys distinct. -/
theorem nodup_filter (hnd : (l.map Prod.fst).Nodup) (p : κ × α → Bool) :
    ((l.filter p).map Prod.fst).Nodup :=
  hnd.sublist (List.filter_sublist.map _)

/-- **Taking an entry out.**  The entry found under `k` and the entries under other keys are all
there is. -/
theorem perm_cons_filter [DecidableEq κ] (hnd : (l.map Prod.fst).Nodup) (h : l.lookup k = some v) :
    l.Perm ((k, v) :: l.filter (·.1 ≠ k)) := by
  induction l with
  | nil => cases h
  | cons p l ih =>
    rw [List.map_cons, List.nodup_cons] at hnd
    rw [List.lookup_cons] at h
    by_cases hk : k = p.1
    · have hrest : l.filter (·.1 ≠ k) = l := by
        rw [List.filter_eq_self]
        intro q hq
        simpa using fun he : q.1 = k => hnd.1 (List.mem_map.mpr ⟨q, hq, he.trans hk⟩)
      rw [hk, beq_self_eq_true] at h
      obtain rfl : p.2 = v := Option.some.inj h
      rw [List.filter_cons_of_neg (by simp [hk]), hrest, hk]
    · rw [beq_false_of_ne hk] at h
      rw [List.filter_cons_of_pos (by simpa using fun he : p.1 = k => hk he.symm)]
      exact ((ih hnd.2 h).cons p).trans (List.Perm.swap _ _ _)

end Assoc
