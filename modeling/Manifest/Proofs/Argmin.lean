import Mathlib.Data.List.MinMax
/-!
# The first of the least

What is taken of a list by the least value of a function stands before all that have the same
value (`argmin_eq_some_iff`). Among those within a bound it is the same as among all
(`argmin_filter_le`), if it is within the bound at all.
-/

namespace Manifest

variable {α : Type} {f : α → Nat} {c : α} {l : List α}

/-- What stands before the first of the least is greater, and what stands behind it is no
less. -/
theorem argmin_eq_some_iff : l.argmin f = some c ↔ ∃ before after,
    l = before ++ c :: after ∧ (∀ d ∈ before, f c < f d) ∧ ∀ d ∈ after, f c ≤ f d := by
  induction l generalizing c with
  | nil => simp
  | cons first rest ih =>
      rw [List.argmin_cons]
      constructor
      · intro h
        cases hrest : rest.argmin f with
        | none =>
            rw [hrest] at h
            obtain rfl := Option.some.inj h
            obtain rfl := List.argmin_eq_none.mp hrest
            exact ⟨[], [], rfl, List.forall_mem_nil _, List.forall_mem_nil _⟩
        | some best =>
            obtain ⟨before, after, rfl, hbefore, hafter⟩ := ih.mp hrest
            rw [hrest] at h
            dsimp only at h
            split at h
            · next hlt =>
                obtain rfl := Option.some.inj h
                exact ⟨first :: before, after, rfl, List.forall_mem_cons.mpr ⟨hlt, hbefore⟩,
                  hafter⟩
            · next hle =>
                obtain rfl := Option.some.inj h
                refine ⟨[], _, rfl, List.forall_mem_nil _, fun d hd => ?_⟩
                have hbest := List.le_of_mem_argmin hd hrest
                omega
      · rintro ⟨before, after, heq, hbefore, hafter⟩
        cases before with
        | nil =>
            obtain ⟨rfl, rfl⟩ := List.cons.inj heq
            cases hrest : rest.argmin f with
            | none => rfl
            | some best =>
                have hle := hafter best (List.argmin_mem hrest)
                dsimp only
                rw [if_neg (by omega)]
        | cons d before =>
            obtain ⟨rfl, rfl⟩ := List.cons.inj heq
            rw [List.forall_mem_cons] at hbefore
            rw [ih.mpr ⟨before, after, rfl, hbefore.2, hafter⟩]
            dsimp only
            rw [if_pos hbefore.1]

/-- What is beyond a bound does not bear on which is the first of the least. -/
theorem argmin_filter_le (limit : Nat) (l : List α) :
    (l.filter fun c => f c ≤ limit).argmin f = (l.argmin f).filter fun c => f c ≤ limit := by
  induction l with
  | nil => rfl
  | cons first rest ih =>
      rw [List.filter_cons, List.argmin_cons]
      by_cases hfirst : f first ≤ limit
      · rw [if_pos (decide_eq_true hfirst), List.argmin_cons, ih]
        cases rest.argmin f with
        | none => simp [Option.filter_some, hfirst]
        | some best =>
            by_cases hbest : f best ≤ limit
            · by_cases hlt : f best < f first <;> simp [Option.filter_some, hfirst, hbest, hlt]
            · have hge : ¬ f best < f first := by omega
              simp [Option.filter_some, hfirst, hbest, hge]
      · rw [if_neg (by simp [hfirst]), ih]
        cases rest.argmin f with
        | none => simp [Option.filter_some, hfirst]
        | some best =>
            by_cases hlt : f best < f first
            · simp [hlt]
            · have hbest : ¬ f best ≤ limit := by omega
              simp [Option.filter_some, hfirst, hbest, hlt]

end Manifest
