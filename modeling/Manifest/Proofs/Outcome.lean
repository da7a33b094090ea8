import Manifest.Diagnostic
import Mathlib.Data.List.Forall2
/-!
# Outcomes

An operation that is put together from parts succeeds only if its parts do:
what a result says about the results it came from.
-/

namespace Manifest

variable {ε α β : Type}

theorem ok_of_map_eq_ok {f : α → β} {x : Except ε α} {b : β} (h : x.map f = .ok b) :
    ∃ a, x = .ok a ∧ f a = b := by
  cases x with
  | error e => cases h
  | ok a => exact ⟨a, rfl, Except.ok.inj h⟩

theorem error_of_map_eq_error {f : α → β} {x : Except ε α} {e : ε} (h : x.map f = .error e) :
    x = .error e := by
  cases x with
  | error e' => exact congrArg Except.error (Except.error.inj h)
  | ok a => cases h

theorem ok_of_bind_eq_ok {x : Except ε α} {f : α → Except ε β} {b : β}
    (h : (x >>= f) = .ok b) : ∃ a, x = .ok a ∧ f a = .ok b := by
  cases x with
  | error e => cases h
  | ok a => exact ⟨a, rfl, h⟩

/-- Two steps give something if the first does, and the second whatever the
first gives. -/
theorem isSome_bind {x : Option α} {f : α → Option β} (hx : x.isSome) (hf : ∀ a, (f a).isSome) :
    (x >>= f).isSome := by
  obtain ⟨a, rfl⟩ := Option.isSome_iff_exists.mp hx
  exact hf a

theorem isSome_mapM {f : α → Option β} : ∀ {items : List α},
    (∀ item ∈ items, (f item).isSome) → (items.mapM f).isSome
  | [], _ => rfl
  | item :: items, h => by
      rw [List.mapM_cons]
      exact isSome_bind (h item (List.mem_cons_self ..)) fun _ =>
        isSome_bind (isSome_mapM fun other hother => h other (List.mem_cons_of_mem _ hother))
          fun _ => rfl

/-- There is something, and the property holds of it. -/
def Gives (x : Option α) (p : α → Prop) : Prop := ∃ a, x = some a ∧ p a

theorem Gives.pure {p : α → Prop} {a : α} (h : p a) : Gives (some a) p := ⟨a, rfl, h⟩

theorem Gives.bind {x : Option α} {next : α → Option β} {p : α → Prop} {q : β → Prop}
    (h : Gives x p) (hnext : ∀ a, p a → Gives (next a) q) : Gives (x >>= next) q := by
  obtain ⟨a, rfl, ha⟩ := h
  exact hnext a ha

theorem Gives.map {x : Option α} {f : α → β} {p : α → Prop} {q : β → Prop} (h : Gives x p)
    (hf : ∀ a, p a → q (f a)) : Gives (x.map f) q := by
  obtain ⟨a, rfl, ha⟩ := h
  exact ⟨f a, rfl, hf a ha⟩

/-! ## Related options -/

section Related

variable {γ : Type} {r : α → β → Prop} {a : α} {x : Option α} {y : Option β}

theorem rel_map {f : α → β} (h : ∀ a, r a (f a)) (x : Option α) : Option.Rel r x (x.map f) := by
  cases x with
  | none => exact .none
  | some a => exact .some (h a)

theorem eq_none_of_rel (h : Option.Rel r none y) : y = none := by
  cases h with
  | none => rfl

theorem exists_of_rel (h : Option.Rel r (some a) y) : ∃ b, y = some b ∧ r a b := by
  cases h with
  | some hab => exact ⟨_, rfl, hab⟩

/-- What is the same of related values is the same of the options. -/
theorem map_eq_of_rel {f : α → γ} {g : β → γ} (h : Option.Rel r x y)
    (heq : ∀ {a b}, r a b → g b = f a) : y.map g = x.map f := by
  cases h with
  | none => rfl
  | some hab => exact congrArg some (heq hab)

theorem eq_of_rel {x y : Option α} {r : α → α → Prop} (h : Option.Rel r x y)
    (heq : ∀ {a b}, r a b → a = b) : x = y := by
  cases h with
  | none => rfl
  | some hab => rw [heq hab]

theorem eq_of_rel_eq {x y : Option α} (h : Option.Rel Eq x y) : x = y := eq_of_rel h id

end Related

/-! ## Steps along a list -/

/-- What a step along a list gives comes from an item of the list. -/
theorem exists_of_mem_mapM {f : α → Except ε β} {b : β} : ∀ {items : List α} {results : List β},
    items.mapM f = .ok results → b ∈ results → ∃ a ∈ items, f a = .ok b
  | [], results, h, hb => by
      obtain rfl : [] = results := Except.ok.inj h
      cases hb
  | item :: items, results, h, hb => by
      rw [List.mapM_cons] at h
      obtain ⟨first, hfirst, h⟩ := ok_of_bind_eq_ok h
      obtain ⟨rest, hrest, h⟩ := ok_of_bind_eq_ok h
      obtain rfl : first :: rest = results := Except.ok.inj h
      rcases List.mem_cons.mp hb with rfl | hb
      · exact ⟨item, List.mem_cons_self .., hfirst⟩
      · obtain ⟨a, ha, hfa⟩ := exists_of_mem_mapM hrest hb
        exact ⟨a, List.mem_cons_of_mem _ ha, hfa⟩

/-- A step along a list gives a result for each of its items. -/
theorem exists_result_of_mapM {f : α → Except ε β} {a : α} : ∀ {items : List α}
    {results : List β}, items.mapM f = .ok results → a ∈ items → ∃ b ∈ results, f a = .ok b
  | item :: items, results, h, ha => by
      rw [List.mapM_cons] at h
      obtain ⟨first, hfirst, h⟩ := ok_of_bind_eq_ok h
      obtain ⟨rest, hrest, h⟩ := ok_of_bind_eq_ok h
      obtain rfl : first :: rest = results := Except.ok.inj h
      rcases List.mem_cons.mp ha with rfl | ha
      · exact ⟨first, List.mem_cons_self .., hfirst⟩
      · obtain ⟨b, hb, hab⟩ := exists_result_of_mapM hrest ha
        exact ⟨b, List.mem_cons_of_mem _ hb, hab⟩

/-- What a step keeps of each item is kept along the list. -/
theorem map_of_mapM {γ : Type} {f : α → Except ε β} {p : α → γ} {q : β → γ}
    (hf : ∀ a b, f a = .ok b → q b = p a) : ∀ {items : List α} {results : List β},
      items.mapM f = .ok results → results.map q = items.map p
  | [], results, h => by
      obtain rfl : [] = results := Except.ok.inj h
      rfl
  | item :: items, results, h => by
      rw [List.mapM_cons] at h
      obtain ⟨first, hfirst, h⟩ := ok_of_bind_eq_ok h
      obtain ⟨rest, hrest, h⟩ := ok_of_bind_eq_ok h
      obtain rfl : first :: rest = results := Except.ok.inj h
      rw [List.map_cons, List.map_cons, hf item first hfirst, map_of_mapM hf hrest]

/-- A step that succeeds on every item succeeds along the list. -/
theorem exists_mapM {f : α → Except ε β} : ∀ {items : List α},
    (∀ item ∈ items, ∃ b, f item = .ok b) → ∃ results, items.mapM f = .ok results
  | [], _ => ⟨[], rfl⟩
  | item :: items, h => by
      obtain ⟨first, hfirst⟩ := h item (List.mem_cons_self ..)
      obtain ⟨rest, hrest⟩ :=
        exists_mapM fun other hother => h other (List.mem_cons_of_mem _ hother)
      refine ⟨first :: rest, ?_⟩
      rw [List.mapM_cons, hfirst, hrest]
      rfl

/-- In lists that are related one by one, each item of the first has one in the second. -/
theorem exists_of_forall₂ {p : α → β → Prop} {as : List α} {bs : List β}
    (h : List.Forall₂ p as bs) : ∀ a ∈ as, ∃ b ∈ bs, p a b := by
  induction h with
  | nil => exact fun _ ha => absurd ha List.not_mem_nil
  | cons hfirst _ ih =>
      intro a ha
      rcases List.mem_cons.mp ha with rfl | ha
      · exact ⟨_, List.mem_cons_self .., hfirst⟩
      · obtain ⟨b, hb, hab⟩ := ih a ha
        exact ⟨b, List.mem_cons_of_mem _ hb, hab⟩

theorem eq_of_unlessInvalid {ds : List Diagnostic} {value result : α}
    (h : unlessInvalid ds value = .ok result) : ds = [] ∧ value = result := by
  unfold unlessInvalid at h
  split at h
  · next hempty => exact ⟨List.isEmpty_iff.mp hempty, Except.ok.inj h⟩
  · cases h

end Manifest
