import Mathlib.Order.Bounds.Defs
import Manifest.Proofs.Argmin
import Manifest.Schema.Suggestion
/-!
# The distance of two texts and the suggestion it gives

The number that is computed row by row is the least number of edits that turn one text into
the other (`isLeast_editDistance`). In between stands `distance`, the recurrence that a row
follows: a row holds its values for all beginnings of the second text (`stepRow_distances`),
so many edits do turn one text into the other (`edits_distance`), and one edit changes it by
one at most (`distance_le_of_edit`), so that fewer edits are never enough.
-/

namespace Manifest.Schema

variable {a b : Char} {as as' bs cs : List Char} {n : Nat}

/-! ## Edits -/

/-- One character is inserted, deleted or substituted. -/
inductive Edit : List Char → List Char → Prop
  | insert (before : List Char) (c : Char) (after : List Char) :
      Edit (before ++ after) (before ++ c :: after)
  | delete (before : List Char) (c : Char) (after : List Char) :
      Edit (before ++ c :: after) (before ++ after)
  | substitute (before : List Char) (c d : Char) (after : List Char) :
      Edit (before ++ c :: after) (before ++ d :: after)

/-- So many edits, one after the other, turn the first text into the second. -/
inductive Edits : Nat → List Char → List Char → Prop
  | refl (cs : List Char) : Edits 0 cs cs
  | step {n : Nat} {as bs cs : List Char} (h : Edit as bs) (hrest : Edits n bs cs) :
      Edits (n + 1) as cs

theorem Edit.cons (c : Char) (h : Edit as bs) : Edit (c :: as) (c :: bs) := by
  cases h with
  | insert before d after => exact .insert (c :: before) d after
  | delete before d after => exact .delete (c :: before) d after
  | substitute before d e after => exact .substitute (c :: before) d e after

theorem Edits.cons (c : Char) (h : Edits n as bs) : Edits n (c :: as) (c :: bs) := by
  induction h with
  | refl cs => exact .refl (c :: cs)
  | step hedit _ ih => exact .step (hedit.cons c) ih

theorem Edit.reverse (h : Edit as bs) : Edit as.reverse bs.reverse := by
  cases h with
  | insert before c after => simpa using Edit.insert after.reverse c before.reverse
  | delete before c after => simpa using Edit.delete after.reverse c before.reverse
  | substitute before c d after => simpa using Edit.substitute after.reverse c d before.reverse

theorem Edits.reverse (h : Edits n as bs) : Edits n as.reverse bs.reverse := by
  induction h with
  | refl cs => exact .refl cs.reverse
  | step hedit _ ih => exact .step hedit.reverse ih

theorem edits_reverse_iff : Edits n as.reverse bs.reverse ↔ Edits n as bs := by
  refine ⟨fun h => ?_, Edits.reverse⟩
  simpa using h.reverse

/-! ## The recurrence -/

/-- The distance of two beginnings, each given with its last character first: the last edit
substitutes one last character for the other, deletes one or inserts one. -/
def distance : List Char → List Char → Nat
  | [], bs => bs.length
  | a :: as, [] => (a :: as).length
  | a :: as, b :: bs =>
    min (min (distance as bs + if a = b then 0 else 1) (distance as (b :: bs) + 1))
      (distance (a :: as) bs + 1)
termination_by as bs => as.length + bs.length
decreasing_by all_goals simp only [List.length_cons]; omega

theorem distance_nil_left (bs : List Char) : distance [] bs = bs.length := by rw [distance]

theorem distance_nil_right (as : List Char) : distance as [] = as.length := by
  cases as with
  | nil => rw [distance]
  | cons a as => rw [distance]

theorem distance_cons_cons : distance (a :: as) (b :: bs)
    = min (min (distance as bs + if a = b then 0 else 1) (distance as (b :: bs) + 1))
        (distance (a :: as) bs + 1) := by
  rw [distance]

theorem distance_cons_cons_le (a b : Char) (as bs : List Char) :
    distance (a :: as) (b :: bs) ≤ distance as bs + if a = b then 0 else 1 := by
  rw [distance_cons_cons]
  omega

theorem distance_cons_left_le (a : Char) (as bs : List Char) :
    distance (a :: as) bs ≤ distance as bs + 1 := by
  cases bs with
  | nil => simp [distance_nil_right]
  | cons b bs =>
      rw [distance_cons_cons]
      omega

theorem distance_cons_right_le (b : Char) (as bs : List Char) :
    distance as (b :: bs) ≤ distance as bs + 1 := by
  cases as with
  | nil => simp [distance_nil_left]
  | cons a as =>
      rw [distance_cons_cons]
      omega

/-- Which of the edits is the last one. -/
theorem distance_cons_cons_cases (a b : Char) (as bs : List Char) :
    distance (a :: as) (b :: bs) = distance as bs + (if a = b then 0 else 1)
      ∨ distance (a :: as) (b :: bs) = distance as (b :: bs) + 1
      ∨ distance (a :: as) (b :: bs) = distance (a :: as) bs + 1 := by
  rw [distance_cons_cons]
  omega

/-! ## So many edits are enough -/

theorem edits_of_nil : ∀ bs : List Char, Edits bs.length [] bs
  | [] => .refl []
  | b :: bs => .step (.insert [] b []) ((edits_of_nil bs).cons b)

theorem edits_to_nil : ∀ as : List Char, Edits as.length as []
  | [] => .refl []
  | a :: as => .step (.delete [] a as) (edits_to_nil as)

theorem edits_distance (as bs : List Char) : Edits (distance as bs) as bs := by
  fun_induction distance as bs with
  | case1 bs => exact edits_of_nil bs
  | case2 a as => exact edits_to_nil (a :: as)
  | case3 a as b bs hsubstitute hdelete hinsert =>
      rw [← distance_cons_cons]
      rcases distance_cons_cons_cases a b as bs with h | h | h
      · rw [h]
        split
        · next heq =>
            subst heq
            exact hsubstitute.cons a
        · exact .step (.substitute [] a b as) (hsubstitute.cons b)
      · rw [h]
        exact .step (.delete [] a as) hdelete
      · rw [h]
        exact .step (.insert [] b (a :: as)) (hinsert.cons b)

/-! ## Fewer are not -/

theorem distance_self (cs : List Char) : distance cs cs = 0 := by
  induction cs with
  | nil => rw [distance_nil_left, List.length_nil]
  | cons c cs ih =>
      have hle := distance_cons_cons_le c c cs cs
      rw [if_pos rfl, ih] at hle
      omega

theorem distance_insert_le (a : Char) (as bs : List Char) :
    distance as bs ≤ distance (a :: as) bs + 1 := by
  induction bs with
  | nil =>
      rw [distance_nil_right, distance_nil_right, List.length_cons]
      omega
  | cons b bs ih =>
      have hright := distance_cons_right_le b as bs
      rcases distance_cons_cons_cases a b as bs with h | h | h <;> omega

theorem distance_substitute_le (a a' : Char) (as bs : List Char) :
    distance (a :: as) bs ≤ distance (a' :: as) bs + 1 := by
  induction bs with
  | nil =>
      rw [distance_nil_right, distance_nil_right, List.length_cons, List.length_cons]
      omega
  | cons b bs ih =>
      have hboth := distance_cons_cons_le a b as bs
      have hleft := distance_cons_left_le a as (b :: bs)
      have hright := distance_cons_right_le b (a :: as) bs
      rcases distance_cons_cons_cases a' b as bs with h | h | h
      · split at hboth <;> omega
      · omega
      · omega

/-- What an edit does to the distance, it does behind a further character. -/
theorem distance_cons_le_of_le (a : Char)
    (h : ∀ bs, distance as bs ≤ distance as' bs + 1) (bs : List Char) :
    distance (a :: as) bs ≤ distance (a :: as') bs + 1 := by
  induction bs with
  | nil =>
      have hnil := h []
      rw [distance_nil_right, distance_nil_right] at hnil ⊢
      rw [List.length_cons, List.length_cons]
      omega
  | cons b bs ih =>
      have hboth := distance_cons_cons_le a b as bs
      have hleft := distance_cons_left_le a as (b :: bs)
      have hright := distance_cons_right_le b (a :: as) bs
      have hbs := h bs
      have hcons := h (b :: bs)
      rcases distance_cons_cons_cases a b as' bs with h | h | h <;> omega

theorem distance_le_of_edit (h : Edit as as') : ∀ bs, distance as bs ≤ distance as' bs + 1 := by
  -- At the front of a text each edit is known; what stands before it does not matter.
  have hfront (before : List Char) {after after' : List Char}
      (h : ∀ bs, distance after bs ≤ distance after' bs + 1) :
      ∀ bs, distance (before ++ after) bs ≤ distance (before ++ after') bs + 1 := by
    induction before with
    | nil => exact h
    | cons c before ih => exact distance_cons_le_of_le c ih
  cases h with
  | insert before c after => exact hfront before (distance_insert_le c after)
  | delete before c after => exact hfront before (distance_cons_left_le c after)
  | substitute before c d after => exact hfront before (distance_substitute_le c d after)

theorem distance_le_of_edits (h : Edits n as bs) : distance as bs ≤ n := by
  induction h with
  | refl cs => exact Nat.le_of_eq (distance_self cs)
  | @step n as bs cs hedit _ ih =>
      have hle := distance_le_of_edit hedit cs
      omega

/-! ## Rows -/

/-- The distances to the beginning `front` and to the longer ones that `bs` makes of it, all
of them with their last character first. -/
def distances (as front : List Char) : List Char → List Nat
  | [] => [distance as front]
  | b :: bs => distance as front :: distances as (b :: front) bs

theorem distances_eq_cons (as front bs : List Char) :
    distances as front bs = distance as front :: (distances as front bs).tail := by
  cases bs <;> rfl

theorem nextRow_distances (a : Char) (as : List Char) : ∀ front bs : List Char,
    nextRow a (distance as front) (distance (a :: as) front) (distances as front bs).tail bs
      = (distances (a :: as) front bs).tail := by
  intro front bs
  induction bs generalizing front with
  | nil => rfl
  | cons b bs ih =>
      rw [distances, distances, List.tail_cons, List.tail_cons, distances_eq_cons as,
        distances_eq_cons (a :: as), nextRow, ← distance_cons_cons, ih]

/-- Reading one more character gives the row of the longer text. -/
theorem stepRow_distances (a : Char) (as bs : List Char) :
    stepRow bs (distances as [] bs) a = distances (a :: as) [] bs := by
  have hfirst : distance as [] + 1 = distance (a :: as) [] := by
    rw [distance_nil_right, distance_nil_right, List.length_cons]
  rw [distances_eq_cons, stepRow, hfirst, nextRow_distances, ← distances_eq_cons]

theorem foldl_stepRow (bs : List Char) : ∀ more as : List Char,
    more.foldl (stepRow bs) (distances as [] bs) = distances (more.reverse ++ as) [] bs := by
  intro more
  induction more with
  | nil => exact fun _ => rfl
  | cons a more ih =>
      intro as
      rw [List.foldl_cons, stepRow_distances, ih, List.reverse_cons, List.append_assoc,
        List.singleton_append]

theorem distances_nil : ∀ front bs : List Char,
    distances [] front bs = List.range' front.length (bs.length + 1) := by
  intro front bs
  induction bs generalizing front with
  | nil => rw [distances, distance_nil_left, List.length_nil, List.range'_one]
  | cons b bs ih =>
      rw [List.length_cons, List.range'_succ, distances, distance_nil_left, ih, List.length_cons]

theorem getLast?_distances (as : List Char) : ∀ front bs : List Char,
    (distances as front bs).getLast? = some (distance as (bs.reverse ++ front)) := by
  intro front bs
  induction bs generalizing front with
  | nil => rfl
  | cons b bs ih =>
      rw [distances, List.getLast?_cons, ih, Option.getD_some, List.reverse_cons,
        List.append_assoc, List.singleton_append]

theorem editDistance_eq_distance (s t : String) :
    editDistance s t = distance s.toList.reverse t.toList.reverse := by
  have hrow : List.range (t.toList.length + 1) = distances [] [] t.toList := by
    rw [distances_nil, List.range_eq_range', List.length_nil]
  rw [editDistance, hrow, foldl_stepRow, getLast?_distances, List.append_nil, List.append_nil,
    Option.getD_some]

theorem isLeast_editDistance (s t : String) :
    IsLeast {n | Edits n s.toList t.toList} (editDistance s t) := by
  rw [editDistance_eq_distance]
  constructor
  · exact edits_reverse_iff.mp (edits_distance _ _)
  · intro n h
    exact distance_le_of_edits (edits_reverse_iff.mpr h)

/-! ## Suggestions -/

variable {value name : String} {candidates : List String}

/-- The closest candidate is the first of those with the least distance. -/
theorem closest?_eq_argmin (scored : List (Nat × String)) :
    closest? scored = scored.argmin Prod.fst := by
  induction scored with
  | nil => rfl
  | cons c rest ih =>
      rw [closest?, List.argmin_cons, ih]
      cases rest.argmin Prod.fst <;> rfl

theorem suggest?_eq (value : String) (candidates : List String) :
    suggest? value candidates
      = (((candidates.map fun c => (editDistance value c, c)).argmin Prod.fst).filter
          fun c => c.1 ≤ 2).map Prod.snd := by
  rw [suggest?, closest?_eq_argmin, argmin_filter_le]

theorem suggest?_eq_some_iff : suggest? value candidates = some name ↔ ∃ before after,
    candidates = before ++ name :: after ∧ editDistance value name ≤ 2
      ∧ (∀ c ∈ before, editDistance value name < editDistance value c)
      ∧ ∀ c ∈ after, editDistance value name ≤ editDistance value c := by
  rw [suggest?_eq]
  simp only [Option.map_eq_some_iff, Option.filter_eq_some_iff, argmin_eq_some_iff,
    decide_eq_true_iff]
  constructor
  · rintro ⟨⟨distance, found⟩, ⟨⟨front, back, hmap, hfront, hback⟩, hle⟩, rfl⟩
    obtain ⟨before, rest, rfl, rfl, hrest⟩ := List.map_eq_append_iff.mp hmap
    obtain ⟨c, after, rfl, hc, rfl⟩ := List.map_eq_cons_iff.mp hrest
    obtain ⟨rfl, rfl⟩ := Prod.mk.inj hc
    exact ⟨before, after, rfl, hle, fun d hd => hfront _ (List.mem_map_of_mem hd),
      fun d hd => hback _ (List.mem_map_of_mem hd)⟩
  · rintro ⟨before, after, rfl, hle, hbefore, hafter⟩
    refine ⟨(editDistance value name, name), ⟨⟨before.map fun c => (editDistance value c, c),
      after.map fun c => (editDistance value c, c), ?_, ?_, ?_⟩, hle⟩, rfl⟩
    · rw [List.map_append, List.map_cons]
    · exact List.forall_mem_map.mpr hbefore
    · exact List.forall_mem_map.mpr hafter

theorem suggest?_eq_none_iff :
    suggest? value candidates = none ↔ ∀ c ∈ candidates, 2 < editDistance value c := by
  rw [suggest?, Option.map_eq_none_iff, closest?_eq_argmin, List.argmin_eq_none,
    List.filter_eq_nil_iff, List.forall_mem_map]
  refine forall₂_congr fun c _ => ?_
  rw [decide_eq_true_iff, Nat.not_le]

/-- The distance is the least number of edits, and the suggestion is the first candidate of
least distance; there is none exactly if all are more than two edits away. -/
theorem suggest?_closest (value : String) (candidates : List String) :
    (∀ s t : String, IsLeast {n | Edits n s.toList t.toList} (editDistance s t))
    ∧ (∀ name, suggest? value candidates = some name ↔ ∃ before after,
        candidates = before ++ name :: after ∧ editDistance value name ≤ 2
          ∧ (∀ c ∈ before, editDistance value name < editDistance value c)
          ∧ ∀ c ∈ after, editDistance value name ≤ editDistance value c)
    ∧ (suggest? value candidates = none ↔ ∀ c ∈ candidates, 2 < editDistance value c) :=
  ⟨isLeast_editDistance, fun _ => suggest?_eq_some_iff, suggest?_eq_none_iff⟩

end Manifest.Schema
