import Manifest.Text.Blank
/-!
# Cutting a text at a separator

The pieces of a text are the only list that does not hold the separator and
is the text again when it is joined (`splitOn_eq_iff`). A text of known shape
is therefore cut by looking at its parts, and the parts of a text are known
from its pieces. That no piece is empty is seen at the separators: none stands at
an end, and no two stand together (`nil_mem_splitOn_iff`).
-/

namespace Manifest.Text

variable {sep : Char} {cs : List Char}

theorem splitOn_eq_list (sep : Char) : ∀ cs : List Char, splitOn sep cs = cs.splitOn sep
  | [] => rfl
  | c :: cs => by
      have hne := List.splitOn_ne_nil sep cs
      rw [splitOn, splitOn_eq_list sep cs, List.splitOn_cons_eq_if_modifyHead]
      by_cases hc : c = sep
      · rw [if_pos hc, if_pos (beq_iff_eq.mpr hc)]
      · rw [if_neg hc, if_neg (fun h => hc (beq_iff_eq.mp h))]
        cases hpieces : cs.splitOn sep with
        | nil => exact absurd hpieces hne
        | cons piece pieces => rfl

theorem splitOn_ne_nil (sep : Char) (cs : List Char) : splitOn sep cs ≠ [] := by
  rw [splitOn_eq_list]
  exact List.splitOn_ne_nil sep cs

theorem intercalate_splitOn (sep : Char) (cs : List Char) :
    [sep].intercalate (splitOn sep cs) = cs := by
  rw [splitOn_eq_list]
  exact List.intercalate_splitOn sep

theorem not_mem_of_mem_splitOn : ∀ {cs : List Char} {piece : List Char},
    piece ∈ splitOn sep cs → sep ∉ piece
  | [], piece, h => by
      obtain rfl := List.mem_singleton.mp h
      exact List.not_mem_nil
  | c :: cs, piece, h => by
      have hrest : ∀ other ∈ splitOn sep cs, sep ∉ other := fun _ => not_mem_of_mem_splitOn
      rw [splitOn] at h
      split at h
      · rcases List.mem_cons.mp h with rfl | h
        · exact List.not_mem_nil
        · exact hrest piece h
      · next hc =>
          split at h
          · next hnil => exact absurd hnil (splitOn_ne_nil sep cs)
          · next first pieces hpieces =>
              rw [hpieces] at hrest
              rcases List.mem_cons.mp h with rfl | h
              · rw [List.mem_cons, not_or]
                exact ⟨Ne.symm hc, hrest first (List.mem_cons_self ..)⟩
              · exact hrest piece (List.mem_cons_of_mem _ h)

/-- The pieces of a text hold all of its characters but the separators. -/
theorem flatten_splitOn (sep : Char) (cs : List Char) :
    (splitOn sep cs).flatten = cs.filter (· ≠ sep) := by
  induction cs with
  | nil => rfl
  | cons c cs ih =>
      rw [splitOn, List.filter_cons]
      by_cases hc : c = sep
      · rw [if_pos hc, if_neg (by simp [hc]), List.flatten_cons, List.nil_append, ih]
      · rw [if_neg hc, if_pos (by simp [hc]), ← ih]
        obtain ⟨piece, pieces, hpieces⟩ := List.exists_cons_of_ne_nil (splitOn_ne_nil sep cs)
        rw [hpieces, List.flatten_cons, List.flatten_cons, List.cons_append]

theorem mem_piece_of_mem {c : Char} (h : c ∈ cs) :
    c = sep ∨ ∃ piece ∈ splitOn sep cs, c ∈ piece := by
  rw [Classical.or_iff_not_imp_left, ← List.mem_flatten, flatten_splitOn]
  intro hc
  exact List.mem_filter.mpr ⟨h, decide_eq_true hc⟩

theorem forall_mem_splitOn_iff {p : Char → Prop} :
    (∀ piece ∈ splitOn sep cs, ∀ c ∈ piece, p c) ↔ ∀ c ∈ cs, c ≠ sep → p c := by
  rw [← List.forall_mem_flatten, flatten_splitOn, List.forall_mem_filter]
  simp

/-- The pieces of a text are what gives the text when it is joined. -/
theorem splitOn_eq_iff {pieces : List (List Char)} :
    splitOn sep cs = pieces
      ↔ pieces ≠ [] ∧ (∀ piece ∈ pieces, sep ∉ piece) ∧ cs = [sep].intercalate pieces := by
  constructor
  · rintro rfl
    exact ⟨splitOn_ne_nil sep cs, fun _ => not_mem_of_mem_splitOn,
      (intercalate_splitOn sep cs).symm⟩
  · rintro ⟨hne, hnot, rfl⟩
    rw [splitOn_eq_list]
    exact List.splitOn_intercalate sep hnot hne

theorem splitOn_eq_singleton_iff {piece : List Char} :
    splitOn sep cs = [piece] ↔ sep ∉ piece ∧ cs = piece := by
  rw [splitOn_eq_iff, List.intercalate_singleton]
  simp

theorem splitOn_eq_pair_iff {first second : List Char} :
    splitOn sep cs = [first, second]
      ↔ sep ∉ first ∧ sep ∉ second ∧ cs = first ++ sep :: second := by
  rw [splitOn_eq_iff, List.intercalate_cons_cons, List.intercalate_singleton]
  simp [and_assoc]

/-- Around a separator each side of a text is cut by itself. -/
theorem splitOn_append_cons (sep : Char) (cs more : List Char) :
    splitOn sep (cs ++ sep :: more) = splitOn sep cs ++ splitOn sep more := by
  simp only [splitOn_eq_list, List.splitOn_append_cons_self]

/-- A text is cut in only one way at a separator that it holds once. -/
theorem append_cons_inj {first second before after : List Char} (hfirst : sep ∉ first)
    (hsecond : sep ∉ second) (h : first ++ sep :: second = before ++ sep :: after) :
    before = first ∧ after = second := by
  have hpieces : splitOn sep (before ++ sep :: after) = [first, second] :=
    splitOn_eq_pair_iff.mpr ⟨hfirst, hsecond, h.symm⟩
  rw [splitOn_append_cons] at hpieces
  obtain ⟨b, bs, hbefore⟩ := List.exists_cons_of_ne_nil (splitOn_ne_nil sep before)
  obtain ⟨a, as, hafter⟩ := List.exists_cons_of_ne_nil (splitOn_ne_nil sep after)
  rw [hbefore, hafter, List.cons_append] at hpieces
  obtain ⟨rfl, hrest⟩ := List.cons.inj hpieces
  obtain ⟨rfl, hrest⟩ := List.append_eq_singleton_iff.mp hrest |>.resolve_right (by simp)
  obtain ⟨rfl, rfl⟩ := List.cons.inj hrest
  exact ⟨(splitOn_eq_singleton_iff.mp hbefore).2, (splitOn_eq_singleton_iff.mp hafter).2⟩

/-- A text is cut in only one way at the last separator. -/
theorem append_cons_inj_last {before before' last last' : List Char} (hlast : sep ∉ last)
    (hlast' : sep ∉ last') (h : before ++ sep :: last = before' ++ sep :: last') :
    before = before' ∧ last = last' := by
  rcases List.append_eq_append_iff.mp h with ⟨more, rfl, hmore⟩ | ⟨more, rfl, hmore⟩
  · cases more with
    | nil => simpa using hmore
    | cons c more =>
        rw [(List.cons.inj hmore).2] at hlast
        exact absurd (List.mem_append_right _ (List.mem_cons_self ..)) hlast
  · cases more with
    | nil => simpa [eq_comm] using hmore
    | cons c more =>
        rw [(List.cons.inj hmore).2] at hlast'
        exact absurd (List.mem_append_right _ (List.mem_cons_self ..)) hlast'

/-! ## Empty pieces -/

/-- The first piece is empty exactly if nothing stands in front of a separator. -/
theorem nil_mem_splitOn_iff_tail :
    [] ∈ splitOn sep cs ↔ (cs = [] ∨ cs.head? = some sep) ∨ [] ∈ (splitOn sep cs).tail := by
  cases cs with
  | nil => simp [splitOn]
  | cons c cs =>
      rw [splitOn]
      by_cases hc : c = sep
      · simp [hc]
      · obtain ⟨piece, pieces, hpieces⟩ := List.exists_cons_of_ne_nil (splitOn_ne_nil sep cs)
        simp [hc, hpieces]

/-- Behind the first piece there is an empty one exactly if a separator ends the text or
stands in front of another. -/
theorem nil_mem_tail_splitOn_iff :
    [] ∈ (splitOn sep cs).tail ↔ cs.getLast? = some sep ∨ [sep, sep] <:+: cs := by
  induction cs with
  | nil => simp [splitOn]
  | cons c cs ih =>
      have hpair : [sep, sep] <+: c :: cs ↔ c = sep ∧ cs.head? = some sep := by
        rw [List.cons_prefix_cons, eq_comm, List.singleton_prefix_iff_head?_eq_some]
      rw [List.infix_cons_iff, hpair, splitOn]
      by_cases hc : c = sep
      · subst hc
        rw [if_pos rfl, List.tail_cons, nil_mem_splitOn_iff_tail, ih]
        cases cs with
        | nil => simp
        | cons next cs => simp [or_left_comm]
      · -- the piece that is cut off is the first one, with or without `c`
        obtain ⟨piece, pieces, hpieces⟩ := List.exists_cons_of_ne_nil (splitOn_ne_nil sep cs)
        rw [hpieces, List.tail_cons] at ih
        rw [if_neg hc, hpieces]
        dsimp only
        rw [List.tail_cons, ih]
        cases cs with
        | nil => simp [hc]
        | cons next cs => simp [hc]

/-- A piece is empty exactly if the text is, a separator is at one of its ends, or two stand
side by side. -/
theorem nil_mem_splitOn_iff :
    [] ∈ splitOn sep cs ↔ cs = [] ∨ cs.head? = some sep ∨ cs.getLast? = some sep
      ∨ [sep, sep] <:+: cs := by
  rw [nil_mem_splitOn_iff_tail, nil_mem_tail_splitOn_iff, or_assoc]

/-! ## The first occurrence -/

/-- A text is found where its first character first is. -/
theorem breakOn?_of_not_mem {c : Char} {needle before : List Char} (h : c ∉ before)
    (rest : List Char) :
    breakOn? (c :: needle) (before ++ (c :: needle ++ rest)) = some (before, rest) := by
  induction before with
  | nil =>
      have hstart := dropStart?_append (c :: needle) rest
      rw [List.cons_append] at hstart
      rw [List.nil_append, List.cons_append]
      rw [breakOn?, hstart]
  | cons first before ih =>
      rw [List.mem_cons, not_or] at h
      rw [List.cons_append, breakOn?, dropStart?, if_neg h.1]
      simp only [ih h.2, Option.map_some]

/-- A text is cut at a character where that first is. -/
theorem breakOn?_singleton_eq_some_iff {c : Char} {cs before rest : List Char} :
    breakOn? [c] cs = some (before, rest) ↔ c ∉ before ∧ cs = before ++ c :: rest := by
  constructor
  · intro h
    have hcs : cs = before ++ c :: rest := by simpa using eq_append_of_breakOn? h
    refine ⟨fun hmem => ?_, hcs⟩
    -- Where the character is met before, the text is cut there.
    obtain ⟨first, more, rfl, hfirst⟩ := List.eq_append_cons_of_mem hmem
    have hcut : breakOn? [c] (first ++ ([c] ++ (more ++ c :: rest))) = some (first, _) :=
      breakOn?_of_not_mem hfirst _
    rw [hcs, List.append_assoc, List.cons_append] at h
    obtain ⟨hshort, -⟩ := Prod.mk.inj (Option.some.inj (hcut.symm.trans h))
    exact absurd (List.self_eq_append_right.mp hshort) (List.cons_ne_nil _ _)
  · rintro ⟨hbefore, rfl⟩
    exact breakOn?_of_not_mem hbefore rest

end Manifest.Text
