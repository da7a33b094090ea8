import Manifest.Proofs.Slug.Reader
/-!
# Names and tags by their characters

Which texts are names and tags, said of their single characters and of neighbours
(`names_iff_characters`): no words are formed, and no text is cut. That the words of a
segment are not empty says that it has no hyphen at an end and none beside another.
-/

namespace Manifest.Slug

variable {text account name : String}

/-- Up to 32 lower-case letters, digits and hyphens, and no hyphen at an end or beside
another. -/
structure SegmentText (text : String) : Prop where
  nonempty : 1 ≤ text.length
  short : text.length ≤ 32
  chars : ∀ c ∈ text.toList, NameChar c ∨ c = '-'
  start : text.toList.head? ≠ some '-'
  stop : text.toList.getLast? ≠ some '-'
  single : ¬ ['-', '-'] <:+: text.toList

/-- Up to 128 word characters, periods and hyphens, the first of them a word character. -/
structure TagText (text : String) : Prop where
  nonempty : 1 ≤ text.length
  short : text.length ≤ 128
  chars : ∀ c ∈ text.toList, WordChar c ∨ c = '.' ∨ c = '-'
  start : ∀ c ∈ text.toList.head?, WordChar c

theorem one_le_length_iff : 1 ≤ text.length ↔ text.toList ≠ [] := by
  rw [← String.length_toList, Nat.one_le_iff_ne_zero, ne_eq, List.length_eq_zero_iff]

/-! ## Segments -/

/-- The words between hyphens are names exactly if all else is hyphens, and no two of those
have nothing between them. -/
theorem forall_isWord_iff {cs : List Char} :
    (∀ word ∈ Text.splitOn '-' cs, IsWord word) ↔ cs ≠ [] ∧ cs.head? ≠ some '-'
      ∧ cs.getLast? ≠ some '-' ∧ ¬ ['-', '-'] <:+: cs ∧ ∀ c ∈ cs, NameChar c ∨ c = '-' := by
  have hnonempty : (∀ word ∈ Text.splitOn '-' cs, word ≠ []) ↔ [] ∉ Text.splitOn '-' cs :=
    ⟨fun h hmem => h [] hmem rfl, fun h word hword heq => h (heq ▸ hword)⟩
  have hchars : (∀ c ∈ cs, c ≠ '-' → NameChar c) ↔ ∀ c ∈ cs, NameChar c ∨ c = '-' :=
    forall₂_congr fun c _ => Classical.or_iff_not_imp_right.symm
  simp only [IsWord, forall_and]
  rw [hnonempty, Text.nil_mem_splitOn_iff, Text.forall_mem_splitOn_iff, hchars]
  simp only [not_or, and_assoc, ne_eq]

theorem isSegment_iff_segmentText : IsSegment text ↔ SegmentText text := by
  have hwords : IsSegment text
      ↔ text.length ≤ 32 ∧ ∀ word ∈ Text.splitOn '-' text.toList, IsWord word := by
    rw [← isNameText_iff, isNameText, isName, Bool.and_eq_true, decide_eq_true_iff,
      List.all_eq_true, nameLimit, String.length_toList]
    exact and_congr_right fun _ => forall₂_congr fun word _ => isNameWord_iff
  rw [hwords, forall_isWord_iff, ← one_le_length_iff]
  constructor
  · rintro ⟨hshort, hnonempty, hstart, hstop, hsingle, hchars⟩
    exact ⟨hnonempty, hshort, hchars, hstart, hstop, hsingle⟩
  · rintro ⟨hnonempty, hshort, hchars, hstart, hstop, hsingle⟩
    exact ⟨hshort, hnonempty, hstart, hstop, hsingle, hchars⟩

/-! ## Tags -/

theorem isTag_iff_tagText : IsTag text ↔ TagText text := by
  constructor
  · rintro ⟨⟨first, rest, hchars, hfirst, hrest⟩, hshort⟩
    refine ⟨?_, hshort, ?_, ?_⟩
    · rw [one_le_length_iff, hchars]
      exact List.cons_ne_nil _ _
    · rw [hchars, List.forall_mem_cons]
      exact ⟨Or.inl hfirst, hrest⟩
    · rw [hchars]
      rintro _ ⟨⟩
      exact hfirst
  · rintro ⟨hnonempty, hshort, hchars, hstart⟩
    obtain ⟨first, rest, hcons⟩ := List.exists_cons_of_ne_nil (one_le_length_iff.mp hnonempty)
    rw [hcons] at hchars hstart
    exact ⟨⟨first, rest, hcons, hstart first rfl, (List.forall_mem_cons.mp hchars).2⟩, hshort⟩

/-! ## Recognizers -/

/-- Names and tags are recognized by their characters, and the name of a component is a
segment, or an account and a segment with a slash between them. -/
theorem names_iff_characters (text : String) :
    (isNameText text = true ↔ SegmentText text)
    ∧ (isTagText text = true ↔ TagText text)
    ∧ (∀ name, splitComponentName? text = some (none, name) ↔ SegmentText text ∧ name = text)
    ∧ (∀ account name, splitComponentName? text = some (some account, name)
        ↔ SegmentText account ∧ SegmentText name ∧ text = account ++ "/" ++ name)
    ∧ (splitComponentName? text = none ↔ ¬ SegmentText text
        ∧ ∀ account name, SegmentText account → SegmentText name →
          text ≠ account ++ "/" ++ name) := by
  have hsingle : ∀ name, splitComponentName? text = some (none, name)
      ↔ SegmentText text ∧ name = text := by
    intro name
    rw [splitComponentName?_eq_single_iff, isSegment_iff_segmentText]
    constructor
    · rintro ⟨hname, rfl⟩
      exact ⟨hname, rfl⟩
    · rintro ⟨htext, rfl⟩
      exact ⟨htext, rfl⟩
  have hpair : ∀ account name, splitComponentName? text = some (some account, name)
      ↔ SegmentText account ∧ SegmentText name ∧ text = account ++ "/" ++ name := by
    intro account name
    rw [splitComponentName?_eq_pair_iff, isSegment_iff_segmentText, isSegment_iff_segmentText]
  refine ⟨by rw [isNameText_iff, isSegment_iff_segmentText],
    by rw [isTagText_iff, isTag_iff_tagText], hsingle, hpair, ?_⟩
  constructor
  · intro hnone
    constructor
    · intro htext
      have hsome := (hsingle text).mpr ⟨htext, rfl⟩
      rw [hnone] at hsome
      cases hsome
    · intro account name haccount hname heq
      have hsome := (hpair account name).mpr ⟨haccount, hname, heq⟩
      rw [hnone] at hsome
      cases hsome
  · rintro ⟨hnot, hnever⟩
    cases hsplit : splitComponentName? text with
    | none => rfl
    | some split =>
        obtain ⟨account | account, name⟩ := split
        · exact absurd ((hsingle name).mp hsplit).1 hnot
        · obtain ⟨haccount, hname, heq⟩ := (hpair account name).mp hsplit
          exact absurd heq (hnever account name haccount hname)

end Manifest.Slug
