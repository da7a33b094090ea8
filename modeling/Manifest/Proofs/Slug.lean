import Manifest.Slug.Reader
import Manifest.Proofs.Text.Split
/-!
# The grammar of slugs

What the parts of a slug look like, and which parts a kind uses, said without
the reader. A segment is made of words joined by single hyphens
(`IsSegment`), a tag is a word character and what may follow it (`IsTag`), and
a slug is well formed if it has exactly the parts of its kind, each in its own
form (`WellFormed`). The reader tests single parts for these forms, and none
of them holds a separator that a slug is cut at.
-/

namespace Manifest.Slug

/-! ## Forms -/

/-- A lower-case letter or a digit of ASCII. -/
def NameChar (c : Char) : Prop := ('a' ≤ c ∧ c ≤ 'z') ∨ ('0' ≤ c ∧ c ≤ '9')

/-- A letter or a digit of ASCII, or the underscore. -/
def WordChar (c : Char) : Prop := ('A' ≤ c ∧ c ≤ 'Z') ∨ NameChar c ∨ c = '_'

/-- One or more lower-case letters and digits. -/
def IsWord (word : List Char) : Prop := word ≠ [] ∧ ∀ c ∈ word, NameChar c

/-- Words joined by single hyphens, at most 32 characters in all. -/
structure IsSegment (text : String) : Prop where
  joined : ∃ words : List (List Char), words ≠ [] ∧ (∀ word ∈ words, IsWord word)
    ∧ text.toList = ['-'].intercalate words
  short : text.length ≤ 32

/-- A word character, then word characters, periods and hyphens, at most 128
characters in all. -/
structure IsTag (text : String) : Prop where
  started : ∃ first rest, text.toList = first :: rest ∧ WordChar first
    ∧ ∀ c ∈ rest, WordChar c ∨ c = '.' ∨ c = '-'
  short : text.length ≤ 128

theorem isLower_iff {c : Char} : c.isLower = true ↔ 'a' ≤ c ∧ c ≤ 'z' := by
  show (decide ('a' ≤ c) && decide (c ≤ 'z')) = true ↔ _
  rw [Bool.and_eq_true, decide_eq_true_iff, decide_eq_true_iff]

theorem isDigit_iff {c : Char} : c.isDigit = true ↔ '0' ≤ c ∧ c ≤ '9' := by
  show (decide ('0' ≤ c) && decide (c ≤ '9')) = true ↔ _
  rw [Bool.and_eq_true, decide_eq_true_iff, decide_eq_true_iff]

theorem isUpper_iff {c : Char} : c.isUpper = true ↔ 'A' ≤ c ∧ c ≤ 'Z' := decide_eq_true_iff

theorem isNameChar_iff {c : Char} : isNameChar c = true ↔ NameChar c := by
  rw [isNameChar, Bool.or_eq_true, isLower_iff, isDigit_iff, NameChar]

theorem isWordChar_iff {c : Char} : isWordChar c = true ↔ WordChar c := by
  show (((c.isUpper || c.isLower) || c.isDigit) || decide (c = '_')) = true ↔ _
  rw [Bool.or_eq_true, Bool.or_eq_true, Bool.or_eq_true, isUpper_iff, isLower_iff, isDigit_iff,
    decide_eq_true_iff, WordChar, NameChar]
  simp only [or_assoc]

theorem isNameWord_iff {word : List Char} : isNameWord word = true ↔ IsWord word := by
  rw [isNameWord, Bool.and_eq_true, List.all_eq_true, IsWord]
  exact and_congr (by simp) (forall₂_congr fun c _ => isNameChar_iff)

/-- No character of a name is one of the separators of a slug. -/
theorem not_nameChar {c : Char} (h : c ∈ ['-', '/', ':', '@']) : ¬ NameChar c := by
  have hall : ['-', '/', ':', '@'].all (fun c => !isNameChar c) = true := by decide
  have hnot : isNameChar c = false := by simpa using List.all_eq_true.mp hall c h
  rw [← isNameChar_iff, hnot]
  exact Bool.false_ne_true

theorem IsWord.not_mem {word : List Char} (h : IsWord word) {c : Char}
    (hc : c ∈ ['-', '/', ':', '@']) : c ∉ word :=
  fun hmem => not_nameChar hc (h.2 c hmem)

/-- A segment is cut into its words. -/
theorem splitOn_of_joined {cs : List Char} {words : List (List Char)} (hne : words ≠ [])
    (hwords : ∀ word ∈ words, IsWord word) (h : cs = ['-'].intercalate words) :
    Text.splitOn '-' cs = words :=
  Text.splitOn_eq_iff.mpr ⟨hne, fun word hword => (hwords word hword).not_mem (by simp), h⟩

theorem isNameText_iff {text : String} : isNameText text = true ↔ IsSegment text := by
  rw [isNameText, isName, Bool.and_eq_true, decide_eq_true_iff, List.all_eq_true, nameLimit,
    String.length_toList]
  constructor
  · rintro ⟨hshort, hwords⟩
    refine ⟨⟨Text.splitOn '-' text.toList, Text.splitOn_ne_nil '-' text.toList, ?_, ?_⟩, hshort⟩
    · exact fun word hword => isNameWord_iff.mp (hwords word hword)
    · exact (Text.intercalate_splitOn '-' text.toList).symm
  · rintro ⟨⟨words, hne, hwords, htext⟩, hshort⟩
    rw [splitOn_of_joined hne hwords htext]
    exact ⟨hshort, fun word hword => isNameWord_iff.mpr (hwords word hword)⟩

theorem isTagText_iff {text : String} : isTagText text = true ↔ IsTag text := by
  rw [isTagText]
  cases hchars : text.toList with
  | nil =>
      refine iff_of_false Bool.false_ne_true fun h => ?_
      obtain ⟨first, rest, hstarted, -⟩ := h.started
      rw [hchars] at hstarted
      cases hstarted
  | cons first rest =>
      have hlength : text.length = rest.length + 1 := by
        rw [← String.length_toList, hchars, List.length_cons]
      have hrest : rest.all (fun c => isWordChar c || c = '.' || c = '-') = true
          ↔ ∀ c ∈ rest, WordChar c ∨ c = '.' ∨ c = '-' := by
        simp [List.all_eq_true, isWordChar_iff, or_assoc]
      rw [isTag, Bool.and_eq_true, Bool.and_eq_true, hrest, isWordChar_iff, decide_eq_true_iff,
        tagLimit]
      constructor
      · rintro ⟨⟨hfirst, hrest⟩, hshort⟩
        exact ⟨⟨first, rest, hchars, hfirst, hrest⟩, by omega⟩
      · rintro ⟨⟨first', rest', hstarted, hfirst, hrest⟩, hshort⟩
        rw [hchars] at hstarted
        obtain ⟨rfl, rfl⟩ := List.cons.inj hstarted
        exact ⟨⟨hfirst, hrest⟩, by omega⟩

theorem IsSegment.ne_empty {text : String} (h : IsSegment text) : text ≠ "" := by
  rintro rfl
  have hname := isNameText_iff.mpr h
  exact absurd hname (by decide)

theorem IsTag.ne_empty {text : String} (h : IsTag text) : text ≠ "" := by
  rintro rfl
  have htag := isTagText_iff.mpr h
  exact absurd htag (by decide)

/-! ## Separators -/

/-- The separators between the parts of a slug are in no segment. -/
theorem IsSegment.not_mem {text : String} (h : IsSegment text) {c : Char}
    (hc : c ∈ ['/', ':', '@']) : c ∉ text.toList := by
  obtain ⟨words, hne, hwords, htext⟩ := h.joined
  have hpieces := splitOn_of_joined hne hwords htext
  intro hmem
  have hpiece : c = '-' ∨ ∃ piece ∈ Text.splitOn '-' text.toList, c ∈ piece :=
    Text.mem_piece_of_mem hmem
  rcases hpiece with rfl | ⟨word, hword, hmem⟩
  · exact absurd hc (by decide)
  · rw [hpieces] at hword
    exact (hwords word hword).not_mem (List.mem_cons_of_mem _ hc) hmem

theorem IsTag.not_mem {text : String} (h : IsTag text) {c : Char} (hc : c ∈ ['/', ':', '@']) :
    c ∉ text.toList := by
  have hall : ['/', ':', '@'].all (fun c => !isWordChar c && c != '.' && c != '-') = true := by
    decide
  have hword : isWordChar c = false ∧ c ≠ '.' ∧ c ≠ '-' := by
    simpa [and_assoc] using List.all_eq_true.mp hall c hc
  have hnot : ¬ WordChar c := by
    rw [← isWordChar_iff, hword.1]
    exact Bool.false_ne_true
  obtain ⟨first, rest, hstarted, hfirst, hrest⟩ := h.started
  rw [hstarted, List.mem_cons, not_or]
  refine ⟨fun heq => hnot (heq ▸ hfirst), fun hmem => ?_⟩
  rcases hrest c hmem with h | h | h
  · exact hnot h
  · exact hword.2.1 h
  · exact hword.2.2 h

/-! ## Well-formed slugs -/

/-- The slug has exactly the parts of its kind: names that are segments, and
a tag that is one. -/
inductive WellFormed : Slug → Prop
  | component {account component : String} (haccount : IsSegment account)
      (hcomponent : IsSegment component) : WellFormed (ofComponent account component)
  | componentVersion {account component tag : String} (haccount : IsSegment account)
      (hcomponent : IsSegment component) (htag : IsTag tag) :
      WellFormed (ofComponentVersion account component tag)
  | service {account component service : String} (haccount : IsSegment account)
      (hcomponent : IsSegment component) (hservice : IsSegment service) :
      WellFormed (ofService account component service)
  | serviceVersion {account component service tag : String} (haccount : IsSegment account)
      (hcomponent : IsSegment component) (hservice : IsSegment service) (htag : IsTag tag) :
      WellFormed (ofServiceVersion account component service tag)
  | environment {account environment : String} (haccount : IsSegment account)
      (henvironment : IsSegment environment) : WellFormed (ofEnvironment account environment)
  | serviceInstance {account component service tag place environment : String}
      (haccount : IsSegment account) (hcomponent : IsSegment component)
      (hservice : IsSegment service) (htag : IsTag tag) (hplace : IsSegment place)
      (henvironment : IsSegment environment) :
      WellFormed (ofServiceInstance (ofServiceVersion account component service tag)
        (ofEnvironment place environment))
  | interfaces {account component tag : String} (haccount : IsSegment account)
      (hcomponent : IsSegment component) (htag : IsTag tag) :
      WellFormed (ofInterfaces account component tag)
  | gateway : WellFormed gateway

/-- The kinds whose tag may be left out. -/
def versionKinds : List SlugKind := [.componentVersion, .serviceVersion, .serviceInstance]

/-- The text is the written form of the slug without its tag, which is the
default one and may be left out. -/
structure Abbreviates (text : String) (s : Slug) : Prop where
  kind : s.kind ∈ versionKinds
  tag : s.tag = some "latest"
  cut : ∃ before after, s.text = before ++ ":latest" ++ after ∧ text = before ++ after

end Manifest.Slug
