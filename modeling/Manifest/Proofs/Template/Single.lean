import Manifest.Proofs.ReferencePath.Grammar
import Manifest.Proofs.Template.Lossless
/-!
# Texts that are one expression

A text between the delimiters is one expression (`Single`) if it is written as a path and holds
no closing delimiter itself, also none that its end and the delimiter behind it make up
(`single_enclose_iff`). A key behind a target adds nothing to that: the expression for
`target.key` is one exactly if the target is written as a path and nothing closes in it, and
refers to that path with the key behind it (`single_concat_iff`).
-/

namespace Manifest

namespace Text

variable {needle front back cs : List Char}

/-- What occurs in a text occurs behind characters that it does not hold. -/
theorem infix_of_infix_append (hne : needle ≠ []) (hfront : ∀ c ∈ front, c ∉ needle)
    (h : needle <:+: front ++ cs) : needle <:+: cs := by
  induction front with
  | nil => exact h
  | cons c front ih =>
      obtain ⟨hc, hfront⟩ := List.forall_mem_cons.mp hfront
      rcases List.infix_cons_iff.mp h with hprefix | hwithin
      · obtain ⟨first, more, rfl⟩ := List.exists_cons_of_ne_nil hne
        obtain rfl := (List.cons_prefix_cons.mp hprefix).1
        exact absurd (List.mem_cons_self ..) hc
      · exact ih hfront hwithin

/-- What occurs in a text occurs between characters that it does not hold. -/
theorem infix_surrounded_iff (hne : needle ≠ []) (hfront : ∀ c ∈ front, c ∉ needle)
    (hback : ∀ c ∈ back, c ∉ needle) : needle <:+: front ++ cs ++ back ↔ needle <:+: cs := by
  constructor
  · intro h
    rw [List.append_assoc] at h
    have hrest := List.reverse_infix.mpr (infix_of_infix_append hne hfront h)
    rw [List.reverse_append] at hrest
    refine List.reverse_infix.mp (infix_of_infix_append ?_ ?_ hrest)
    · simpa using hne
    · simpa using hback
  · exact fun h => h.trans (List.infix_append front cs back)

end Text

namespace Delimiters

variable {d : Delimiters} {body : List Char}

/-- The closing delimiter behind a text is the first one, if there is none in the text and none
that begins at its end. -/
theorem closing?_append_closing (hwithin : ¬ d.closing.toList <:+: body)
    (hlast : ∀ c ∈ body.getLast?, c ∉ d.closing.toList) :
    d.closing? (body ++ d.closing.toList) = some (body, []) := by
  cases hclose : d.closing? (body ++ d.closing.toList) with
  | none =>
      exact absurd (List.suffix_append body d.closing.toList).isInfix
        (Text.not_infix_of_breakOn?_eq_none hclose)
  | some found =>
      obtain ⟨before, after⟩ := found
      have hsplit := Text.eq_append_of_breakOn? hclose
      rw [List.append_assoc] at hsplit
      rcases List.append_eq_append_iff.mp hsplit with ⟨more, hbefore, hclosing⟩ |
        ⟨more, hbody, hclosing⟩
      · -- it is not found any later
        have hlength := congrArg List.length hclosing
        simp only [List.length_append] at hlength
        obtain rfl : more = [] := List.length_eq_zero_iff.mp (by omega)
        obtain rfl : after = [] := List.length_eq_zero_iff.mp (by omega)
        rw [hbefore, List.append_nil]
      · -- nor any earlier: it would lie in the text, or hold its last character
        rcases List.append_eq_append_iff.mp hclosing with ⟨rest, hmore, -⟩ | ⟨rest, hcut, hafter⟩
        · refine absurd ?_ hwithin
          rw [hbody, hmore]
          exact ⟨before, rest, by simp only [List.append_assoc]⟩
        · rcases List.eq_nil_or_concat more with rfl | ⟨init, c, rfl⟩
          · obtain rfl : after = [] := by simpa using hclosing
            rw [hbody, List.append_nil]
          · rw [List.concat_eq_append] at hbody hcut
            have hc : c ∈ body.getLast? := by
              rw [hbody, ← List.append_assoc, List.getLast?_concat]
              exact rfl
            refine absurd ?_ (hlast c hc)
            rw [hcut]
            simp

end Delimiters

namespace Template

variable {path : List String} {body : List Char}

/-- The text is one expression and nothing else, and refers to the path. -/
def Single (text : String) (path : List String) : Prop :=
  ∃ e, read {} text = .ok [.expression e] ∧ e.path = path

theorem single_enclose_iff (hlast : ∀ c ∈ body.getLast?, c ∉ ({} : Delimiters).closing.toList) :
    Single (String.ofList (({} : Delimiters).enclose body)) path
      ↔ ¬ ({} : Delimiters).closing.toList <:+: body ∧ ReferencePath.read? body = some path := by
  have hclosing : ({} : Delimiters).closing.toList ≠ [] := by
    rw [Delimiters.closing_default]
    exact List.cons_ne_nil _ _
  have hopening : ({} : Delimiters).opening.toList ≠ [] := by
    rw [Delimiters.opening_default]
    exact List.cons_ne_nil _ _
  constructor
  · rintro ⟨e, hread, rfl⟩
    rw [read, String.toList_ofList] at hread
    have hexact := exact_of_segmentsFrom hclosing hread
    obtain ⟨inside, hraw, hwithin, hpath⟩ := hexact.enclosed e (List.mem_singleton_self _)
    have hsource : e.raw = ({} : Delimiters).enclose body := by
      simpa [source, Segment.source] using hexact.source
    rw [hsource, Delimiters.enclose] at hraw
    obtain rfl := List.append_cancel_left (List.append_cancel_right hraw)
    exact ⟨hwithin, hpath⟩
  · rintro ⟨hwithin, hpath⟩
    exact ⟨_, read_enclose hopening (Delimiters.closing?_append_closing hwithin hlast) hpath, rfl⟩

/-! ## Keys behind a target -/

open ReferencePath (IsBare Spelling)

variable {before after target : List Char} {key : String}

/-- No closing delimiter begins in a bare key or a blank. -/
theorem not_mem_closing {c : Char}
    (h : ReferencePath.isKeyChar c = true ∨ Text.isBlank c = true ∨ c = '.') :
    c ∉ ({} : Delimiters).closing.toList := by
  rw [Delimiters.closing_default]
  simp only [List.mem_cons, List.not_mem_nil, or_false, or_self]
  rintro rfl
  revert h
  decide

/-- The text is written as the path, and no closing delimiter interrupts it. -/
def Spells (target : List Char) (keys : List String) : Prop :=
  ¬ ({} : Delimiters).closing.toList <:+: target
    ∧ ∃ s : Spelling, s.Grammatical ∧ s.written = target ∧ keys = s.path

/-- An expression for a key behind a target is one for the path that the target is written as. -/
theorem single_concat_iff (hbefore : ∀ c ∈ before, Text.isBlank c = true)
    (hafter : ∀ c ∈ after, Text.isBlank c = true)
    (htarget : ∀ c ∈ target, Text.isBlank c = false) (hkey : IsBare key) :
    Single (String.ofList (({} : Delimiters).enclose
        (before ++ (target ++ '.' :: key.toList) ++ after))) path
      ↔ ∃ keys, Spells target keys ∧ path = keys ++ [key] := by
  have hfront : ∀ c ∈ before, c ∉ ({} : Delimiters).closing.toList :=
    fun c hc => not_mem_closing (.inr (.inl (hbefore c hc)))
  have hback : ∀ c ∈ '.' :: key.toList ++ after, c ∉ ({} : Delimiters).closing.toList := by
    rw [List.forall_mem_append, List.forall_mem_cons]
    exact ⟨⟨not_mem_closing (.inr (.inr rfl)), fun c hc => not_mem_closing (.inl (hkey.2 c hc))⟩,
      fun c hc => not_mem_closing (.inr (.inl (hafter c hc)))⟩
  have hne : ({} : Delimiters).closing.toList ≠ [] := by
    rw [Delimiters.closing_default]
    exact List.cons_ne_nil _ _
  have hsplit : before ++ (target ++ '.' :: key.toList) ++ after
      = before ++ target ++ ('.' :: key.toList ++ after) := by
    simp only [List.append_assoc]
  have hlast : ∀ c ∈ (before ++ (target ++ '.' :: key.toList) ++ after).getLast?,
      c ∉ ({} : Delimiters).closing.toList := by
    rw [hsplit, List.getLast?_append_of_ne_nil _ (by simp)]
    exact fun c hc => hback c (List.mem_of_mem_getLast? hc)
  rw [single_enclose_iff hlast, ReferencePath.read?_concat_iff hbefore hafter htarget hkey, hsplit,
    Text.infix_surrounded_iff hne hfront hback]
  constructor
  · rintro ⟨hwithin, s, hs, hwritten, rfl⟩
    exact ⟨s.path, ⟨hwithin, s, hs, hwritten, rfl⟩, rfl⟩
  · rintro ⟨keys, ⟨hwithin, s, hs, hwritten, rfl⟩, rfl⟩
    exact ⟨hwithin, s, hs, hwritten, rfl⟩

end Template

end Manifest
