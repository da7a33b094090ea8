import Manifest.Proofs.Outcome
import Manifest.Template
/-!
# The expressions of a template

What a template says apart from its text: the expressions in it
(`expressions`), and the text that it stands for once each of them has a
value (`fill`). A text without an opening delimiter is a template without
expressions that stands for itself, and a text never holds more expressions
than characters.
-/

namespace Manifest

theorem Delimiters.opening_default :
    ({} : Delimiters).opening.toList = ['$', '\x7b', '\x7b'] := String.toList_ofList

theorem Delimiters.closing_default : ({} : Delimiters).closing.toList = ['\x7d', '\x7d'] :=
  String.toList_ofList

namespace Template

/-! ## Segments -/

/-- The expressions among segments, in order. -/
def expressions : List Segment → List Expression
  | [] => []
  | .text _ :: rest => expressions rest
  | .expression e :: rest => e :: expressions rest

/-- The segments with each expression replaced by its value. -/
def fill (value : Expression → String) : List Segment → String
  | [] => ""
  | .text cs :: rest => String.ofList cs ++ fill value rest
  | .expression e :: rest => value e ++ fill value rest

/-- The expressions written in a text; a text that is no template has none. -/
def written (d : Delimiters) (text : String) : List Expression :=
  match read d text with
  | .ok segments => expressions segments
  | .error _ => []

@[simp] theorem expressions_addText (cs : List Char) (segments : List Segment) :
    expressions (addText cs segments) = expressions segments := by
  rcases segments with - | ⟨_ | _, rest⟩ <;> rfl

@[simp] theorem fill_addText (value : Expression → String) (cs : List Char)
    (segments : List Segment) :
    fill value (addText cs segments) = String.ofList cs ++ fill value segments := by
  rcases segments with - | ⟨more | e, rest⟩
  · rfl
  · simp only [addText, fill, String.ofList_append, String.append_assoc]
  · rfl

theorem fill_congr {f g : Expression → String} {segments : List Segment}
    (h : ∀ e ∈ expressions segments, f e = g e) : fill f segments = fill g segments := by
  induction segments with
  | nil => rfl
  | cons segment rest ih =>
      cases segment with
      | text cs => rw [fill, fill, ih h]
      | expression e =>
          rw [fill, fill, h e (List.mem_cons_self ..),
            ih fun e' he' => h e' (List.mem_cons_of_mem _ he')]

theorem written_of_read {d : Delimiters} {text : String} {segments : List Segment}
    (h : read d text = .ok segments) : written d text = expressions segments := by
  simp only [written, h]

theorem exists_read_of_mem_written {d : Delimiters} {text : String} {e : Expression}
    (he : e ∈ written d text) :
    ∃ segments, read d text = .ok segments ∧ e ∈ expressions segments := by
  cases hread : read d text with
  | error fault =>
      rw [written, hread] at he
      cases he
  | ok segments =>
      rw [written_of_read hread] at he
      exact ⟨segments, rfl, he⟩

/-! ## Texts without an opening delimiter -/

theorem breakOn?_cons_eq_none {needle cs : List Char} {c : Char}
    (h : Text.breakOn? needle (c :: cs) = none) :
    Text.dropStart? needle (c :: cs) = none ∧ Text.breakOn? needle cs = none := by
  simp only [Text.breakOn?] at h
  split at h
  · cases h
  · next hstart => exact ⟨hstart, by simpa using h⟩

/-- Where no opening delimiter follows, all that is left is text. -/
theorem segmentsFrom_of_unopened {d : Delimiters} {cs : List Char}
    (h : d.opening.isEmpty = true ∨ Text.breakOn? d.opening.toList cs = none)
    (offset : Nat) (last : Option Char) :
    ∃ segments, segmentsFrom d offset last cs = .ok segments ∧ expressions segments = []
      ∧ ∀ value, fill value segments = String.ofList cs := by
  induction cs generalizing offset last with
  | nil => exact ⟨[], by rw [segmentsFrom], rfl, fun _ => rfl⟩
  | cons c cs ih =>
      have hstart : d.afterOpening? (c :: cs) = none := by
        unfold Delimiters.afterOpening?
        rcases h with h | h
        · rw [if_pos h]
        · split
          · rfl
          · exact (breakOn?_cons_eq_none h).1
      obtain ⟨segments, hread, hnone, hfill⟩ :=
        ih (h.imp id fun h => (breakOn?_cons_eq_none h).2) (offset + c.utf8Size) (some c)
      refine ⟨addText [c] segments, ?_, by simpa using hnone, fun value => ?_⟩
      · rw [segmentsFrom]
        split
        · rw [hread]; rfl
        · next hsome => rw [hstart] at hsome; cases hsome
      · rw [fill_addText, hfill, ← String.ofList_append]; rfl

theorem read_of_unopened {d : Delimiters} {text : String} (h : d.opensIn text = false) :
    ∃ segments, read d text = .ok segments ∧ expressions segments = []
      ∧ ∀ value, fill value segments = text := by
  have hunopened :
      d.opening.isEmpty = true ∨ Text.breakOn? d.opening.toList text.toList = none := by
    rw [Delimiters.opensIn, Bool.and_eq_false_iff] at h
    simpa using h
  obtain ⟨segments, hread, hnone, hfill⟩ := segmentsFrom_of_unopened hunopened 0 none
  exact ⟨segments, hread, hnone, fun value => by rw [hfill, String.ofList_toList]⟩

/-! ## How many expressions there are -/

theorem expressions_length_le {d : Delimiters} {offset : Nat} {last : Option Char}
    {cs : List Char} {segments : List Segment}
    (h : segmentsFrom d offset last cs = .ok segments) :
    (expressions segments).length ≤ cs.length := by
  fun_induction segmentsFrom d offset last cs generalizing segments with
  | case1 => cases h; exact Nat.zero_le _
  | case2 offset last c rest _ ih =>
      obtain ⟨more, hmore, rfl⟩ := ok_of_map_eq_ok h
      simpa using Nat.le_succ_of_le (ih hmore)
  | case3 offset c rest body hopen opening =>
      rename_i ih
      obtain ⟨more, hmore, rfl⟩ := ok_of_map_eq_ok h
      simpa using Nat.le_of_lt
        (Nat.lt_of_le_of_lt (ih hmore) (Delimiters.afterOpening?_shorter hopen))
  | case4 => cases h
  | case5 => cases h
  | case6 offset last c rest body hopen _ inside after hclose path _ raw =>
      rename_i ih
      obtain ⟨more, hmore, rfl⟩ := ok_of_map_eq_ok h
      have hafter : after.length < (c :: rest).length :=
        Nat.lt_of_le_of_lt (Delimiters.closing?_not_longer hclose)
          (Delimiters.afterOpening?_shorter hopen)
      exact Nat.lt_of_le_of_lt (ih hmore) hafter

/-- An expression is written as its path between delimiters. -/
theorem exists_inside_of_mem_expressions {d : Delimiters} {offset : Nat} {last : Option Char}
    {cs : List Char} {segments : List Segment} {e : Expression}
    (h : segmentsFrom d offset last cs = .ok segments) (he : e ∈ expressions segments) :
    ∃ inside, e.raw = d.enclose inside ∧ ReferencePath.read? inside = some e.path := by
  fun_induction segmentsFrom d offset last cs generalizing segments with
  | case1 => cases h; cases he
  | case2 offset last c rest _ ih =>
      obtain ⟨more, hmore, rfl⟩ := ok_of_map_eq_ok h
      rw [expressions_addText] at he
      exact ih hmore he
  | case3 offset c rest body hopen opening =>
      rename_i ih
      obtain ⟨more, hmore, rfl⟩ := ok_of_map_eq_ok h
      rw [expressions_addText] at he
      exact ih hmore he
  | case4 => cases h
  | case5 => cases h
  | case6 offset last c rest body hopen hlast inside after hclose path hpath raw =>
      rename_i ih
      obtain ⟨more, hmore, rfl⟩ := ok_of_map_eq_ok h
      rcases List.mem_cons.mp he with rfl | he
      · exact ⟨inside, rfl, hpath⟩
      · exact ih hmore he

theorem written_length_le (d : Delimiters) (text : String) :
    (written d text).length ≤ text.length := by
  unfold written
  split
  · next segments hread =>
      rw [← String.length_toList]
      exact expressions_length_le hread
  · exact Nat.zero_le _

end Template

end Manifest
