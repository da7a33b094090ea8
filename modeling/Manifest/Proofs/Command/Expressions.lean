import Manifest.Proofs.Command.Quoting
import Manifest.Proofs.Command.Unquoted
import Manifest.Proofs.Template.Held
/-!
# Expressions in words

A line is read twice: first its words are split, where each opening delimiter begins an
expression, and then each word is read as a template, where one behind a dollar is escaped.
The template that the whole line is holds the same expressions as its words do, in the same
order (`expressions_words`). What is written as an expression is put into a word as it is,
with what the line has in front of it there, and neither plain characters nor variables
open or escape anything, with their braces or without.

Words are read as templates from their beginning, but the first one goes on with what has
been read of it: of that only whether it ends in a dollar matters.
-/

namespace Manifest.Command

open Template (Expression Holds)

variable {d : Dialect} {declared : List String} {last : Option Char} {c : Char}
variable {n w line first more rest : List Char} {others ws : List (List Char)}
variable {es : List Expression}

/-! ## Where nothing opens -/

theorem opensAtDollar_default (cs : List Char) : ({} : Delimiters).OpensAtDollar cs :=
  fun _ _ _ hne => afterOpening?_of_ne_dollar hne

/-- A dollar opens an expression in front of two braces. -/
theorem afterOpening?_dollar_eq_some_iff {cs body : List Char} :
    ({} : Delimiters).afterOpening? ('$' :: cs) = some body ↔ cs = ['{', '{'] ++ body := by
  constructor
  · intro h
    have hsplit := Delimiters.eq_append_of_afterOpening? h
    rw [Delimiters.opening_default] at hsplit
    exact (List.cons.inj hsplit).2
  · rintro rfl
    have hopen := Template.afterOpening?_opening_default body
    rw [Delimiters.opening_default] at hopen
    exact hopen

/-- A dollar that opens nothing in a line does not in its words. -/
theorem Spelled.unopened (h : Spelled d line first others)
    (hopen : ({} : Delimiters).afterOpening? ('$' :: line) = none) :
    ({} : Delimiters).afterOpening? ('$' :: first) = none := by
  by_contra hsome
  obtain ⟨body, hbody⟩ := Option.ne_none_iff_exists'.mp hsome
  rw [afterOpening?_dollar_eq_some_iff.mp hbody] at h
  obtain ⟨rest, rfl, -⟩ := h.of_append (by simp)
  rw [afterOpening?_dollar_eq_some_iff.mpr rfl] at hopen
  cases hopen

/-- A variable opens nothing, whatever stands behind it. -/
theorem Refers.unopened (h : Refers n w rest) (hname : IsName n) (more : List Char) :
    ({} : Delimiters).afterOpening? ('$' :: (w ++ more)) = none := by
  by_contra hsome
  obtain ⟨body, hbody⟩ := Option.ne_none_iff_exists'.mp hsome
  have hsplit := afterOpening?_dollar_eq_some_iff.mp hbody
  obtain ⟨c, n', rfl, hstart⟩ := hname.exists_cons
  have hbrace : c = '{' := by
    cases h with
    | braced => exact (List.cons.inj (List.cons.inj hsplit).2).1
    | bare => exact (List.cons.inj hsplit).1
  rw [hbrace] at hstart
  exact absurd hstart (by decide)

theorem holds_append_of_ne_dollar : ∀ {w : List Char} {last : Option Char}, '$' ∉ w →
    last ≠ some '$' → (Holds {} last (w ++ rest) es ↔ Holds {} none rest es)
  | [], _, _, hlast => Template.holds_of_last_ne hlast
  | c :: w, _, hdollar, _ => by
      rw [List.mem_cons, not_or] at hdollar
      rw [List.cons_append,
        Template.holds_cons_iff (afterOpening?_of_ne_dollar (Ne.symm hdollar.1)),
        holds_append_of_ne_dollar hdollar.2 fun hlast => hdollar.1 (Option.some.inj hlast).symm]

/-- A variable holds no expression, and escapes none. -/
theorem Refers.holds_iff (h : Refers n w rest) (hname : IsName n) :
    Holds {} last ('$' :: (w ++ more)) es ↔ Holds {} none more es := by
  rw [Template.holds_cons_iff (h.unopened hname more)]
  have hdollar := h.not_mem_dollar hname
  obtain ⟨c, w', rfl⟩ := List.exists_cons_of_ne_nil (h.ne_nil hname)
  rw [List.mem_cons, not_or] at hdollar
  rw [List.cons_append, Template.holds_cons_iff (afterOpening?_of_ne_dollar (Ne.symm hdollar.1)),
    holds_append_of_ne_dollar hdollar.2 fun hlast => hdollar.1 (Option.some.inj hlast).symm]

theorem exists_refers_shown (declared : List String) (h : Refers n w rest) :
    ∃ rest, Refers n (shown declared n w) rest := by
  unfold shown
  split
  · exact ⟨[], .bare fun _ hc => nomatch hc⟩
  · exact ⟨rest, h⟩

/-! ## What the words hold -/

/-- Each of the words is a template by itself, and these are their expressions together. -/
def Hold (words : List (List Char)) (es : List Expression) : Prop :=
  ∃ found, List.Forall₂ (Holds {} none) words found ∧ found.flatten = es

theorem hold_cons_iff : Hold (w :: ws) es
    ↔ ∃ front back, Holds {} none w front ∧ Hold ws back ∧ es = front ++ back := by
  constructor
  · rintro ⟨_, hwords, rfl⟩
    cases hwords with
    | cons hw hws => exact ⟨_, _, hw, ⟨_, hws, rfl⟩, List.flatten_cons⟩
  · rintro ⟨front, _, hw, ⟨found, hws, rfl⟩, rfl⟩
    exact ⟨front :: found, .cons hw hws, List.flatten_cons⟩

theorem Begins.hold {front back : List Expression} (h : Begins first others none ws)
    (hfirst : Holds {} none first front) (hothers : Hold others back) :
    Hold ws (front ++ back) := by
  cases h with
  | word => exact hold_cons_iff.mpr ⟨front, back, hfirst, hothers, rfl⟩
  | blank hempty =>
      rw [hempty, Template.holds_nil_iff] at hfirst
      rwa [hfirst]

/-- A line that is a template holds what its words hold. -/
theorem Spelled.holds (h : Spelled ⟨{}, declared⟩ line first others)
    (hline : Holds {} last line es) :
    ∃ front back, Holds {} last first front ∧ Hold others back ∧ es = front ++ back := by
  induction h generalizing last es with
  | nil => exact ⟨es, [], hline, ⟨[], .nil, rfl⟩, (List.append_nil es).symm⟩
  | blank hblank h hwords ih =>
      have hdollar := ne_dollar_of_isBlank hblank
      rw [Template.holds_cons_iff (afterOpening?_of_ne_dollar hdollar),
        Template.holds_of_last_ne fun hlast => hdollar (Option.some.inj hlast)] at hline
      obtain ⟨front, back, hfirst, hothers, rfl⟩ := ih hline
      exact ⟨[], _, Template.holds_nil_iff.mpr rfl, hwords.hold hfirst hothers, rfl⟩
  | plain hblank hdollar h ih =>
      have hopen : ∀ cs, ({} : Delimiters).afterOpening? (_ :: cs) = none :=
        fun cs => afterOpening?_of_ne_dollar hdollar
      rw [Template.holds_cons_iff (hopen _)] at hline
      obtain ⟨front, back, hfirst, hothers, rfl⟩ := ih hline
      exact ⟨front, back, (Template.holds_cons_iff (hopen _)).mpr hfirst, hothers, rfl⟩
  | dollar hopen hnone h ih =>
      rw [Template.holds_cons_iff hopen] at hline
      obtain ⟨front, back, hfirst, hothers, rfl⟩ := ih hline
      exact ⟨front, back, (Template.holds_cons_iff (h.unopened hopen)).mpr hfirst, hothers, rfl⟩
  | reference hopen hfound h ih =>
      obtain ⟨hname, after, hrefers, -⟩ := reference?_eq_some_iff.mp hfound
      obtain ⟨after', hshown⟩ := exists_refers_shown declared hrefers
      rw [hrefers.holds_iff hname] at hline
      obtain ⟨front, back, hfirst, hothers, rfl⟩ := ih hline
      exact ⟨front, back, (hshown.holds_iff hname).mpr hfirst, hothers, rfl⟩
  | expression hopen hclose h ih =>
      -- behind a dollar it is escaped, but it is cut off in line and word alike
      rw [← Delimiters.enclose_append hopen hclose, Template.holds_enclose_append_iff] at hline
      obtain ⟨front, back, henclosed, hrest, rfl⟩ := hline
      obtain ⟨front', back', hfirst, hothers, rfl⟩ := ih hrest
      refine ⟨front ++ front', back', ?_, hothers, (List.append_assoc ..).symm⟩
      exact (Template.holds_enclose_append_iff ..).mpr ⟨front, front', henclosed, hfirst, rfl⟩

theorem Hold.written (h : Hold ws es) :
    (∀ arg ∈ ws.map String.ofList, ∃ segments, Template.read {} arg = .ok segments)
      ∧ (ws.map String.ofList).flatMap (Template.written {}) = es := by
  induction ws generalizing es with
  | nil =>
      obtain ⟨_, hwords, rfl⟩ := h
      cases hwords
      exact ⟨fun arg harg => absurd harg List.not_mem_nil, rfl⟩
  | cons w ws ih =>
      obtain ⟨front, back, ⟨segments, hread, rfl⟩, hothers, rfl⟩ := hold_cons_iff.mp h
      obtain ⟨hreads, hwritten⟩ := ih hothers
      have hword : Template.read {} (String.ofList w) = .ok segments := by
        rw [Template.read, String.toList_ofList, hread]
      rw [List.map_cons, List.forall_mem_cons, List.flatMap_cons, hwritten,
        Template.written_of_read hword]
      exact ⟨⟨⟨segments, hword⟩, hreads⟩, rfl⟩

/-- Where quotes and backslashes stand only inside of expressions, the words of a line
that is a template are templates, and hold the expressions of the line in their order. -/
theorem expressions_words {line : String} {args : List String} {segments : List Template.Segment}
    (hquotes : (({} : Delimiters).outside line.toList).any isQuoting = false)
    (hwords : words ⟨{}, declared⟩ line = .ok args) (hread : Template.read {} line = .ok segments) :
    (∀ arg ∈ args, ∃ found, Template.read {} arg = .ok found)
      ∧ args.flatMap (Template.written {}) = Template.expressions segments := by
  obtain ⟨ws, hws, rfl⟩ := words_eq_ok_iff.mp hwords
  rcases spells_or_unclosed (d := ⟨{}, declared⟩) line.toList (opensAtDollar_default _) hquotes with
    ⟨first, others, hspelled, hwords⟩ | ⟨-, hfails⟩
  · obtain ⟨found, hfound, hbegins⟩ := hwords none
    obtain rfl := Except.ok.inj (hfound.symm.trans hws)
    obtain ⟨front, back, hfirst, hothers, hes⟩ := hspelled.holds ⟨segments, hread, rfl⟩
    rw [hes]
    exact (hbegins.hold hfirst hothers).written
  · obtain ⟨unfinished, herror⟩ := hfails none
    rw [hws] at herror
    cases herror

/-- A variable with an expression behind it, and one that is escaped. -/
def mixedLine : String := "$\x7bA\x7d$\x7b\x7bp['x y']\x7d\x7d $$\x7b\x7bq\x7d\x7d"

def mixedWords : List String := ["$A$\x7b\x7bp['x y']\x7d\x7d", "$$\x7b\x7bq\x7d\x7d"]

/-- The expression keeps its quotes and blanks, and the escaped one is none. -/
theorem expressions_mixed :
    (({} : Delimiters).outside mixedLine.toList).any isQuoting = false
      ∧ words ⟨{}, ["A"]⟩ mixedLine = .ok mixedWords
      ∧ (∀ arg ∈ mixedWords, ∃ found, Template.read {} arg = .ok found)
      ∧ mixedWords.flatMap (Template.written {})
          = [⟨"$\x7b\x7bp['x y']\x7d\x7d".toList, ["p", "x y"]⟩] := by
  have hquotes : (({} : Delimiters).outside mixedLine.toList).any isQuoting = false := by
    decide +kernel
  have hwords : words ⟨{}, ["A"]⟩ mixedLine = .ok mixedWords := by decide +kernel
  have hread : (Template.read {} mixedLine).map Template.expressions
      = .ok [⟨"$\x7b\x7bp['x y']\x7d\x7d".toList, ["p", "x y"]⟩] := by decide +kernel
  obtain ⟨segments, hsegments, hes⟩ := ok_of_map_eq_ok hread
  obtain ⟨hreads, hwritten⟩ := expressions_words hquotes hwords hsegments
  exact ⟨hquotes, hwords, hreads, hwritten.trans hes⟩

end Manifest.Command
