import Manifest.Proofs.Interpolation.Frame
/-!
# What was rendered before

Values are remembered from one text to the next, by the written form of their
paths. A text is therefore rendered as by itself after any others, unless two
different paths have the same written form (`renderAfter_eq_alone`). A quoted
key may hold a dot, so that this happens: the first of two such paths that
leads somewhere then gives its value to the other.
-/

namespace Manifest.Interpolation

open Template (written)

variable {s : Scope} {earlier : List String} {text : String}

/-- The paths that are written in some texts and in the context. -/
def Scope.pathsWith (s : Scope) (texts : List String) : List (List String) :=
  writtenPaths s.delimiters (.array (texts.map .string))
    ++ writtenPaths s.delimiters s.context.toJson

theorem texts_map_string (texts : List String) :
    (Json.array (texts.map .string)).texts = texts := by
  show Json.itemTexts (texts.map .string) = texts
  induction texts with
  | nil => rfl
  | cons text rest ih =>
      rw [List.map_cons, Json.itemTexts, ih]
      rfl

/-- After texts with paths that are told apart, a text is rendered as the
reference says, and each of its expressions has the value of its own path. -/
theorem renderAfter_of_pathsWith {texts : List String} (hpaths : ToldApart (s.pathsWith texts))
    (hearlier : earlier ⊆ texts) (htext : text ∈ texts) :
    (s.renderAfter earlier text).text = replaced s.value s.delimiters text
      ∧ (s.renderAfter earlier text).faults.map Prod.fst = reported s.value s.delimiters text
      ∧ ∀ e ∈ written s.delimiters text,
        ((s.evaluate s.fuel [] e).run (s.memoAfter earlier)).1.toOption = s.value e := by
  rw [← texts_map_string texts] at hearlier htext
  obtain ⟨hreplaced, hreported⟩ := renderAfter_eq_reference hpaths hearlier htext
  have hfinds := finds_value hpaths htext
  exact ⟨hreplaced, hreported, fun e he => (hfinds e he _ (memoAfter_sound hpaths hearlier)).1⟩

/-- A text is rendered after others as by itself, as long as no two different
paths, of the texts or of the context, have the same written form: it becomes
the same text with the same failing expressions in it. Each of its expressions
has the value of its own path both times, and is reported if that is missing. -/
theorem renderAfter_eq_alone (s : Scope) (earlier : List String) (text : String)
    (hpaths : ToldApart (s.pathsWith (text :: earlier))) :
    (s.renderAfter earlier text).text = (s.renderAfter [] text).text
      ∧ (s.renderAfter earlier text).faults.map Prod.fst
        = (s.renderAfter [] text).faults.map Prod.fst
      ∧ (∀ e ∈ written s.delimiters text,
        ((s.evaluate s.fuel [] e).run (s.memoAfter earlier)).1.toOption = s.value e
          ∧ ((s.evaluate s.fuel [] e).run []).1.toOption = s.value e)
      ∧ ∀ e ∈ written s.delimiters text, s.context.lookup? e.path = none →
        s.passesThrough e = false →
          String.ofList e.raw ∈ (s.renderAfter earlier text).faults.map Prod.fst := by
  have htext : text ∈ text :: earlier := List.mem_cons_self ..
  obtain ⟨hafterText, hafterFaults, hafterValues⟩ :=
    renderAfter_of_pathsWith hpaths (List.subset_cons_self ..) htext
  obtain ⟨haloneText, haloneFaults, haloneValues⟩ :=
    renderAfter_of_pathsWith hpaths (List.nil_subset _) htext
  refine ⟨hafterText.trans haloneText.symm, hafterFaults.trans haloneFaults.symm, ?_, ?_⟩
  · intro e he
    exact ⟨hafterValues e he, haloneValues e he⟩
  · intro e he hmissing hpass
    rw [hafterFaults]
    exact mem_reported he (value_eq_none_iff.mpr (.missing hmissing hpass))

/-- A parameter with a dot in its name. -/
def dottedScope : Scope where
  context := ⟨[("parameters", .object [("a.b", .string "x"), ("c", .string "y")])]⟩

def quotedText : String := "$\x7b\x7b parameters['a.b'] \x7d\x7d"

/-- One of the parameters is missing. -/
def mixedText : String := "$\x7b\x7b parameters.a \x7d\x7d $\x7b\x7b parameters.c \x7d\x7d"

theorem renderAfter_mixedText :
    ToldApart (dottedScope.pathsWith [mixedText, quotedText])
      ∧ (dottedScope.renderAfter [quotedText] mixedText).text
        = (dottedScope.renderAfter [] mixedText).text
      ∧ (dottedScope.renderAfter [quotedText] mixedText).faults.map Prod.fst
        = ["$\x7b\x7b parameters.a \x7d\x7d"] := by
  have hpaths : ToldApart (dottedScope.pathsWith [mixedText, quotedText]) := by decide +kernel
  obtain ⟨htext, hfaults, -⟩ := renderAfter_eq_alone dottedScope [quotedText] mixedText hpaths
  have halone : (dottedScope.renderAfter [] mixedText).faults.map Prod.fst
      = ["$\x7b\x7b parameters.a \x7d\x7d"] := by decide +kernel
  exact ⟨hpaths, htext, hfaults.trans halone⟩

/-- A missing path that is written like a quoted key takes the value of that,
and is not reported, where by itself it is. -/
theorem renderAfter_quotedText :
    (dottedScope.renderAfter [quotedText] "$\x7b\x7b parameters.a.b \x7d\x7d").text = "x"
      ∧ (dottedScope.renderAfter [quotedText] "$\x7b\x7b parameters.a.b \x7d\x7d").faults = []
      ∧ (dottedScope.renderAfter [] "$\x7b\x7b parameters.a.b \x7d\x7d").text
        = "$\x7b\x7b parameters.a.b \x7d\x7d"
      ∧ (dottedScope.renderAfter [] "$\x7b\x7b parameters.a.b \x7d\x7d").faults
        = [("$\x7b\x7b parameters.a.b \x7d\x7d", .missing "parameters.a.b")] := by
  decide +kernel

end Manifest.Interpolation
