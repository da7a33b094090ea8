import Manifest.Proofs.Context.Reach
import Manifest.Proofs.Interpolation.Frame
/-!
# Resolving a context

Resolving renders the texts of a context in which an expression opens, one
after the other, and puts each rendering in the place of its text
(`resolve_fst`). Expressions are looked up in the context as it was all along.
-/

namespace Manifest.Interpolation

variable {s : Scope} {before : List String} {path : List String} {text new : String}
variable {texts : List (List String × String)} {p : String → Rendering → Prop}

/-- The texts of the context in which an expression opens, with their paths. -/
def Scope.openTexts (s : Scope) : List (List String × String) :=
  s.context.texts.filter fun (_, text) => s.delimiters.opensIn text

/-- Texts at their paths, each rendered after those before it. -/
def Scope.renderedTexts (s : Scope) (before : List String) :
    List (List String × String) → List (List String × String)
  | [] => []
  | (path, text) :: rest =>
    (path, (s.renderAfter before text).text) :: s.renderedTexts (before ++ [text]) rest

theorem map_fst_renderedTexts : ∀ {texts : List (List String × String)} {before : List String},
    (s.renderedTexts before texts).map Prod.fst = texts.map Prod.fst
  | [], _ => rfl
  | (path, text) :: rest, before => by
      rw [Scope.renderedTexts, List.map_cons, List.map_cons, map_fst_renderedTexts]

/-- What holds of all texts and their renderings holds of each new text. -/
theorem exists_of_mem_renderedTexts (h : EachRendered s before (texts.map Prod.snd) p)
    (hmem : (path, new) ∈ s.renderedTexts before texts) :
    ∃ text r, (path, text) ∈ texts ∧ p text r ∧ r.text = new := by
  induction texts generalizing before with
  | nil => cases hmem
  | cons first rest ih =>
      obtain ⟨path', text⟩ := first
      have hsplit : EachRendered s before ([text] ++ rest.map Prod.snd) p := h
      obtain ⟨hfirst, hrest⟩ := eachRendered_append.mp hsplit
      rcases List.mem_cons.mp hmem with heq | hmem
      · obtain ⟨rfl, rfl⟩ := Prod.mk.inj heq
        exact ⟨text, _, List.mem_cons_self .., eachRendered_singleton.mp hfirst, rfl⟩
      · obtain ⟨other, r, hother, hp, hnew⟩ := ih hrest hmem
        exact ⟨other, r, List.mem_cons_of_mem _ hother, hp, hnew⟩

/-- A run over texts of a context, after others. -/
structure Resolved (s : Scope) (before : List String) (texts : List (List String × String))
    (c : Context) (run : (Context × List Diagnostic) × Memo) : Prop where
  context : run.1.1 = c.replaceTexts (s.renderedTexts before texts)
  faultless : run.1.2 = [] ↔
    EachRendered s before (texts.map Prod.snd) fun _ r => r.faults = []

theorem resolved_resolveTexts (s : Scope) (before : List String)
    (texts : List (List String × String)) (c : Context) :
    Resolved s before texts c ((s.resolveTexts c texts).run (s.memoAfter before)) := by
  induction texts generalizing before c with
  | nil => exact ⟨rfl, iff_of_true rfl eachRendered_nil⟩
  | cons first rest ih =>
      obtain ⟨path, text⟩ := first
      have hrest := ih (before ++ [text])
        (c.replace path (.string (s.renderAfter before text).text))
      rw [memoAfter_concat] at hrest
      refine ⟨hrest.context, ?_⟩
      show _ ↔ EachRendered s before ([text] ++ rest.map Prod.snd) fun _ r => r.faults = []
      rw [eachRendered_append, eachRendered_singleton, ← hrest.faultless]
      exact List.append_eq_nil_iff.trans (and_congr_left' List.map_eq_nil_iff)

theorem resolve_fst (s : Scope) :
    s.resolve.1 = s.context.replaceTexts (s.renderedTexts [] s.openTexts) :=
  (resolved_resolveTexts s [] s.openTexts s.context).context

theorem resolve_snd_eq_nil_iff : s.resolve.2 = [] ↔
    EachRendered s [] (s.openTexts.map Prod.snd) fun _ r => r.faults = [] :=
  (resolved_resolveTexts s [] s.openTexts s.context).faultless

/-! ## The resolved context -/

theorem mem_texts_of_mem_openTexts (h : (path, text) ∈ s.openTexts)
    (hdistinct : s.context.toJson.Distinct) : text ∈ s.context.toJson.texts := by
  have hmem := (List.mem_filter.mp h).1
  have hreach := (Context.mem_texts_iff hdistinct).mp hmem
  exact Json.mem_texts_of_lookup?
    (Context.lookup?_of_reach (Context.ne_nil_of_mem_texts hmem) hreach)

theorem leadToTexts_openTexts (hdistinct : s.context.toJson.Distinct) :
    s.context.LeadToTexts (s.openTexts.map Prod.fst) := by
  intro path hpath
  obtain ⟨⟨_, text⟩, hmem, rfl⟩ := List.mem_map.mp hpath
  have hmem := (List.mem_filter.mp hmem).1
  exact ⟨Context.ne_nil_of_mem_texts hmem, text, (Context.mem_texts_iff hdistinct).mp hmem⟩

/-- The same expressions in the resolved context. -/
def Scope.resolved (s : Scope) : Scope := { s with context := s.resolve.1 }

theorem lookup?_resolved_eq_none (hdistinct : s.context.toJson.Distinct) :
    s.resolved.context.lookup? path = none ↔ s.context.lookup? path = none := by
  show s.resolve.1.lookup? path = none ↔ _
  rw [resolve_fst]
  refine Context.lookup?_replaceTexts_eq_none ?_
  rw [map_fst_renderedTexts]
  exact leadToTexts_openTexts hdistinct

theorem distinct_resolved (hdistinct : s.context.toJson.Distinct) :
    s.resolved.context.toJson.Distinct := by
  show s.resolve.1.toJson.Distinct
  rw [resolve_fst]
  refine Context.distinct_replaceTexts hdistinct fun path hpath => ?_
  rw [map_fst_renderedTexts] at hpath
  exact (leadToTexts_openTexts hdistinct path hpath).1

theorem passesThrough_resolved (hdistinct : s.context.toJson.Distinct) (e : Template.Expression) :
    s.resolved.passesThrough e = s.passesThrough e := by
  have hnone : (s.resolved.context.lookup? (e.path.take 2)).isNone
      = (s.context.lookup? (e.path.take 2)).isNone := by
    rw [Bool.eq_iff_iff, Option.isNone_iff_eq_none, Option.isNone_iff_eq_none,
      lookup?_resolved_eq_none hdistinct]
  unfold Scope.passesThrough
  rw [hnone]
  rfl

/-- What is not rendered stays. -/
theorem reach_resolved_of_not_mem (hdistinct : s.context.toJson.Distinct)
    (hpath : path ∉ s.openTexts.map Prod.fst) {found : Json} (hfound : Context.IsLeaf found) :
    Context.reach s.resolved.context.toJson path = some found
      ↔ Context.reach s.context.toJson path = some found := by
  have hlead := leadToTexts_openTexts hdistinct
  rw [← map_fst_renderedTexts] at hlead hpath
  rw [show s.resolved.context = s.resolve.1 from rfl, resolve_fst]
  exact Context.reach_replaceTexts_of_not_mem hlead hpath hfound

/-- What is rendered gives way to its rendering. -/
theorem reach_resolved_of_mem (hdistinct : s.context.toJson.Distinct)
    (h : EachRendered s [] (s.openTexts.map Prod.snd) p)
    (hpath : path ∈ s.openTexts.map Prod.fst) :
    ∃ text r, Context.reach s.context.toJson path = some (.string text) ∧ p text r
      ∧ Context.reach s.resolved.context.toJson path = some (.string r.text) := by
  have hlead := leadToTexts_openTexts hdistinct
  rw [← map_fst_renderedTexts] at hlead hpath
  rw [show s.resolved.context = s.resolve.1 from rfl, resolve_fst]
  obtain ⟨new, hnew, hreach⟩ := Context.exists_of_mem_replaceTexts hlead hpath
  obtain ⟨text, r, hmem, hp, rfl⟩ := exists_of_mem_renderedTexts h hnew
  exact ⟨text, r, (Context.mem_texts_iff hdistinct).mp (List.mem_filter.mp hmem).1, hp, hreach⟩

theorem unopened_of_not_mem (hdistinct : s.context.toJson.Distinct)
    (hpath : path ∉ s.openTexts.map Prod.fst)
    (hreach : Context.reach s.context.toJson path = some (.string text)) :
    s.delimiters.opensIn text = false := by
  refine Bool.eq_false_iff.mpr fun hopens => hpath ?_
  have htext := (Context.mem_texts_iff hdistinct).mpr hreach
  exact List.mem_map.mpr ⟨(path, text), List.mem_filter.mpr ⟨htext, hopens⟩, rfl⟩

/-- Each text of the resolved context is one in which nothing opens, or a
rendering. -/
theorem mem_texts_resolved (hdistinct : s.context.toJson.Distinct)
    (h : EachRendered s [] (s.openTexts.map Prod.snd) p)
    (hmem : (path, new) ∈ s.resolved.context.texts) :
    s.delimiters.opensIn new = false ∨ ∃ text r, p text r ∧ r.text = new := by
  have hreach := (Context.mem_texts_iff (distinct_resolved hdistinct)).mp hmem
  by_cases hpath : path ∈ s.openTexts.map Prod.fst
  · obtain ⟨text, r, -, hp, hreach'⟩ := reach_resolved_of_mem hdistinct h hpath
    rw [hreach] at hreach'
    exact Or.inr ⟨text, r, hp, (Json.string.inj (Option.some.inj hreach')).symm⟩
  · rw [reach_resolved_of_not_mem hdistinct hpath (Context.isLeaf_string new)] at hreach
    exact Or.inl (unopened_of_not_mem hdistinct hpath hreach)

/-! ## Values in the resolved context -/

/-- Where paths are told apart, every text is replaced as the reference says. -/
theorem reach_resolved_text (hdistinct : s.context.toJson.Distinct)
    (hpaths : ToldApart (writtenPaths s.delimiters s.context.toJson
      ++ writtenPaths s.delimiters s.context.toJson))
    (hreach : Context.reach s.context.toJson path = some (.string text)) :
    Context.reach s.resolved.context.toJson path
      = some (.string (replaced s.value s.delimiters text)) := by
  have hrendered : EachRendered s [] (s.openTexts.map Prod.snd) fun text r =>
      r.text = replaced s.value s.delimiters text := by
    intro mid text after hsplit
    have htexts : mid ++ text :: after ⊆ s.context.toJson.texts := by
      intro other hother
      rw [← hsplit] at hother
      obtain ⟨⟨path, _⟩, hmem, rfl⟩ := List.mem_map.mp hother
      exact mem_texts_of_mem_openTexts hmem hdistinct
    obtain ⟨hmid, hrest⟩ := List.append_subset.mp htexts
    exact (renderAfter_eq_reference hpaths hmid (hrest (List.mem_cons_self ..))).1
  by_cases hpath : path ∈ s.openTexts.map Prod.fst
  · obtain ⟨other, r, hother, hr, hresolved⟩ := reach_resolved_of_mem hdistinct hrendered hpath
    rw [hreach] at hother
    obtain rfl := Json.string.inj (Option.some.inj hother)
    rw [hresolved, hr]
  · rw [replaced_of_unopened (unopened_of_not_mem hdistinct hpath hreach)]
    exact (reach_resolved_of_not_mem hdistinct hpath (Context.isLeaf_string text)).mpr hreach

theorem not_mem_openTexts (hdistinct : s.context.toJson.Distinct) {found : Json}
    (hreach : Context.reach s.context.toJson path = some found)
    (hfound : ∀ text, found ≠ .string text) : path ∉ s.openTexts.map Prod.fst := by
  intro hpath
  obtain ⟨-, text, htext⟩ := leadToTexts_openTexts hdistinct path hpath
  rw [hreach] at htext
  exact hfound text (Option.some.inj htext)

/-- An expression whose path goes through objects finds its value in the
resolved context, and there is nothing left to render. -/
theorem exists_reach_resolved (hdistinct : s.context.toJson.Distinct)
    (hpaths : ToldApart (writtenPaths s.delimiters s.context.toJson
      ++ writtenPaths s.delimiters s.context.toJson))
    {e : Template.Expression} {found : Json} {value : String} (hne : e.path ≠ [])
    (hreach : Context.reach s.context.toJson e.path = some found)
    (hvalue : s.value e = some value) :
    ∃ plain, Context.reach s.resolved.context.toJson e.path = some plain
      ∧ plainValue "" plain = .ok value ∧ (plain = found ∨ plain = .string value) := by
  have hfound := Context.lookup?_of_reach hne hreach
  cases found with
  | string text =>
      rw [value_of_text hfound] at hvalue
      split at hvalue
      · obtain rfl := Option.some.inj hvalue
        exact ⟨_, reach_resolved_text hdistinct hpaths hreach, rfl, Or.inr rfl⟩
      · cases hvalue
  | bool | int | float =>
      have hpath := not_mem_openTexts hdistinct hreach fun _ => Json.noConfusion
      rw [value_of_plain hfound rfl] at hvalue
      refine ⟨_, (reach_resolved_of_not_mem hdistinct hpath fun _ => Json.noConfusion).mpr hreach,
        ?_, Or.inl rfl⟩
      exact congrArg Except.ok (Option.some.inj hvalue)
  | null | array | object =>
      rw [value_of_plain hfound rfl] at hvalue
      cases hvalue

end Manifest.Interpolation
