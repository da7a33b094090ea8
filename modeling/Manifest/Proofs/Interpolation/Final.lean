import Manifest.Proofs.Interpolation.Resolving
import Manifest.Proofs.Template.Spliced
/-!
# Resolved contexts are final

A text is final if it is a template and all its expressions stay as they are
(`Scope.Final`): then rendering changes nothing. Resolving a context makes all
its texts final, as long as values and the literals between them cannot make
up an opening delimiter where they meet (`Seamless`). What is remembered is
final too, and ends clear, so that it can be put into any text
(`evaluate_final`).
-/

namespace Manifest.Interpolation

open Template (Expression Segment expressions written fill HoldsOnly Seams Spaced)

variable {s : Scope} {text : String} {e : Expression} {memo : Memo}

/-! ## Final texts -/

/-- The path of the expression is missing and may be. -/
structure Scope.Stays (s : Scope) (e : Expression) : Prop where
  missing : s.context.lookup? e.path = none
  passes : s.passesThrough e = true

/-- The text is a template, and all its expressions stay as they are. -/
def Scope.Final (s : Scope) (text : String) : Prop := HoldsOnly s.delimiters s.Stays text

/-- A final text is rendered as itself, and nothing is remembered. -/
theorem render_of_final (h : s.Final text) : (s.render text).run [] = (⟨text, []⟩, []) := by
  obtain ⟨segments, hread, hstays⟩ := h
  have hfinds : Finds (· = []) (fun e => some (String.ofList e.raw)) (s.evaluate s.fuel [])
      (written s.delimiters text) := by
    rintro e he memo rfl
    rw [Template.written_of_read hread] at he
    obtain ⟨hmissing, hpass⟩ := hstays e he
    rw [Scope.fuel, evaluate_missing rfl List.not_mem_nil hmissing, if_pos hpass]
    exact ⟨rfl, rfl⟩
  obtain ⟨htext, hfaults, hmemo⟩ := renderWith_run hfinds rfl
  have hself : replaced (fun e => some (String.ofList e.raw)) s.delimiters text = text := by
    simp only [replaced, hread, Option.getD_some]
    rw [Template.fill_raw hread, String.ofList_toList]
  have hnone : reported (fun e => some (String.ofList e.raw)) s.delimiters text = [] := by
    simp [reported, hread]
  rw [hself] at htext
  rw [hnone, List.map_eq_nil_iff] at hfaults
  exact Prod.ext (congrArg₂ Rendering.mk htext hfaults) hmemo

/-! ## Where values meet other text -/

/-- Wherever a value is put into a text of the context, what stands in front of
a seam ends clear, so that no opening delimiter can come about. -/
structure Seamless (s : Scope) : Prop where
  closing : s.delimiters.ClosesClear
  literals : ∀ text ∈ s.context.toJson.texts, Spaced s.delimiters text
  values : ∀ path ∈ writtenPaths s.delimiters s.context.toJson,
    ∀ value ∈ s.context.lookup? path, ∀ text ∈ (plainValue "" value).toOption,
      s.delimiters.EndsClear text.toList
  /-- Numbers and truth values are no templates. -/
  scalars : ∀ path ∈ writtenPaths s.delimiters s.context.toJson,
    ∀ value ∈ s.context.lookup? path, ∀ text ∈ plainText? value, s.delimiters.opensIn text = false

instance (s : Scope) : Decidable (Seamless s) :=
  decidable_of_iff (s.delimiters.ClosesClear
      ∧ (∀ text ∈ s.context.toJson.texts, Spaced s.delimiters text)
      ∧ (∀ path ∈ writtenPaths s.delimiters s.context.toJson,
        ∀ value ∈ s.context.lookup? path, ∀ text ∈ (plainValue "" value).toOption,
          s.delimiters.EndsClear text.toList)
      ∧ ∀ path ∈ writtenPaths s.delimiters s.context.toJson,
        ∀ value ∈ s.context.lookup? path, ∀ text ∈ plainText? value,
          s.delimiters.opensIn text = false)
    ⟨fun ⟨closing, literals, values, scalars⟩ => ⟨closing, literals, values, scalars⟩,
      fun h => ⟨h.closing, h.literals, h.values, h.scalars⟩⟩

/-- A final text that ends clear, to be put into another one. -/
structure Scope.Spliceable (s : Scope) (text : String) : Prop where
  final : s.Final text
  clear : s.delimiters.EndsClear text.toList

/-- All values that are remembered may be put into another text. -/
def SpliceableMemo (s : Scope) (memo : Memo) : Prop :=
  ∀ name text, memo.lookup name = some (.ok text) → s.Spliceable text

theorem SpliceableMemo.nil (s : Scope) : SpliceableMemo s [] := by
  intro name text h
  cases h

theorem SpliceableMemo.cons {name : String} {outcome : Except Fault String}
    (h : SpliceableMemo s memo) (houtcome : ∀ text, outcome = .ok text → s.Spliceable text) :
    SpliceableMemo s ((name, outcome) :: memo) := by
  intro other text hknown
  rw [List.lookup_cons] at hknown
  split at hknown
  · exact houtcome text (Option.some.inj hknown)
  · exact h other text hknown

/-- An outcome and the memo after it, all of whose values may be put into
another text. -/
structure Splices (s : Scope) (run : Except Fault String × Memo) : Prop where
  outcome : ∀ text, run.1 = .ok text → s.Spliceable text
  memo : SpliceableMemo s run.2

theorem Splices.error (fault : Fault) (hmemo : SpliceableMemo s memo) :
    Splices s (.error fault, memo) where
  outcome _ h := nomatch h
  memo := hmemo

/-- An outcome may be remembered if its value may be put into another text. -/
theorem Splices.remember {name : String} {outcome : Except Fault String}
    (houtcome : ∀ text, outcome = .ok text → s.Spliceable text) (hmemo : SpliceableMemo s memo) :
    Splices s (outcome, (name, outcome) :: memo) where
  outcome := houtcome
  memo := hmemo.cons houtcome

/-! ## Rendering -/

/-- A rendering without faults is final, and ends clear if its source does. -/
structure Settles (s : Scope) (source : String) (run : Rendering × Memo) : Prop where
  final : run.1.faults = [] → s.Final run.1.text
  clear : run.1.faults = [] → s.delimiters.EndsClear source.toList →
    s.delimiters.EndsClear run.1.text.toList
  memo : SpliceableMemo s run.2

theorem Settles.of_fault {source : String} {r : Rendering} (hfaults : r.faults ≠ [])
    (hmemo : SpliceableMemo s memo) : Settles s source (r, memo) where
  final h := absurd h hfaults
  clear h := absurd h hfaults
  memo := hmemo

/-- A piece may be put in front of a rendering, whatever it stands for. -/
theorem Settles.prepend {raw piece source : String} {run : Rendering × Memo}
    (hpiece : s.Spliceable piece) (hrun : Settles s source run) :
    Settles s (raw ++ source) (⟨piece ++ run.1.text, run.1.faults⟩, run.2) where
  final hfaults := hpiece.final.append hpiece.clear (hrun.final hfaults)
  clear hfaults hsource := by
    rw [String.toList_append] at hsource ⊢
    exact hpiece.clear.append (hrun.clear hfaults hsource.of_append)
  memo := hrun.memo

theorem renderSegments_final {evaluate : Evaluate} {segments : List Segment}
    (h : ∀ e ∈ expressions segments, ∀ memo, SpliceableMemo s memo →
      Splices s ((evaluate e).run memo))
    (hseams : Seams s.delimiters segments)
    (hliterals : ∀ cs, .text cs ∈ segments → s.Final (String.ofList cs))
    (hmemo : SpliceableMemo s memo) :
    Settles s (fill (fun e => String.ofList e.raw) segments)
      ((renderSegments evaluate segments).run memo) := by
  induction segments generalizing memo with
  | nil =>
      exact ⟨fun _ => Template.holdsOnly_empty s.delimiters s.Stays, fun _ h => h, hmemo⟩
  | cons segment rest ih =>
      have hliterals' : ∀ cs, .text cs ∈ rest → s.Final (String.ofList cs) :=
        fun cs hcs => hliterals cs (List.mem_cons_of_mem _ hcs)
      cases segment with
      | text cs =>
          have hcs := hliterals cs (List.mem_cons_self ..)
          have hrest := ih h hseams.2 hliterals' hmemo
          rw [renderSegments_text, fill]
          cases rest with
          | nil =>
              show Settles s (String.ofList cs ++ "") (⟨String.ofList cs ++ "", []⟩, memo)
              rw [String.append_empty]
              exact ⟨fun _ => hcs, fun _ h => h, hmemo⟩
          | cons next rest =>
              have hclear : s.delimiters.EndsClear (String.ofList cs).toList := by
                rw [String.toList_ofList]
                exact hseams.1 (List.cons_ne_nil next rest)
              exact hrest.prepend ⟨hcs, hclear⟩
      | expression e =>
          have he := h e (List.mem_cons_self ..) memo hmemo
          have hrest := ih (fun e' he' => h e' (List.mem_cons_of_mem _ he')) hseams hliterals' he.memo
          rw [renderSegments_expression, fill]
          cases houtcome : ((evaluate e).run memo).1 with
          | error fault =>
              simp only [houtcome, Rendering.after]
              exact .of_fault (List.cons_ne_nil _ _) hrest.memo
          | ok value =>
              simp only [houtcome, Rendering.after]
              exact hrest.prepend (he.outcome value houtcome)

theorem renderWith_final (hs : Seamless s) {evaluate : Evaluate}
    (htext : text ∈ s.context.toJson.texts)
    (h : ∀ e ∈ written s.delimiters text, ∀ memo, SpliceableMemo s memo →
      Splices s ((evaluate e).run memo))
    (hmemo : SpliceableMemo s memo) :
    Settles s text ((renderWith evaluate s.delimiters text).run memo) := by
  unfold renderWith
  cases hread : Template.read s.delimiters text with
  | error fault => exact .of_fault (List.cons_ne_nil _ _) hmemo
  | ok segments =>
      rw [Template.written_of_read hread] at h
      have hrun := renderSegments_final h ((hs.literals text htext).seams hread)
        (fun cs hcs => Template.holdsOnly_literal hs.closing hread hcs) hmemo
      rwa [Template.fill_raw hread, String.ofList_toList] at hrun

/-! ## Evaluating -/

theorem eq_text_of_settle {path value : String} {r : Rendering} (h : r.settle path = .ok value) :
    r.faults = [] ∧ r.text = value := by
  rcases r with ⟨text, _ | ⟨⟨raw, fault⟩, rest⟩⟩
  · exact ⟨rfl, Except.ok.inj h⟩
  · cases h

theorem toOption_plainValue (path other : String) (value : Json) :
    (plainValue path value).toOption = (plainValue other value).toOption := by
  cases value <;> rfl

/-- Nothing opens in a value that is not to be rendered. -/
theorem unopened_of_plainValue {path : String} {value : Json} (htemplate : s.template? value = none)
    (hscalar : ∀ text ∈ plainText? value, s.delimiters.opensIn text = false)
    (h : plainValue path value = .ok text) : s.delimiters.opensIn text = false := by
  cases value with
  | string own =>
      obtain rfl := Except.ok.inj h
      simpa [Scope.template?] using htemplate
  | bool | int | float =>
      obtain rfl := Except.ok.inj h
      exact hscalar _ rfl
  | null | array | object => cases h

/-- An expression that stays may be put into another text as it is written. -/
theorem spliceable_raw (hs : Seamless s) (he : e ∈ written s.delimiters text) (hstays : s.Stays e) :
    s.Spliceable (String.ofList e.raw) := by
  obtain ⟨segments, hread, he⟩ := Template.exists_read_of_mem_written he
  obtain ⟨inside, hraw, -⟩ := Template.exists_inside_of_mem_expressions hread he
  refine ⟨Template.holdsOnly_expression hread he hstays, ?_⟩
  rw [String.toList_ofList, hraw]
  exact hs.closing.enclose inside

/-- So may what its path leads to, if that is not to be rendered. -/
theorem spliceable_plain (hs : Seamless s) {path : List String} {name : String} {value : Json}
    (hpath : path ∈ writtenPaths s.delimiters s.context.toJson)
    (hfound : s.context.lookup? path = some value) (htemplate : s.template? value = none)
    (hplain : plainValue name value = .ok text) : s.Spliceable text where
  final := Template.holdsOnly_of_unopened
    (unopened_of_plainValue htemplate (hs.scalars path hpath value hfound) hplain)
  clear := by
    refine hs.values path hpath value hfound text ?_
    rw [toOption_plainValue "" name, hplain]
    rfl

theorem evaluate_final (hs : Seamless s) {fuel : Nat} {pending : List String}
    (htext : text ∈ s.context.toJson.texts) (he : e ∈ written s.delimiters text)
    (hmemo : SpliceableMemo s memo) : Splices s ((s.evaluate fuel pending e).run memo) := by
  induction fuel generalizing pending text e memo with
  | zero => exact .error _ hmemo
  | succ fuel ih =>
      have hpath := mem_writtenPaths htext he
      have hstep := step_evaluate s fuel pending e memo
      generalize (s.evaluate (fuel + 1) pending e).run memo = run at hstep ⊢
      cases hstep with
      | known hknown =>
          refine ⟨fun value hvalue => ?_, hmemo⟩
          exact hmemo _ _ (hknown.trans (congrArg some hvalue))
      | circular => exact .error _ hmemo
      | raw _ _ hmissing hpass =>
          refine ⟨fun value hvalue => ?_, hmemo⟩
          obtain rfl := Except.ok.inj hvalue
          exact spliceable_raw hs he ⟨hmissing, hpass⟩
      | missing => exact .error _ hmemo
      | plain _ _ hfound htemplate =>
          exact .remember
            (fun text hplain => spliceable_plain hs hpath hfound htemplate hplain) hmemo
      | @template inner r after _ _ hfound hrun =>
          have hinner := Json.mem_texts_of_lookup? hfound
          have hsettles : Settles s inner (r, after) := by
            rw [← hrun]
            exact renderWith_final hs hinner (fun e' he' memo hmemo => ih hinner he' hmemo) hmemo
          have hclear := hs.values e.path hpath _ hfound inner rfl
          refine .remember (fun value hvalue => ?_) hsettles.memo
          obtain ⟨hfaults, rfl⟩ := eq_text_of_settle hvalue
          exact ⟨hsettles.final hfaults, hsettles.clear hfaults hclear⟩

/-! ## Resolving -/

theorem render_final (hs : Seamless s) (htext : text ∈ s.context.toJson.texts)
    (hmemo : SpliceableMemo s memo) : Settles s text ((s.render text).run memo) :=
  renderWith_final hs htext (fun _ he _ hmemo => evaluate_final hs htext he hmemo) hmemo

theorem final_resolved (hdistinct : s.context.toJson.Distinct) (h : s.Final text) :
    s.resolved.Final text := by
  obtain ⟨segments, hread, hstays⟩ := h
  refine ⟨segments, hread, fun e he => ?_⟩
  obtain ⟨hmissing, hpass⟩ := hstays e he
  exact ⟨(lookup?_resolved_eq_none hdistinct).mpr hmissing,
    (passesThrough_resolved hdistinct e).trans hpass⟩

theorem eachRendered_final (hs : Seamless s) (hdistinct : s.context.toJson.Distinct)
    (hok : s.resolve.2 = []) :
    EachRendered s [] (s.openTexts.map Prod.snd) fun _ r => s.Final r.text := by
  intro mid text after hsplit
  have htexts : ∀ other ∈ mid ++ text :: after, other ∈ s.context.toJson.texts := by
    intro other hother
    rw [← hsplit] at hother
    obtain ⟨⟨path, _⟩, hmem, rfl⟩ := List.mem_map.mp hother
    exact mem_texts_of_mem_openTexts hmem hdistinct
  have hmemo : SpliceableMemo s (s.memoAfter mid) :=
    memoAfter_kept (.nil s) fun other hother memo hmemo =>
      (render_final hs (htexts other (List.mem_append_left _ hother)) hmemo).memo
  have hrun := render_final hs (htexts text (List.mem_append_right mid (List.mem_cons_self ..)))
    hmemo
  exact hrun.final (resolve_snd_eq_nil_iff.mp hok mid text after hsplit)

theorem final_of_mem_resolved (hs : Seamless s) (hdistinct : s.context.toJson.Distinct)
    (hok : s.resolve.2 = []) {path : List String}
    (hmem : (path, text) ∈ s.resolved.context.texts) : s.resolved.Final text := by
  refine final_resolved hdistinct ?_
  rcases mem_texts_resolved hdistinct (eachRendered_final hs hdistinct hok) hmem with h | h
  · exact Template.holdsOnly_of_unopened h
  · obtain ⟨-, r, hfinal, rfl⟩ := h
    exact hfinal

/-- A context of final texts is resolved already. -/
theorem resolve_of_final (hdistinct : s.context.toJson.Distinct)
    (h : ∀ path text, (path, text) ∈ s.context.texts → s.Final text) :
    s.resolve = (s.context, []) := by
  have hself : EachRendered s [] (s.openTexts.map Prod.snd) fun text r => r = ⟨text, []⟩ := by
    intro mid text after hsplit
    have hfinal : ∀ other ∈ mid ++ text :: after, s.Final other := by
      intro other hother
      rw [← hsplit] at hother
      obtain ⟨⟨path, _⟩, hmem, rfl⟩ := List.mem_map.mp hother
      exact h path _ (List.mem_filter.mp hmem).1
    have hmemo : s.memoAfter mid = [] :=
      @memoAfter_kept s mid (· = []) rfl fun other hother memo hmemo => by
        rw [hmemo, render_of_final (hfinal other (List.mem_append_left _ hother))]
    rw [List.nil_append, Scope.renderAfter, hmemo,
      render_of_final (hfinal text (List.mem_append_right mid (List.mem_cons_self ..)))]
  refine Prod.ext ?_ (resolve_snd_eq_nil_iff.mpr fun mid text after hsplit => ?_)
  · rw [resolve_fst]
    refine Context.replaceTexts_eq_self fun path new hmem => ?_
    obtain ⟨text, r, htext, rfl, rfl⟩ := exists_of_mem_renderedTexts hself hmem
    have htext := (List.mem_filter.mp htext).1
    exact ⟨Context.ne_nil_of_mem_texts htext, (Context.mem_texts_iff hdistinct).mp htext⟩
  · rw [hself mid text after hsplit]

/-- A resolved context is final, where values are put into texts without a
seam: it is resolved into itself without a problem, and all expressions that
are left in its texts have a path that is missing and may be, which at run
time is for the sake of an ignored namespace. -/
theorem resolve_resolved {c : Config.Component} {dependencies : Context.Dependencies}
    {maxRefLength : Nat} {mode : Mode}
    (hcontext : Context.ofComponent c dependencies maxRefLength mode = .ok s.context)
    (hs : Seamless s) (hok : s.resolve.2 = []) :
    s.resolved.resolve = (s.resolved.context, [])
      ∧ ∀ path text, (path, text) ∈ s.resolved.context.texts →
        ∃ segments, Template.read s.delimiters text = .ok segments
          ∧ ∀ e ∈ expressions segments, s.resolved.context.lookup? e.path = none
            ∧ s.resolved.passesThrough e = true
            ∧ (s.mode = .runtime → e.root ∈ s.ignored) := by
  have hdistinct := Context.distinct_of_ofComponent hcontext
  have hfinal : ∀ path text, (path, text) ∈ s.resolved.context.texts → s.resolved.Final text :=
    fun path text hmem => final_of_mem_resolved hs hdistinct hok hmem
  refine ⟨resolve_of_final (distinct_resolved hdistinct) hfinal, fun path text hmem => ?_⟩
  obtain ⟨segments, hread, hstays⟩ := hfinal path text hmem
  refine ⟨segments, hread, fun e he => ?_⟩
  obtain ⟨hmissing, hpass⟩ := hstays e he
  refine ⟨hmissing, hpass, fun hmode => ?_⟩
  have hruntime : s.resolved.mode = .runtime := hmode
  have hroot : e.root ∈ s.resolved.ignored := by
    simpa [Scope.passesThrough, hruntime] using hpass
  exact hroot

/-- A component with texts for its parameters, and its context at run time. -/
def parameterized (parameters : List (String × String)) : Config.Component where
  parameters := .ofList (parameters.map fun (k, text) => (k, { default := some (some (.string text)) }))

def parameterScope (parameters : List (String × String)) : Scope where
  context := ⟨[("dependencies", .object []), ("ingresses", .object []), ("interfaces", .object []),
    ("parameters", .object (parameters.map fun (k, text) => (k, .string text))),
    ("services", .object []), ("tasks", .object [])]⟩
  ignored := ["key"]

/-- A text that is put together, and waits for a key. -/
def addressParameters : List (String × String) :=
  [("host", "db"), ("url", "$\x7b\x7bparameters.host\x7d\x7d/$\x7b\x7bkey\x7d\x7d")]

theorem resolve_resolved_address :
    Context.ofComponent (parameterized addressParameters) {} 63 .runtime
        = .ok (parameterScope addressParameters).context
      ∧ Seamless (parameterScope addressParameters)
      ∧ (parameterScope addressParameters).resolve.2 = []
      ∧ (parameterScope addressParameters).resolved.resolve
        = ((parameterScope addressParameters).resolved.context, []) := by
  have hcontext : Context.ofComponent (parameterized addressParameters) {} 63 .runtime
      = .ok (parameterScope addressParameters).context := rfl
  have hs : Seamless (parameterScope addressParameters) := by decide +kernel
  have hok : (parameterScope addressParameters).resolve.2 = [] := by decide +kernel
  exact ⟨hcontext, hs, hok, (resolve_resolved hcontext hs hok).1⟩

/-- A currency in front of what looks like the rest of an expression. -/
def priceParameters : List (String × String) :=
  [("currency", "$"),
    ("price", "$\x7b\x7b parameters.currency \x7d\x7d\x7b\x7b amount \x7d\x7d")]

/-- The dollar and the braces behind it make up an expression, which is not
found when the context is resolved again. -/
theorem resolved_price_not_final :
    Context.ofComponent (parameterized priceParameters) {} 63 .runtime
        = .ok (parameterScope priceParameters).context
      ∧ (parameterScope priceParameters).resolve.2 = []
      ∧ ((parameterScope priceParameters).resolved.context.lookup? ["parameters", "price"]).bind
        Json.asString? = some "$\x7b\x7b amount \x7d\x7d"
      ∧ (parameterScope priceParameters).resolved.resolve.2.map Diagnostic.message
        = ["could not resolve \"amount\""] :=
  ⟨rfl, by decide +kernel, by decide +kernel, by decide +kernel⟩

end Manifest.Interpolation
