import Manifest.Proofs.Compiler
import Manifest.Proofs.ReferencePath
import Manifest.Proofs.Template.Separated
import Manifest.Proofs.Interpolation.Prediction
import Manifest.Proofs.Config.Reader
import Manifest.Proofs.Context.Texts
/-!
# Checking references ahead of time

The references of a compiled config are checked without values for its
parameters and without contexts for its dependencies. This foretells what
interpolation does once both are there (`checkReferences_eq_nil_iff`): the
context of the check predicts the one at run time, with the expressions on
dependencies as the supplied ones and all other expressions of the config as
the common ones.
-/

namespace Manifest.Compiler

open Template (Expression written expressions)
open Interpolation (Scope Predicts SeesSame SuppliedBy)
open Context (walk)
open Json (member?)

variable {s : Settings} {c : Config.Component} {e : Expression}

/-- The expression is written somewhere in the config. -/
def Mentions (c : Config.Component) (e : Expression) : Prop :=
  ∃ text ∈ c.toJson.texts, e ∈ written {} text

/-- A scalar, not null, in which nothing opens. -/
def isSettled : Json → Bool
  | .string text => !({} : Delimiters).opensIn text
  | .bool _ | .int _ | .float _ => true
  | .null | .array _ | .object _ => false

/-! ## Paths of expressions -/

/-- The path of an expression that is written somewhere begins with its root,
a bare key. -/
theorem exists_path_of_written {d : Delimiters} {text : String} (h : e ∈ written d text) :
    ∃ rest, e.path = e.root :: rest ∧ ∀ c ∈ e.root.toList, ReferencePath.isKeyChar c = true := by
  obtain ⟨segments, hread, he⟩ := Template.exists_read_of_mem_written h
  obtain ⟨inside, -, hpath⟩ := Template.exists_inside_of_mem_expressions hread he
  obtain ⟨key, rest, heq, hkey⟩ := ReferencePath.exists_first_of_read? hpath
  have hroot : e.root = key := by rw [Expression.root, heq]; rfl
  rw [hroot]
  exact ⟨rest, heq, hkey⟩

theorem dotted_ne_of_root_ne {e' : Expression} (he : Mentions c e) (he' : Mentions c e')
    (hne : e.root ≠ e'.root) : e.dotted ≠ e'.dotted := by
  obtain ⟨text, -, hwritten⟩ := he
  obtain ⟨text', -, hwritten'⟩ := he'
  obtain ⟨rest, hpath, hkey⟩ := exists_path_of_written hwritten
  obtain ⟨rest', hpath', hkey'⟩ := exists_path_of_written hwritten'
  rw [Expression.dotted, Expression.dotted, hpath, hpath']
  exact ReferencePath.text_ne_of_first_ne hkey hkey' hne

/-! ## The texts of the context -/

/-- All that a text says is said in the config. -/
def Covered (c : Config.Component) (text : String) : Prop :=
  ∃ segments, Template.read {} text = .ok segments ∧ ∀ e ∈ expressions segments, Mentions c e

theorem covered_of_unopened {text : String} (h : ({} : Delimiters).opensIn text = false) :
    Covered c text := by
  obtain ⟨segments, hread, hnone, -⟩ := Template.read_of_unopened h
  refine ⟨segments, hread, fun e he => ?_⟩
  rw [hnone] at he
  cases he

theorem Covered.separated {a b separator : String} (ha : Covered c a) (hb : Covered c b)
    (hne : separator.toList ≠ [])
    (hopening : ∀ t ∈ separator.toList, t ∉ ({} : Delimiters).opening.toList)
    (hdollar : Undollared separator) : Covered c (a ++ separator ++ b) := by
  obtain ⟨segments, hread, hall⟩ := ha
  obtain ⟨more, hread', hall'⟩ := hb
  refine ⟨_, Template.read_separated hread hread' hne hopening hdollar, fun e he => ?_⟩
  rw [Template.expressions_join, Template.expressions_addText, List.mem_append] at he
  exact he.elim (hall e) (hall' e)

/-- If all texts of the config are templates, what is covered passes on to the
context. -/
theorem passedOn_covered
    (h : ∀ text ∈ c.toJson.texts, ∃ segments, Template.read {} text = .ok segments) :
    Context.PassedOn c (Covered c) where
  own text htext := by
    obtain ⟨segments, hread⟩ := h text htext
    refine ⟨segments, hread, fun e he => ⟨text, htext, ?_⟩⟩
    rwa [Template.written_of_read hread]
  plain text hplain := covered_of_unopened hplain.opensIn
  address protocol host port hprotocol hhost hport := by
    have hslashes : Covered c (protocol ++ "://" ++ host) :=
      hprotocol.separated hhost (by simp) (by simp) (by simp [Undollared])
    exact hslashes.separated hport (by simp) (by simp) (by simp [Undollared])

/-! ## The two scopes -/

/-- The scope in which references are checked. -/
def checkScope (s : Settings) (context : Context) : Scope where
  context := context
  delimiters := s.delimiters
  ignored := s.ignoredNamespaces
  mode := .validation

theorem passesThrough_eq {context context' : Context} (h : e.root ≠ "dependencies") :
    (checkScope s context).passesThrough e = (scope s context').passesThrough e := by
  simp [Scope.passesThrough, checkScope, scope, h]

variable {dependencies : Context.Dependencies} {services : Json.Members}
  {assigned : List (String × String)}

/-- The context of the check. -/
abbrev checked (c : Config.Component) (services : Json.Members) : Context :=
  ⟨Context.namespaces c {} .validation services⟩

/-- The context at run time, with values for parameters. -/
abbrev supplied (c : Config.Component) (dependencies : Context.Dependencies)
    (services : Json.Members) (assigned : List (String × String)) : Context :=
  Context.setParameters ⟨Context.namespaces c dependencies .runtime services⟩ assigned

/-- Exactly the parameters that are null at run time have got values, and
nothing opens in those. -/
structure Assigned (d : Delimiters) (context : Context) (assigned : List (String × String)) :
    Prop where
  names : ∀ name,
    name ∈ assigned.map Prod.fst ↔ context.lookup? ["parameters", name] = some .null
  values : ∀ a ∈ assigned, d.opensIn a.2 = false

theorem lookup?_parameter (mode : Mode) (name : String) :
    Context.lookup? ⟨Context.namespaces c dependencies mode services⟩ ["parameters", name]
      = (c.parameters.get? name).map (Context.parameterJson mode) := by
  rw [Context.lookup?_cons, Context.member?_parameters, Option.bind_some, Context.walk_cons,
    Context.child?_parameters]
  cases c.parameters.get? name <;> rfl

theorem seesSame_of_lookup_eq {context context' : Context} (hroot : e.root ≠ "dependencies")
    (h : context.lookup? e.path = context'.lookup? e.path) :
    SeesSame (checkScope s context) (scope s context') e := by
  cases hfound : context.lookup? e.path with
  | none => exact .missing hfound (h ▸ hfound) (passesThrough_eq hroot)
  | some value => exact .found hfound (h ▸ hfound) rfl rfl

/-- A parameter without a value has a mark in one scope and its given value in
the other, and nothing is found below either. -/
theorem seesSame_of_texts {context context' : Context} {text text' : String}
    {path : List String} (hroot : e.root ≠ "dependencies")
    (hleft : context.lookup? e.path = walk (.string text) path)
    (hright : context'.lookup? e.path = walk (.string text') path)
    (htext : s.delimiters.opensIn text = false) (htext' : s.delimiters.opensIn text' = false) :
    SeesSame (checkScope s context) (scope s context') e := by
  cases path with
  | nil =>
      refine .found hleft hright ?_ rfl
      simp [Scope.template?, checkScope, scope, htext, htext']
  | cons key path => exact .missing hleft hright (passesThrough_eq hroot)

theorem seesSame_parameters (hdelimiters : s.delimiters = {})
    (hassigned :
      Assigned s.delimiters ⟨Context.namespaces c dependencies .runtime services⟩ assigned)
    {path : List String} (hpath : e.path = "parameters" :: path) :
    SeesSame (checkScope s (checked c services))
      (scope s (supplied c dependencies services assigned)) e := by
  have hroot : e.root ≠ "dependencies" := by
    rw [Expression.root, hpath]
    exact show "parameters" ≠ "dependencies" by decide
  have hparameters : member? "parameters" (Context.namespaces c dependencies .runtime services)
      = some (Context.dictJson (fun _ => Context.parameterJson .runtime) c.parameters) :=
    Context.member?_parameters
  obtain ⟨members, hmembers, hnames⟩ := Context.member?_setParameters assigned
    ⟨Context.namespaces c dependencies .runtime services⟩ hparameters
  have hleft : (checked c services).lookup? e.path
      = walk (Context.dictJson (fun _ => Context.parameterJson .validation) c.parameters) path := by
    rw [hpath, Context.lookup?_cons, Context.member?_parameters]
    rfl
  have hright : (supplied c dependencies services assigned).lookup? e.path
      = walk (.object members) path := by
    rw [hpath, Context.lookup?_cons, hmembers]
    rfl
  cases path with
  | nil => exact .found hleft hright rfl rfl
  | cons name path =>
      rw [Context.walk_cons, Context.child?_parameters] at hleft
      have hchild : member? name (Json.sortedMembers [] (c.parameters.entries.map fun (k, p) =>
          (k, Context.parameterJson .runtime p)))
            = (c.parameters.get? name).map (Context.parameterJson .runtime) :=
        Context.child?_parameters name
      rcases hnames name with ⟨hnot, hsame⟩ | ⟨text, hmem, hfound⟩
      · -- The parameter has not been set: it has one text in both modes.
        refine seesSame_of_lookup_eq hroot ?_
        rw [hleft, hright, Context.walk_cons]
        show _ = (member? name members).bind _
        rw [hsame, hchild]
        cases hget : c.parameters.get? name with
        | none => rfl
        | some p =>
            rcases Context.parameterJson_cases p with ⟨hnull, -⟩ | ⟨text, htext⟩
            · rw [hassigned.names, lookup?_parameter, hget, Option.map_some, hnull] at hnot
              exact absurd rfl hnot
            · rw [Option.map_some, Option.map_some, htext, htext]
      · -- The parameter was null, and has been set.
        have hnull := (hassigned.names name).mp (List.mem_map_of_mem hmem)
        rw [lookup?_parameter] at hnull
        obtain ⟨p, hget, hp⟩ := Option.map_eq_some_iff.mp hnull
        have hmark : Context.parameterJson .validation p = .string Context.unsetMark := by
          rcases Context.parameterJson_cases p with ⟨-, hmark⟩ | ⟨text, htext⟩
          · exact hmark
          · rw [htext] at hp
            cases hp
        have hmarked : (checked c services).lookup? e.path
            = walk (.string Context.unsetMark) path := by
          rw [hleft, hget, Option.map_some, hmark]
          rfl
        have hgiven : (supplied c dependencies services assigned).lookup? e.path
            = walk (.string text) path := by
          rw [hright, Context.walk_cons]
          show (member? name members).bind _ = _
          rw [hfound]
          rfl
        have hopens : s.delimiters.opensIn Context.unsetMark = false := by
          rw [hdelimiters]
          exact Undollared.opensIn (by simp [Undollared, Context.unsetMark])
        exact seesSame_of_texts hroot hmarked hgiven hopens (hassigned.values (name, text) hmem)

theorem seesSame (hdelimiters : s.delimiters = {})
    (hassigned :
      Assigned s.delimiters ⟨Context.namespaces c dependencies .runtime services⟩ assigned)
    (he : Mentions c e) (hroot : e.root ≠ "dependencies") :
    SeesSame (checkScope s (checked c services))
      (scope s (supplied c dependencies services assigned)) e := by
  obtain ⟨text, -, hwritten⟩ := he
  obtain ⟨rest, hpath, -⟩ := exists_path_of_written hwritten
  by_cases hparameters : e.root = "parameters"
  · rw [hparameters] at hpath
    exact seesSame_parameters hdelimiters hassigned hpath
  · refine seesSame_of_lookup_eq hroot ?_
    rw [hpath, Context.lookup?_cons, Context.lookup?_cons,
      Context.member?_setParameters_of_ne hparameters,
      Context.member?_namespaces hparameters hroot dependencies .runtime]

/-- Expressions on dependencies pass the check, and have a value at run time. -/
theorem suppliedBy {value : Json}
    (hdelimiters : s.delimiters = {}) (he : Mentions c e) (hroot : e.root = "dependencies")
    (hfound : Context.lookup? ⟨Context.namespaces c dependencies .runtime services⟩ e.path
      = some value) (hsettled : isSettled value = true) :
    SuppliedBy (checkScope s (checked c services))
      (scope s (supplied c dependencies services assigned)) e := by
  obtain ⟨text, -, hwritten⟩ := he
  obtain ⟨rest, hpath, -⟩ := exists_path_of_written hwritten
  rw [hroot] at hpath
  have hright : (supplied c dependencies services assigned).lookup? e.path = some value := by
    rw [← hfound, hpath, Context.lookup?_cons, Context.lookup?_cons,
      Context.member?_setParameters_of_ne (by decide)]
  cases rest with
  | nil =>
      rw [hpath, Context.lookup?_cons, Context.member?_dependencies] at hfound
      obtain rfl := Option.some.inj hfound
      cases hsettled
  | cons name rest =>
      have hnone : ∀ path,
          (checked c services).lookup? ("dependencies" :: name :: path) = none := by
        intro path
        rw [Context.lookup?_cons, Context.member?_dependencies, Context.visible_empty]
        rfl
      refine ⟨hpath ▸ hnone rest, ?_, value, hright, ?_, ?_⟩
      · simp [Scope.passesThrough, checkScope, hroot, hpath, hnone]
      · cases value with
        | string text =>
            have hopens : ({} : Delimiters).opensIn text = false := by
              simpa [isSettled] using hsettled
            simp [Scope.template?, scope, hdelimiters, hopens]
        | null | bool | int | float | array | object => rfl
      · cases value with
        | string | bool | int | float => rfl
        | null | array | object => cases hsettled

/-- Every expression on a dependency in the texts of the config leads to a
settled scalar. -/
def DependenciesSettled (c : Config.Component) (context : Context) : Prop :=
  ∀ text ∈ c.toJson.texts, ∀ e ∈ written {} text, e.root = "dependencies" →
    ∃ value ∈ context.lookup? e.path, isSettled value = true

instance (c : Config.Component) (context : Context) : Decidable (DependenciesSettled c context) :=
  inferInstanceAs (Decidable (∀ text ∈ c.toJson.texts, ∀ e ∈ written {} text,
    e.root = "dependencies" → ∃ value ∈ context.lookup? e.path, isSettled value = true))

/-- The scope of the check predicts the scope at run time, if all texts of the
config are templates. -/
theorem predicts (hdelimiters : s.delimiters = {})
    (htemplates : ∀ text ∈ c.toJson.texts, ∃ segments, Template.read {} text = .ok segments)
    (hservices : Context.serviceMembers c s.maxRefLength = .ok services)
    (hassigned :
      Assigned s.delimiters ⟨Context.namespaces c dependencies .runtime services⟩ assigned)
    (hdependencies :
      DependenciesSettled c ⟨Context.namespaces c dependencies .runtime services⟩) :
    Predicts (checkScope s (checked c services))
      (scope s (supplied c dependencies services assigned))
      (fun e => Mentions c e ∧ e.root ≠ "dependencies")
      (fun e => Mentions c e ∧ e.root = "dependencies") where
  delimiters := rfl
  same _ he := seesSame hdelimiters hassigned he.1 he.2
  passed e he := by
    obtain ⟨text, htext, hwritten⟩ := he.1
    obtain ⟨value, hfound, hsettled⟩ := hdependencies text htext e hwritten he.2
    exact suppliedBy hdelimiters he.1 he.2 hfound hsettled
  closed e text _ hfound e' hwritten := by
    obtain ⟨segments, hread, hall⟩ := Context.forall_texts_namespaces
      (passedOn_covered htemplates) .validation hservices text (Json.mem_texts_of_lookup? hfound)
    have hmentions : Mentions c e' := by
      rw [show (checkScope s (checked c services)).delimiters = {} from hdelimiters,
        Template.written_of_read hread] at hwritten
      exact hall e' hwritten
    by_cases hroot : e'.root = "dependencies"
    · exact Or.inr ⟨hmentions, hroot⟩
    · exact Or.inl ⟨hmentions, hroot⟩
  apart _ _ he he' := dotted_ne_of_root_ne he.1 he'.1 fun heq => he.2 (heq.trans he'.2)

/-! ## Reading what was rendered -/

/-- A compiled config belongs to no instance, and so has no date. -/
theorem instanceDate_of_compileDocument {ps : Perspectives} {d : SourceDocument}
    (h : compileDocument s ps d = .ok c) : c.instanceDate = none := by
  obtain ⟨spec, -, rfl⟩ := exists_outline h
  rfl

/-- What is rendered of a config, and what is reported. -/
def rendered (sc : Scope) (c : Config.Component) : Json × List Diagnostic :=
  ((sc.renderValue "" c.toJson.sorted).run []).1

theorem renderComponent_eq (sc : Scope) (c : Config.Component) :
    Interpolation.renderComponent sc c
      = match Config.Reader.component? (rendered sc c).1 with
        | some config => .ok (config, (rendered sc c).2)
        | none => .error .malformedData := by
  unfold Interpolation.renderComponent rendered
  generalize ((sc.renderValue "" c.toJson.sorted).run []).1 = run
  cases hread : Config.Reader.component? run.1 <;> simp only [hread]

theorem blank_rendered (sc : Scope) (c : Config.Component) :
    (rendered sc c).1.blank = c.toJson.sorted.blank := by
  unfold rendered
  exact Interpolation.blank_renderValue "" c.toJson.sorted []

theorem read_of_rendered {sc : Scope} (h : (rendered sc c).2 = []) :
    ∀ text ∈ c.toJson.sorted.texts,
      ∃ segments, Template.read sc.delimiters text = .ok segments := by
  unfold rendered at h
  exact Interpolation.read_of_unreported "" c.toJson.sorted h

theorem rendered_eq_nil_iff {sc sc' : Scope} {common supplied : Expression → Prop}
    (h : Predicts sc sc' common supplied)
    (htree : ∀ text ∈ c.toJson.sorted.texts, ∀ e ∈ written sc.delimiters text,
      common e ∨ supplied e) :
    (rendered sc c).2 = [] ↔ (rendered sc' c).2 = [] := by
  have hsites := Interpolation.sites_renderValue_eq h "" htree
  unfold rendered
  rw [← List.map_eq_nil_iff, hsites, List.map_eq_nil_iff]

/-- Whether a rendered config can be read does not depend on what was
rendered. -/
theorem isSome_component?_rendered (hdate : c.instanceDate = none) (sc : Scope) :
    (Config.Reader.component? (rendered sc c).1).isSome
      = (Config.Reader.component? c.toJson.sorted.blank).isSome := by
  have hblank := blank_rendered sc c
  obtain ⟨members, heq, -⟩ := c.exists_fields
  have hmissing : member? "instance_date" (Json.sortedMembers [] members) = none := by
    have hfield := Config.Component.field?_instanceDate hdate
    rw [heq] at hfield
    exact Json.member?_sorted_eq_none hfield rfl
  rw [heq] at hblank ⊢
  cases hrendered : (rendered sc c).1 with
  | object found =>
      rw [hrendered] at hblank
      have hmembers : Json.mapMemberTexts (fun _ => "") found
          = Json.mapMemberTexts (fun _ => "") (Json.sortedMembers [] members) :=
        Json.object.inj hblank
      have hdate' : member? "instance_date" found = none := by
        have hfound := congrArg (member? "instance_date") hmembers
        rw [Config.Reader.member?_mapMemberTexts, Config.Reader.member?_mapMemberTexts,
          hmissing] at hfound
        exact Option.map_eq_none_iff.mp hfound
      rw [← Config.Reader.isSome_component? hdate', hmembers]
      rfl
  | null | bool | int | float | string | array => rw [hrendered] at hblank; cases hblank

/-- A rendering that can be read and reports nothing. -/
def Succeeds (run : Json × List Diagnostic) : Prop :=
  (Config.Reader.component? run.1).isSome ∧ run.2 = []

theorem checkReferences_eq_nil
    (hservices : Context.serviceMembers c s.maxRefLength = .ok services) :
    checkReferences s c = .ok [] ↔ Succeeds (rendered (checkScope s (checked c services)) c) := by
  have hcheck : checkReferences s c
      = (Interpolation.renderComponent (checkScope s (checked c services)) c).map Prod.snd := by
    unfold checkReferences Interpolation.check
    rw [Context.ofComponent_eq, hservices]
    cases hrun : Interpolation.renderComponent (checkScope s (checked c services)) c
    all_goals
      unfold checkScope at hrun
      simp [hrun, Except.map, bind, Except.bind, pure, Except.pure]
  rw [hcheck, renderComponent_eq, Succeeds]
  generalize rendered (checkScope s (checked c services)) c = run
  cases Config.Reader.component? run.1 with
  | none => simp [Except.map]
  | some config => simp [Except.map]

theorem exists_interpolate (context : Context) :
    (∃ config, interpolate s c context = .ok config)
      ↔ Succeeds (rendered (scope s context) c) := by
  unfold interpolate Interpolation.interpolate
  rw [renderComponent_eq, Succeeds]
  generalize rendered (scope s context) c = run
  cases Config.Reader.component? run.1 with
  | none => simp [bind, Except.bind]
  | some config =>
      constructor
      · rintro ⟨found, h⟩
        exact ⟨rfl, (eq_of_unlessInvalid h).1⟩
      · rintro ⟨-, hnone⟩
        exact ⟨config, by simp [bind, Except.bind, unlessInvalid, hnone]⟩

/-- The references of a compiled config are in order exactly if interpolation
succeeds, once exactly the parameters that are null have texts for values, and
each expression on a dependency leads to a scalar that is settled. -/
theorem checkReferences_eq_nil_iff {ps : Perspectives} {d : SourceDocument} {context : Context}
    (hcompiled : compileDocument s ps d = .ok c) (hdelimiters : s.delimiters = {})
    (hcontext : Context.ofComponent c dependencies s.maxRefLength .runtime = .ok context)
    (hassigned : Assigned s.delimiters context assigned)
    (hdependencies : DependenciesSettled c context) :
    checkReferences s c = .ok []
      ↔ ∃ config, interpolate s c (context.setParameters assigned) = .ok config := by
  obtain ⟨services, hservices, rfl⟩ := Context.exists_of_ofComponent hcontext
  have hdate := instanceDate_of_compileDocument hcompiled
  rw [checkReferences_eq_nil hservices, exists_interpolate, Succeeds, Succeeds,
    isSome_component?_rendered hdate, isSome_component?_rendered hdate]
  refine and_congr_right fun _ => ?_
  by_cases htemplates : ∀ text ∈ c.toJson.texts, ∃ segments, Template.read {} text = .ok segments
  · have hpredicts := predicts hdelimiters htemplates hservices hassigned hdependencies
    have hmentions : ∀ text ∈ c.toJson.sorted.texts,
        ∀ e ∈ written (checkScope s (checked c services)).delimiters text,
          (Mentions c e ∧ e.root ≠ "dependencies") ∨ (Mentions c e ∧ e.root = "dependencies") := by
      intro text htext e he
      have hmentions : Mentions c e := ⟨text, Json.texts_sorted_subset _ htext, hdelimiters ▸ he⟩
      by_cases hroot : e.root = "dependencies"
      · exact Or.inr ⟨hmentions, hroot⟩
      · exact Or.inl ⟨hmentions, hroot⟩
    exact rendered_eq_nil_iff hpredicts hmentions
  · have hreported : ∀ sc : Scope, sc.delimiters = {} → (rendered sc c).2 ≠ [] := by
      intro sc hsc hnone
      refine htemplates fun text htext => ?_
      have hread := read_of_rendered hnone text (Json.texts_subset_sorted c.distinct_toJson htext)
      rwa [hsc] at hread
    exact iff_of_false (hreported _ hdelimiters) (hreported _ hdelimiters)

/-- A job that greets a region from a database that it depends on. -/
def greeterDocument : SourceDocument where
  source := ""
  value := .mapping
    [(.string "name", .string "acme/greeter"),
      (.string "dependencies", .mapping [(.string "acme/db", .string "latest")]),
      (.string "parameters", .mapping
        [(.string "region", .mapping [(.string "description", .string "where to run")]),
          (.string "greeting", .mapping
            [(.string "default", .string "hello ${{ parameters.region }}")])]),
      (.string "tasks", .mapping
        [(.string "greet", .mapping
          [(.string "image", .string "greeter:1"),
            (.string "environment", .mapping
              [(.string "TEXT", .string "${{ parameters.greeting }}"),
                (.string "DB",
                  .string "$\x7b\x7b dependencies['acme/db'].interfaces.main.url \x7d\x7d")])])])]

def greeterConfig : Config.Component where
  name := "acme/greeter"
  tag := "latest"
  reference := "acme/greeter:latest"
  parameters := .ofList
    [("region", { required := some true, description := some "where to run" }),
      ("greeting",
        { required := some true
          default := some (some (.string "hello $\x7b\x7b parameters.region \x7d\x7d")) })]
  tasks := .ofList
    [("greet",
      { body :=
          { identity := ⟨"greet", "acme/greeter/greet:latest", "latest"⟩
            image := some "greeter:1"
            environment := .ofList
              [("TEXT", "$\x7b\x7b parameters.greeting \x7d\x7d"),
                ("DB", "$\x7b\x7b dependencies['acme/db'].interfaces.main.url \x7d\x7d")]
            extension := {} }
        debug := none })]
  dependencies := .ofList [("acme/db", "latest")]

/-- What the database shows of itself. -/
def databaseContexts : Context.Dependencies :=
  .ofList [("acme/db",
    ⟨[("interfaces", .object [("main", .object [("url", .string "http://db")])])]⟩)]

def greeterContext : Context where
  members :=
    [("dependencies", .object [("acme/db", .object
        [("interfaces", .object [("main", .object [("url", .string "http://db")])])])]),
      ("ingresses", .object []), ("interfaces", .object []),
      ("parameters", .object
        [("greeting", .string "hello $\x7b\x7b parameters.region \x7d\x7d"), ("region", .null)]),
      ("services", .object []),
      ("tasks", .object [("greet", .object [("environment", .object
        [("DB", .string "$\x7b\x7b dependencies['acme/db'].interfaces.main.url \x7d\x7d"),
          ("TEXT", .string "$\x7b\x7b parameters.greeting \x7d\x7d")])])])]

theorem assigned_greeter : Assigned {} greeterContext [("region", "eu")] where
  names name := by
    have hlookup : greeterContext.lookup? ["parameters", name]
        = member? name [("greeting", .string "hello $\x7b\x7b parameters.region \x7d\x7d"),
            ("region", .null)] := by
      show (member? name _).bind _ = _
      cases member? name [("greeting", .string "hello $\x7b\x7b parameters.region \x7d\x7d"),
        ("region", .null)] <;> rfl
    rw [hlookup, member?, member?, member?]
    by_cases h : "region" = name
    · subst h
      simp
    · split <;> simp [Ne.symm h]
  values := by decide

/-- The region of the greeter is not known yet when its references are checked,
and neither is its database. -/
theorem checkReferences_greeter :
    compileDocument {} (.only .developer) greeterDocument = .ok greeterConfig
      ∧ Context.ofComponent greeterConfig databaseContexts 63 .runtime = .ok greeterContext
      ∧ Assigned {} greeterContext [("region", "eu")]
      ∧ DependenciesSettled greeterConfig greeterContext
      ∧ (checkReferences {} greeterConfig = .ok [] ↔ ∃ config,
        interpolate {} greeterConfig (greeterContext.setParameters [("region", "eu")])
          = .ok config) :=
  have hcompiled : compileDocument {} (.only .developer) greeterDocument = .ok greeterConfig := rfl
  have hcontext : Context.ofComponent greeterConfig databaseContexts 63 .runtime
      = .ok greeterContext := rfl
  have hsettled : DependenciesSettled greeterConfig greeterContext := by decide +kernel
  ⟨hcompiled, hcontext, assigned_greeter, hsettled,
    checkReferences_eq_nil_iff hcompiled rfl hcontext assigned_greeter hsettled⟩

end Manifest.Compiler
