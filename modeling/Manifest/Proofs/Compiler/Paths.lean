import Manifest.Proofs.Context.Keyed
import Manifest.Proofs.Interpolation.Resolving
import Manifest.Proofs.Spec.Keys
import Manifest.Proofs.Template.Spliced
/-!
# Paths that can be written

The check of a document lets only bare keys into what the context of its config shows
(`bareKeys_outline`). So every value of a context that is made of compiled configs, those
below the dependencies included, has a path that can be written with periods: the written
form is read back as that path, and an expression with it in its delimiters leads to the
value (`read?_of_lookup?`).
-/

namespace Manifest

open ReferencePath (IsBare)

/-! ## Keys of a compiled config -/

namespace Normalization

variable {d : Delimiters} {spec : Spec.Component} {key : String}

theorem exists_service_of_outline {s : Config.Service}
    (hs : (outline d spec).services.get? key = some s) :
    ∃ given, spec.services.get? key = some given
      ∧ s.body.environment = texts given.body.environment
      ∧ s.body.extension.interfaces
        = given.body.extension.interfaces.mapValues fun _ i => interface i := by
  rw [outline, Dict.get?_mapValues] at hs
  obtain ⟨given, hgiven, rfl⟩ := Option.map_eq_some_iff.mp hs
  exact ⟨given, hgiven, rfl, rfl⟩

theorem exists_task_of_outline {t : Config.Task}
    (ht : (outline d spec).tasks.get? key = some t) :
    ∃ given, spec.tasks.get? key = some given
      ∧ t.body.environment = texts given.body.environment := by
  rw [outline, Dict.get?_mapValues] at ht
  obtain ⟨given, hgiven, rfl⟩ := Option.map_eq_some_iff.mp ht
  exact ⟨given, hgiven, rfl⟩

end Normalization

namespace Compiler

variable {st : Settings} {ps : Perspectives} {doc : SourceDocument} {spec : Spec.Component}
  {c : Config.Component} {context : Context}

/-- What the check lets pass has bare keys wherever its context shows them. -/
theorem bareKeys_outline (d : Delimiters) (hspec : parseSpec ps doc = .ok spec) :
    (Normalization.outline d spec).BareKeys := by
  obtain ⟨fs, -, hrooted⟩ := rooted_of_parseSpec hspec
  have bare {g : Schema.KeyGrammar} (hg : g ≠ .any) {keys : List String}
      (h : ∀ key ∈ keys, g.accepts key) : ∀ key ∈ keys, IsBare key :=
    fun key hkey => Schema.KeyGrammar.isBare_of_accepts hg (h key hkey)
  have hname : Schema.KeyGrammar.name ≠ .any := Schema.KeyGrammar.noConfusion
  have hvariable : Schema.KeyGrammar.environmentKey ≠ .any := Schema.KeyGrammar.noConfusion
  constructor
  case parameters =>
    show ∀ key ∈ (spec.parameters.mapValues fun _ p => Normalization.parameter p).keys, _
    rw [Dict.keys_mapValues]
    exact bare Schema.KeyGrammar.noConfusion (hrooted.fills.accepts_keys rfl hrooted.parameters)
  case dependencies =>
    show ∀ key ∈ (spec.dependencies.mapValues fun _ version => version.text).keys, _
    rw [Dict.keys_mapValues]
    exact bare Schema.KeyGrammar.noConfusion (hrooted.fills.accepts_keys rfl hrooted.dependencies)
  case interfaces =>
    intro key hkey
    exact bare hname (hrooted.fills.accepts_keys rfl hrooted.interfaces) key
      (Dict.keys_filterMapValues_subset _ _ hkey)
  case services =>
    show ∀ key ∈ (spec.services.mapValues _).keys, _
    rw [Dict.keys_mapValues]
    exact bare hname hrooted.isName_services
  case tasks =>
    show ∀ key ∈ (spec.tasks.mapValues _).keys, _
    rw [Dict.keys_mapValues]
    exact bare hname hrooted.isName_tasks
  case serviceInterfaces =>
    intro key s hs
    obtain ⟨given, hgiven, -, hinterfaces⟩ := Normalization.exists_service_of_outline hs
    rw [hinterfaces, Dict.keys_mapValues]
    exact bare hname (hrooted.isName_interfaces hgiven)
  case serviceEnvironments =>
    intro key s hs name hvar
    obtain ⟨given, hgiven, henvironment, -⟩ := Normalization.exists_service_of_outline hs
    rw [henvironment] at hvar
    exact bare hvariable (hrooted.accepts_serviceEnvironment hgiven) name
      (Dict.keys_filterMapValues_subset _ _ hvar)
  case taskEnvironments =>
    intro key t ht name hvar
    obtain ⟨given, hgiven, henvironment⟩ := Normalization.exists_task_of_outline ht
    rw [henvironment] at hvar
    exact bare hvariable (hrooted.accepts_taskEnvironment hgiven) name
      (Dict.keys_filterMapValues_subset _ _ hvar)

theorem bareKeys_of_compileDocument (h : compileDocument st ps doc = .ok c) : c.BareKeys := by
  obtain ⟨spec, hspec, rfl⟩ := exists_outline h
  exact bareKeys_outline st.delimiters hspec

/-! ## Contexts of compiled configs -/

/-- Contexts of compiled configs, as they are built and as they are resolved, where those of
the dependencies are of this kind themselves. -/
inductive Built : Context → Prop where
  | ofComponent {st : Settings} {ps : Perspectives} {doc : SourceDocument}
      {c : Config.Component} {dependencies : Context.Dependencies} {maxRefLength : Nat}
      {mode : Mode} {context : Context} (hcompiled : compileDocument st ps doc = .ok c)
      (hdependencies : ∀ name own, dependencies.get? name = some own → Built own)
      (hcontext : Context.ofComponent c dependencies maxRefLength mode = .ok context) :
      Built context
  | resolved {scope : Interpolation.Scope} (h : Built scope.context) : Built scope.resolve.1

theorem Built.keyed (h : Built context) : Context.Keyed context.toJson := by
  induction h with
  | ofComponent hcompiled _ hcontext ih =>
      exact Context.keyed_ofComponent (bareKeys_of_compileDocument hcompiled) ih hcontext
  | resolved _ ih =>
      rw [Interpolation.resolve_fst]
      exact ih.replaceTexts

end Compiler

/-! ## Expressions for paths -/

/-- Expressions open, and no character of a path can be taken for the start of their end. -/
structure Delimiters.EndsPaths (d : Delimiters) : Prop where
  opens : d.opening.toList ≠ []
  closes : ∃ c rest, d.closing.toList = c :: rest ∧ ReferencePath.isKeyChar c = false ∧ c ≠ '.'

theorem Delimiters.endsPaths_default : ({} : Delimiters).EndsPaths where
  opens := by decide
  closes := ⟨'\x7d', ['\x7d'], by decide, by decide, by decide⟩

/-- The written form of bare keys, in delimiters, is one expression with these keys. -/
theorem Template.read_enclose_text {d : Delimiters} (hd : d.EndsPaths) {key : String}
    {keys : List String} (h : ∀ k ∈ key :: keys, IsBare k) :
    read d (String.ofList (d.enclose (ReferencePath.text (key :: keys)).toList))
      = .ok [.expression
          ⟨d.enclose (ReferencePath.text (key :: keys)).toList, key :: keys⟩] := by
  obtain ⟨c, rest, hclosing, hkey, hperiod⟩ := hd.closes
  have hnot : c ∉ (ReferencePath.text (key :: keys)).toList := by
    intro hmem
    rcases ReferencePath.chars_text h c hmem with hchar | rfl
    · rw [hkey] at hchar
      cases hchar
    · exact hperiod rfl
  refine read_enclose hd.opens ?_ (ReferencePath.read?_text_alone h)
  have hcut : Text.breakOn? (c :: rest) (_ ++ (c :: rest ++ [])) = some (_, []) :=
    Text.breakOn?_of_not_mem hnot []
  rwa [List.append_nil, ← hclosing] at hcut

namespace Compiler

/-- Every value of a context that is built of compiled configs has a path that can be written:
its keys with periods between them are read as the path, and so the expression made of them
leads to that value. -/
theorem read?_of_lookup? {context : Context} (h : Built context) {path : List String}
    {value : Json} (hfound : context.lookup? path = some value) :
    ReferencePath.read? (ReferencePath.text path).toList = some path
      ∧ ∀ d : Delimiters, d.EndsPaths → ∃ e,
        Template.read d (String.ofList (d.enclose (ReferencePath.text path).toList))
            = .ok [.expression e]
          ∧ e.path = path ∧ context.lookup? e.path = some value := by
  obtain ⟨hne, hbare⟩ := h.keyed.isBare_of_lookup? hfound
  obtain ⟨key, keys, rfl⟩ := List.exists_cons_of_ne_nil hne
  exact ⟨ReferencePath.read?_text_alone hbare,
    fun d hd => ⟨_, Template.read_enclose_text hd hbare, rfl, hfound⟩⟩

/-- A database with the name of its account in front. -/
def ledgerDocument : SourceDocument where
  source := ""
  value := .mapping
    [(.string "name", .string "acme/ledger"),
      (.string "parameters", .mapping
        [(.string "POOL_SIZE", .string "5")])]

/-- A component that depends on it. -/
def tellerDocument : SourceDocument where
  source := ""
  value := .mapping
    [(.string "name", .string "acme/teller"),
      (.string "dependencies", .mapping [(.string "acme/ledger", .string "latest")])]

def ledgerConfig : Config.Component where
  name := "acme/ledger"
  tag := "latest"
  reference := "acme/ledger:latest"
  parameters := .ofList [("POOL_SIZE", { default := some (some (.string "5")) })]

def tellerConfig : Config.Component where
  name := "acme/teller"
  tag := "latest"
  reference := "acme/teller:latest"
  dependencies := .ofList [("acme/ledger", "latest")]

theorem compileDocument_ledger :
    compileDocument {} (.only .developer) ledgerDocument = .ok ledgerConfig := rfl

theorem compileDocument_teller :
    compileDocument {} (.only .developer) tellerDocument = .ok tellerConfig := rfl

def ledgerContext : Context := ⟨Context.namespaces ledgerConfig {} .runtime []⟩

theorem ofComponent_ledger :
    Context.ofComponent ledgerConfig {} 63 .runtime = .ok ledgerContext := rfl

def tellerContext : Context :=
  ⟨Context.namespaces tellerConfig (.ofList [("acme/ledger", ledgerContext)]) .runtime []⟩

theorem ofComponent_teller :
    Context.ofComponent tellerConfig (.ofList [("acme/ledger", ledgerContext)]) 63 .runtime
      = .ok tellerContext := rfl

theorem built_ledger : Built ledgerContext :=
  .ofComponent compileDocument_ledger (fun _ _ h => by cases h) ofComponent_ledger

theorem built_teller : Built tellerContext := by
  refine .ofComponent compileDocument_teller (fun name own h => ?_) ofComponent_teller
  have hmem := Dict.mem_of_get?_ofList h
  obtain ⟨-, rfl⟩ := Prod.mk.inj (List.mem_singleton.mp hmem)
  exact built_ledger

/-- The name of the dependency is read with its slash. -/
theorem read?_poolSize :
    Built tellerContext
      ∧ tellerContext.lookup? ["dependencies", "acme/ledger", "parameters", "POOL_SIZE"]
        = some (.string "5")
      ∧ ReferencePath.read? "dependencies.acme/ledger.parameters.POOL_SIZE".toList
        = some ["dependencies", "acme/ledger", "parameters", "POOL_SIZE"]
      ∧ ∃ e, Template.read {} (String.ofList (({} : Delimiters).enclose
            "dependencies.acme/ledger.parameters.POOL_SIZE".toList)) = .ok [.expression e]
          ∧ tellerContext.lookup? e.path = some (.string "5") := by
  have hfound : tellerContext.lookup? ["dependencies", "acme/ledger", "parameters", "POOL_SIZE"]
      = some (.string "5") := rfl
  obtain ⟨hread, hexpression⟩ := read?_of_lookup? built_teller hfound
  have htext : ReferencePath.text ["dependencies", "acme/ledger", "parameters", "POOL_SIZE"]
      = "dependencies.acme/ledger.parameters.POOL_SIZE" := rfl
  rw [htext] at hread hexpression
  obtain ⟨e, he, -, hvalue⟩ := hexpression {} Delimiters.endsPaths_default
  exact ⟨built_teller, hfound, hread, e, he, hvalue⟩

end Compiler

end Manifest
