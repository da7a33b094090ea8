import Manifest.CommandLine.Request
import Manifest.Compiler
import Manifest.Layering
import Manifest.Config.Tree
import Manifest.Json.Printer
import Manifest.Yaml.Printer
/-!
# The command line

Three commands: `validate` reports every problem of a document, `render`
prints the config of a component, with layers over it and interpolated on
request, and `ref` prints the safe ref of a slug. Carrying out a request
depends on the files that it names and on nothing else.
-/

namespace Manifest.CommandLine

/-- What a run prints, and the status it ends with. -/
structure Outcome where
  status : Nat
  output : String := ""
  errors : String := ""
deriving DecidableEq, Repr

namespace Outcome

def success (output : String) : Outcome := { status := 0, output }

/-- A run that ends in an error, perhaps after it has printed something. -/
def failed (message : String) (output : String) : Outcome :=
  { status := 1, output, errors := "Error: " ++ message ++ "\n" }

def ofFailure (f : Failure) : Outcome := failed f.message ""

def usage : Outcome :=
  { status := 2
    errors := "usage: deckhand [--config PATH] (validate | render | ref) [options] ...\n" }

def version : Outcome := success "deckhand 0.1.0\n"

def ofStop : Stop → Outcome
  | .usage => usage
  | .version => version

end Outcome

/-! ## Validating -/

def countErrors (n : Nat) : String := if n = 1 then "1 error" else toString n ++ " errors"

/-- The place of a document and its problems, one a line. -/
def report (location : String) (ds : List Diagnostic) : Outcome :=
  .failed (countErrors ds.length ++ " found")
    (String.join ((location :: ds.map fun d => "  " ++ d.text).map (· ++ "\n")))

/-- The problems of a document, those of its references last; its ref if
there are none. -/
def documentProblems (s : Settings) (ps : Perspectives) (d : SourceDocument) :
    Except Failure (List Diagnostic × String) :=
  match Compiler.compileDocument s ps d with
  | .ok c => (Compiler.checkDocumentReferences s c d).map (·, c.reference)
  | .error (.invalid ds) => .ok (ds, "")
  | .error failure => .error failure

def validate (s : Settings) (files : Files) (v : Validate) : Except Failure Outcome := do
  let ps :=
    if v.perspectives.isEmpty then Compiler.defaultPerspectives s else .ofList v.perspectives
  let d ← SourceDocument.load files v.path
  let (problems, ref) ← documentProblems s ps d
  pure (if problems.isEmpty then .success (ref ++ " is valid\n")
    else report (d.path.getD v.path) problems)

/-! ## Rendering -/

/-- A layer without a tag has the given one. -/
def withTag (tag : String) (d : SourceDocument) : SourceDocument :=
  match d.value with
  | .mapping entries =>
    if (Yaml.entry? "tag" entries).isSome then d
    else { d with value := .mapping (entries ++ [(.string "tag", .string tag)]) }
  | _ => d

/-- Lays the document of an operator over a config. -/
def layer (s : Settings) (files : Files) (base : Config.Component) (path : String) :
    Except Failure Config.Component := do
  let d ← SourceDocument.load files path
  pure (base.merge
    (← Compiler.compileDocument s (.only .operator) (withTag base.tag d)))

/-- The contexts of the components at the given paths. -/
def dependencyContexts (s : Settings) (files : Files) (named : List (String × String)) :
    Except Failure Context.Dependencies := do
  pure (Dict.ofList (← named.mapM fun (name, path) => do
    let c ← Compiler.compilePath s files (Compiler.defaultPerspectives s) path
    pure (name, ← Compiler.resolvedContext s c {})))

/-- Interpolates a config with the dependencies and parameters of a request. -/
def interpolate (s : Settings) (files : Files) (r : Render) (c : Config.Component) :
    Except Failure Config.Component := do
  let context ← Compiler.contextFor s c (← dependencyContexts s files r.dependencies)
  let context := r.parameters.foldl
    (fun context (name, value) => context.setParameter name (.string value)) context
  Compiler.interpolate s c context

def formatted (format : Format) (c : Config.Component) : String :=
  match format with
  | .yaml => Yaml.Printer.document c.toJson
  | .json => c.toJson.pretty ++ "\n"

def render (s : Settings) (files : Files) (r : Render) : Except Failure Outcome := do
  let base ← Compiler.compilePath s files (Compiler.defaultPerspectives s) r.path
  let c ← r.overrides.foldlM (layer s files) base
  let c ← if r.interpolate then interpolate s files r c else pure c
  pure (.success (formatted r.format c))

/-! ## Refs -/

def ref (s : Settings) (r : Ref) : Except Failure Outcome := do
  let maxLength := r.maxLength.getD s.maxRefLength
  let text ←
    match r.instanceId with
    | some id => SafeRef.ofInstance r.slug id maxLength
    | none => SafeRef.ofText r.slug r.name maxLength
  pure (.success (text ++ "\n"))

/-! ## Running -/

def settings (files : Files) : Option String → Except Failure Settings
  | some path => do Settings.read (← SourceDocument.readFile files path)
  | none => .ok .default

def carryOut (files : Files) (r : Request) : Except Failure Outcome := do
  let s ← settings files r.settings
  match r.command with
  | .validate v => validate s files v
  | .render r => render s files r
  | .ref r => ref s r

/-- Runs the program on its arguments; `environment` may name settings. -/
def run (environment : Option String) (files : Files) (args : List String) : Outcome :=
  match readRequest environment args with
  | .error stop => .ofStop stop
  | .ok request =>
    match carryOut files request with
    | .ok outcome => outcome
    | .error failure => .ofFailure failure

/-- The documents that a request names. -/
def documents (r : Request) : List String :=
  match r.command with
  | .validate v => [v.path]
  | .render r => r.path :: r.overrides ++ r.dependencies.map Prod.snd
  | .ref _ => []

end Manifest.CommandLine
