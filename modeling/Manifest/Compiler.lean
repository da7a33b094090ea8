import Manifest.Settings
import Manifest.SourceDocument
import Manifest.Schema.Check
import Manifest.Spec.Reader
import Manifest.Validation
import Manifest.Normalization
import Manifest.Interpolation.Component
/-!
# Compiling

A document becomes a spec, the spec a config, and the config is interpolated
in a context. Problems found in a document carry their places in its source.
-/

namespace Manifest.Compiler

/-- Diagnostics of a failure get their places in a source. -/
def annotateFailure (source : String) : Failure → Failure
  | .invalid ds => .invalid (SourceMap.annotate source ds)
  | other => other

/-- The spec of a document. A document whose shape is wrong but readable is
checked by the rules all the same; one that is not readable is malformed,
unless its shape already says what is wrong. -/
def parseSpec (ps : Perspectives) (d : SourceDocument) : Except Failure Spec.Component :=
  let shape := Schema.check d.value
  match Spec.Reader.component? d.value with
  | some spec =>
    unlessInvalid (SourceMap.annotate d.source (shape ++ Validation.validate ps spec)) spec
  | none =>
    if shape.isEmpty then .error .malformedDocument
    else .error (.invalid (SourceMap.annotate d.source shape))

/-! ## Configs -/

def compileDocument (s : Settings) (ps : Perspectives) (d : SourceDocument) :
    Except Failure Config.Component := do
  let spec ← parseSpec ps d
  (Normalization.component s.delimiters spec).mapError (annotateFailure d.source)

/-- Compiles a text that belongs to no file. -/
def compileText (s : Settings) (ps : Perspectives) (source : String) :
    Except Failure Config.Component := do
  compileDocument s ps (← SourceDocument.parse source)

/-- Compiles the document at a path. -/
def compilePath (s : Settings) (files : Files) (ps : Perspectives) (path : String) :
    Except Failure Config.Component := do
  compileDocument s ps (← SourceDocument.load files path)

/-! ## Contexts -/

def scope (s : Settings) (context : Context) : Interpolation.Scope where
  context := context
  delimiters := s.delimiters
  ignored := s.ignoredNamespaces

/-- The context with its own expressions resolved, and what fails. -/
def resolve (s : Settings) (context : Context) : Context × List Diagnostic :=
  (scope s context).resolve

/-- The problems of a dependency, at its place among the dependencies. -/
def dependencyProblems (name : String) (ds : List Diagnostic) : List Diagnostic :=
  ds.map fun d => { d with path := "dependencies." ++ name ++ "." ++ d.path }

/-- The context of a component whose dependencies have the given contexts. -/
def contextFor (s : Settings) (c : Config.Component) (dependencies : Context.Dependencies) :
    Except Failure Context := do
  let resolved := dependencies.mapValues fun _ context => resolve s context
  let problems := resolved.entries.flatMap fun (name, _, ds) => dependencyProblems name ds
  let contexts ← unlessInvalid problems (resolved.mapValues fun _ (context, _) => context)
  Context.ofComponent c contexts s.maxRefLength .runtime

/-- The context that a component shows to those that depend on it. -/
def resolvedContext (s : Settings) (c : Config.Component)
    (dependencies : Context.Dependencies) : Except Failure Context := do
  let (context, problems) := resolve s (← contextFor s c dependencies)
  unlessInvalid problems context

/-! ## Interpolation -/

def interpolate (s : Settings) (c : Config.Component) (context : Context) :
    Except Failure Config.Component :=
  Interpolation.interpolate (scope s context) c

/-- The expressions of a config that refer to nothing. -/
def checkReferences (s : Settings) (c : Config.Component) : Except Failure (List Diagnostic) :=
  Interpolation.check s.delimiters s.ignoredNamespaces s.maxRefLength c

/-- The same with their places in the document of the config. -/
def checkDocumentReferences (s : Settings) (c : Config.Component) (d : SourceDocument) :
    Except Failure (List Diagnostic) :=
  (checkReferences s c).map (SourceMap.annotate d.source)

def defaultPerspectives (s : Settings) : Perspectives := .ofList s.defaultPerspectives

end Manifest.Compiler
