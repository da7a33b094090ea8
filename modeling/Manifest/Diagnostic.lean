/-!
# Diagnostics

A check never stops at the first problem: it yields a list of diagnostics,
each with the property path it is about and, where the text is at hand, the
place of that property in it. Operations that do stop end in a `Failure`.
-/

namespace Manifest

namespace PropertyPath

/-- The path of `key` below `parent`. An empty side leaves the other one. -/
def join (parent key : String) : String :=
  if parent.isEmpty then key
  else if key.isEmpty then parent
  else parent ++ "." ++ key

/-- The path of the item at an index. -/
def item (parent : String) (index : Nat) : String := join parent (toString index)

end PropertyPath

/-! ## Places in a text -/

/-- A line and a column, both counted from one. -/
structure Place where
  line : Nat
  column : Nat
deriving DecidableEq, Repr

/-- A stretch of a text, its end included. -/
structure Span where
  start : Place
  stop : Place
deriving DecidableEq, Repr

/-! ## One problem -/

inductive Diagnostic.Kind where
  | invalidSlug
  | schemaValidation
  | structuralConflict
  | dependencyReference
  | circularReference
  | unresolvedInterpolation
  | missingConfigSource
deriving DecidableEq, Repr

namespace Diagnostic.Kind

def all : List Kind :=
  [.invalidSlug, .schemaValidation, .structuralConflict, .dependencyReference,
    .circularReference, .unresolvedInterpolation, .missingConfigSource]

/-- The words of a kind in messages. -/
def words : Kind → String
  | .invalidSlug => "invalid slug"
  | .schemaValidation => "schema validation"
  | .structuralConflict => "structural conflict"
  | .dependencyReference => "dependency reference"
  | .circularReference => "circular reference"
  | .unresolvedInterpolation => "unresolved interpolation"
  | .missingConfigSource => "missing config source"

/-- The name of a kind in data. -/
def name : Kind → String
  | .invalidSlug => "invalid_slug"
  | .schemaValidation => "schema_validation"
  | .structuralConflict => "structural_conflict"
  | .dependencyReference => "dependency_reference"
  | .circularReference => "circular_reference"
  | .unresolvedInterpolation => "unresolved_interpolation"
  | .missingConfigSource => "missing_config_source"

def ofName? (text : String) : Option Kind := all.find? fun kind => kind.name = text

end Diagnostic.Kind

structure Diagnostic where
  kind : Diagnostic.Kind
  path : String
  constraint : String
  message : String
  value : Option String := none
  position : Option Span := none
deriving DecidableEq, Repr

namespace Diagnostic

/-- The path, the place if known, the constraint and the message. -/
def text (d : Diagnostic) : String :=
  let place :=
    match d.position with
    | some span => ":" ++ toString span.start.line ++ ":" ++ toString span.start.column
    | none => ""
  d.path ++ place ++ " [" ++ d.constraint ++ "] " ++ d.message

/-- One diagnostic a line. -/
def report (ds : List Diagnostic) : String := "\n".intercalate (ds.map text)

def hasKind (kind : Kind) (ds : List Diagnostic) : Bool := ds.any fun d => d.kind = kind

end Diagnostic

/-! ## Failures -/

/-- Why an operation gave no result. -/
inductive Failure where
  | invalidSlug (slug description : String)
  | invalid (diagnostics : List Diagnostic)
  | missingConfigSource (path : String)
  | unreadable (path : String)
  | malformedDocument
  | badConfiguration (message : String)
  | malformedData
deriving DecidableEq, Repr

namespace Failure

/-- The name of the kind of failure. -/
def name : Failure → String
  | .invalidSlug .. => "invalid_slug"
  | .invalid _ => "validation"
  | .missingConfigSource _ => "missing_config_source"
  | .unreadable _ => "io"
  | .malformedDocument => "parse"
  | .badConfiguration _ => "config"
  | .malformedData => "serialization"

def message : Failure → String
  | .invalidSlug slug description => "invalid slug \"" ++ slug ++ "\": " ++ description
  | .invalid ds => Diagnostic.report ds
  | .missingConfigSource path => "no component config found at " ++ path
  | .unreadable path => "I/O error at " ++ path
  | .malformedDocument => "failed to parse document"
  | .badConfiguration message => "invalid configuration: " ++ message
  | .malformedData => "serialization error"

end Failure

/-- `value` unless there is a diagnostic. -/
def unlessInvalid {α : Type} (ds : List Diagnostic) (value : α) : Except Failure α :=
  if ds.isEmpty then .ok value else .error (.invalid ds)

end Manifest
