import Manifest.Template
import Manifest.Context
import Manifest.Json.Printer
/-!
# Interpolation

An expression stands for the value at its path in a context. The value is a
text again that may hold expressions, which stand for theirs; an expression
that would need its own value stands for none. Values are remembered in a
memo by the written form of their paths, so that each is worked out once,
failures included.

A missing path is a failure, unless it is below an ignored namespace: then
the expression stays as it is. Rendering replaces every expression of a text
that stands for a value, leaves the others as they are, and reports those.
-/

namespace Manifest.Interpolation

/-- Why an expression stands for no value. -/
inductive Fault where
  | missing (path : String)
  | circular (path : String)
  | unset (path : String)
  | notScalar (path : String)
  | malformed (fault : Template.Fault)
  /-- The value at the path holds an expression that fails. -/
  | within (path raw : String) (cause : Fault)
deriving DecidableEq, Repr

namespace Fault

def kind : Fault → Diagnostic.Kind
  | .missing _ => .unresolvedInterpolation
  | .circular _ => .circularReference
  | .unset _ => .unresolvedInterpolation
  | .notScalar _ => .schemaValidation
  | .malformed _ => .schemaValidation
  | .within _ _ cause => cause.kind

def constraint : Fault → String
  | .missing _ => "interpolation"
  | .circular _ => "circular-interpolation"
  | .unset _ => "required-parameter"
  | .notScalar _ => "non-scalar-reference"
  | .malformed _ => "interpolation-syntax"
  | .within _ _ cause => cause.constraint

def message : Fault → String
  | .missing path => "could not resolve \"" ++ path ++ "\""
  | .circular path => "\"" ++ path ++ "\" refers back to itself"
  | .unset path => "\"" ++ path ++ "\" is required but has no value"
  | .notScalar path => "\"" ++ path ++ "\" refers to an object, not a value"
  | .malformed fault => fault.message
  | .within path raw cause => "\"" ++ path ++ "\" depends on " ++ raw ++ ": " ++ cause.message

/-- The failure of a path whose text holds the failing `raw`. A circle is
reported as it is. -/
def behind (path raw : String) : Fault → Fault
  | .circular start => .circular start
  | cause => .within path raw cause

def diagnostic (path raw : String) (f : Fault) : Diagnostic :=
  { kind := f.kind, path, constraint := f.constraint, message := f.message, value := raw }

end Fault

/-- Where expressions are looked up, and how they are written. -/
structure Scope where
  context : Context
  delimiters : Delimiters := {}
  /-- Namespaces that may be missing. -/
  ignored : List String := []
  mode : Mode := .runtime

/-- A text and the failing expressions that were left in it. -/
structure Rendering where
  text : String
  faults : List (String × Fault) := []

namespace Rendering

/-- The rendered text as the value at a path. -/
def settle (path : String) (r : Rendering) : Except Fault String :=
  match r.faults with
  | [] => .ok r.text
  | (raw, fault) :: _ => .error (fault.behind path raw)

def diagnostics (path : String) (r : Rendering) : List Diagnostic :=
  r.faults.map fun (raw, fault) => fault.diagnostic path raw

end Rendering

/-- What is known of the values at paths. -/
abbrev Memo := List (String × Except Fault String)

abbrev Resolve := StateM Memo

/-! ## Rendering with a given way to evaluate -/

abbrev Evaluate := Template.Expression → Resolve (Except Fault String)

def renderSegments (evaluate : Evaluate) : List Template.Segment → Resolve Rendering
  | [] => pure ⟨"", []⟩
  | .text cs :: rest => do
    let r ← renderSegments evaluate rest
    pure ⟨String.ofList cs ++ r.text, r.faults⟩
  | .expression e :: rest => do
    let value ← evaluate e
    let r ← renderSegments evaluate rest
    match value with
    | .ok value => pure ⟨value ++ r.text, r.faults⟩
    | .error fault =>
      let raw := String.ofList e.raw
      pure ⟨raw ++ r.text, (raw, fault) :: r.faults⟩

/-- A text that is no template stays as it is and fails as a whole. -/
def renderWith (evaluate : Evaluate) (d : Delimiters) (text : String) : Resolve Rendering :=
  match Template.read d text with
  | .error fault => pure ⟨text, [(text, .malformed fault)]⟩
  | .ok segments => renderSegments evaluate segments

/-! ## Evaluation -/

/-- The value of what a path leads to, unless it is a text. -/
def plainValue (path : String) : Json → Except Fault String
  | .string s => .ok s
  | .bool b => .ok (toString b)
  | .int i => .ok (toString i)
  | .float f => .ok (Json.floatText f)
  | .null => .error (.unset path)
  | .array _ => .error (.notScalar path)
  | .object _ => .error (.notScalar path)

mutual

/-- The number of characters in the texts of a value. -/
def textSize : Json → Nat
  | .string s => s.length
  | .array items => textSizeItems items
  | .object members => textSizeMembers members
  | _ => 0

def textSizeItems : List Json → Nat
  | [] => 0
  | item :: rest => textSize item + textSizeItems rest

def textSizeMembers : Json.Members → Nat
  | [] => 0
  | (_, v) :: rest => textSize v + textSizeMembers rest

end

namespace Scope

/-- Does the expression stay as it is when its path is missing? Contexts of
dependencies may be missing as a whole where only references are checked. -/
def passesThrough (s : Scope) (e : Template.Expression) : Bool :=
  s.ignored.contains e.root
    || (s.mode = .validation && e.root = "dependencies"
      && (s.context.lookup? (e.path.take 2)).isNone)

/-- The text of a value that has to be rendered in turn. -/
def template? (s : Scope) : Json → Option String
  | .string text => if s.delimiters.opensIn text then some text else none
  | _ => none

/-- The value of an expression, within the values of the paths in
`pending`. -/
def evaluate (s : Scope) : (fuel : Nat) → (pending : List String) → Evaluate
  | 0, _, e => pure (.error (.circular e.dotted))
  | fuel + 1, pending, e => do
    let path := e.dotted
    match (← get).lookup path with
    | some known => pure known
    | none =>
      if pending.contains path then pure (.error (.circular path))
      else
        match s.context.lookup? e.path with
        | none =>
          pure (if s.passesThrough e then .ok (String.ofList e.raw) else .error (.missing path))
        | some value =>
          let result ←
            match s.template? value with
            | some text => do
              let r ← renderWith (s.evaluate fuel (path :: pending)) s.delimiters text
              pure (r.settle path)
            | none => pure (plainValue path value)
          modify fun memo => (path, result) :: memo
          pure result

/-- Paths that are pending together are all written in the context but for
the first one, and no path is pending twice. -/
def fuel (s : Scope) : Nat := textSize s.context.toJson + 2

/-! ## Rendering -/

/-- A text with its expressions replaced. -/
def render (s : Scope) (text : String) : Resolve Rendering :=
  renderWith (s.evaluate s.fuel []) s.delimiters text

/-- Renders a text at a path. -/
def renderAt (s : Scope) (path text : String) : Resolve (String × List Diagnostic) := do
  let r ← s.render text
  pure (r.text, r.diagnostics path)

mutual

/-- Renders every text in a value that holds an expression. -/
def renderValue (s : Scope) (path : String) : Json → Resolve (Json × List Diagnostic)
  | .string text =>
    if s.delimiters.opensIn text then do
      let (text, problems) ← s.renderAt path text
      pure (.string text, problems)
    else pure (.string text, [])
  | .array items => do
    let (items, problems) ← s.renderItems path 0 items
    pure (.array items, problems)
  | .object members => do
    let (members, problems) ← s.renderMembers path members
    pure (.object members, problems)
  | value => pure (value, [])

def renderItems (s : Scope) (path : String) (index : Nat) :
    List Json → Resolve (List Json × List Diagnostic)
  | [] => pure ([], [])
  | item :: rest => do
    let (item, here) ← s.renderValue (PropertyPath.item path index) item
    let (rest, later) ← s.renderItems path (index + 1) rest
    pure (item :: rest, here ++ later)

def renderMembers (s : Scope) (path : String) :
    Json.Members → Resolve (Json.Members × List Diagnostic)
  | [] => pure ([], [])
  | (k, v) :: rest => do
    let (v, here) ← s.renderValue (PropertyPath.join path k) v
    let (rest, later) ← s.renderMembers path rest
    pure ((k, v) :: rest, here ++ later)

end

/-! ## Contexts -/

/-- Renders the given texts of a context in order. -/
def resolveTexts (s : Scope) (c : Context) :
    List (List String × String) → Resolve (Context × List Diagnostic)
  | [] => pure (c, [])
  | (path, text) :: rest => do
    let (text, here) ← s.renderAt (ReferencePath.text path) text
    let (c, later) ← s.resolveTexts (c.replace path (.string text)) rest
    pure (c, here ++ later)

/-- The context with the expressions in its own texts replaced. -/
def resolve (s : Scope) : Context × List Diagnostic :=
  let texts := s.context.texts.filter fun (_, text) => s.delimiters.opensIn text
  ((s.resolveTexts s.context texts).run []).1

end Scope

end Manifest.Interpolation
