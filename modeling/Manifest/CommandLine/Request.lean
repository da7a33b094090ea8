import Manifest.CommandLine.Option
import Manifest.Perspective
import Manifest.Text.Numeral
/-!
# Requests

A request is one of three commands with its options, and the settings to
carry it out with. Settings and the format of logs may be named before or
behind the name of the command; of two names for the settings the one behind
it counts, and a name in the environment counts where there is none.
-/

namespace Manifest.CommandLine

inductive Format where
  | yaml
  | json
deriving DecidableEq, Repr

structure Validate where
  path : String
  perspectives : List Perspective
deriving DecidableEq, Repr

structure Render where
  path : String
  overrides : List String
  dependencies : List (String × String)
  parameters : List (String × String)
  interpolate : Bool
  format : Format
deriving DecidableEq, Repr

structure Ref where
  slug : String
  name : Option String
  instanceId : Option String
  maxLength : Option Nat
deriving DecidableEq, Repr

inductive Command where
  | validate (v : Validate)
  | render (r : Render)
  | ref (r : Ref)
deriving DecidableEq, Repr

structure Request where
  settings : Option String
  command : Command
deriving DecidableEq, Repr

/-! ## Values -/

/-- A key and a value around the first equals sign. -/
def pair? (text : String) : Option (String × String) :=
  match splitEquals text.toList with
  | (_ :: _, none) => none
  | ([], _) => none
  | (key, some value) => some (String.ofList key, String.ofList value)

def format? (text : String) : Option Format :=
  if text = "yaml" then some .yaml else if text = "json" then some .json else none

/-! ## Options -/

def isPath (text : String) : Bool := !text.isEmpty

def sharedOptions : List Known :=
  [{ name := "config", accepts := isPath },
    { name := "log-format", accepts := fun text => text = "text" || text = "json" }]

def leadingOptions : List Known :=
  { name := "version", letter := some 'V', takesValue := false, stop := some .version }
    :: sharedOptions

def validateOptions : List Known :=
  { name := "context", repeatable := true,
    accepts := fun text => (Perspective.ofName? text).isSome }
    :: sharedOptions

def renderOptions : List Known :=
  [{ name := "override", repeatable := true, accepts := isPath },
    { name := "dependency", repeatable := true, accepts := fun text => (pair? text).isSome },
    { name := "parameter", letter := some 'p', repeatable := true,
      accepts := fun text => (pair? text).isSome },
    { name := "interpolate", takesValue := false },
    { name := "format", accepts := fun text => (format? text).isSome }] ++ sharedOptions

def refOptions : List Known :=
  [{ name := "name" }, { name := "instance" },
    { name := "max-length", accepts := fun text => (Text.natural? text).isSome }]
    ++ sharedOptions

/-! ## Commands -/

/-- The path that is the one operand, the current directory if there is
none. -/
def pathOperand (given : List Item) : Except Stop String :=
  match operands given with
  | [] => .ok "."
  | [path] => if isPath path then .ok path else .error .usage
  | _ => .error .usage

def readValidate (given : List Item) : Except Stop Command := do
  pure (.validate
    { path := ← pathOperand given
      perspectives := (valuesOf "context" given).filterMap Perspective.ofName? })

def readRender (given : List Item) : Except Stop Command := do
  pure (.render
    { path := ← pathOperand given
      overrides := valuesOf "override" given
      dependencies := (valuesOf "dependency" given).filterMap pair?
      parameters := (valuesOf "parameter" given).filterMap pair?
      interpolate := hasFlag "interpolate" given
      format := ((value? "format" given).bind format?).getD .yaml })

/-- A ref has one slug, and is not given both a name and an instance. -/
def readRef (given : List Item) : Except Stop Command := do
  let name := value? "name" given
  let instanceId := value? "instance" given
  if name.isSome && instanceId.isSome then .error .usage
  else
    match operands given with
    | [slug] =>
      pure (.ref
        { slug, name, instanceId, maxLength := (value? "max-length" given).bind Text.natural? })
    | _ => .error .usage

/-- The options of a command, and how they are read. -/
def command? (name : String) : Option (List Known × (List Item → Except Stop Command)) :=
  if name = "validate" then some (validateOptions, readValidate)
  else if name = "render" then some (renderOptions, readRender)
  else if name = "ref" then some (refOptions, readRef)
  else none

/-- The name of the settings, of those before and behind the command and the
one in the environment. One that is not used still has to be a path. -/
def settingsPath (environment before behind : Option String) : Except Stop (Option String) :=
  if environment = some "" && (before.isNone || behind.isNone) then .error .usage
  else .ok (behind.or (before.or environment))

/-- Reads the arguments; `environment` names settings too. -/
def readRequest (environment : Option String) (args : List String) : Except Stop Request := do
  let (before, rest) ← options leadingOptions args.length [] args
  match rest with
  | [] => .error .usage
  | name :: rest =>
    match command? name with
    | none => .error .usage
    | some (known, read) =>
      let behind ← items known (rest.length + 1) [] rest
      let command ← read behind
      let settings ← settingsPath environment (value? "config" before) (value? "config" behind)
      pure { settings, command }

end Manifest.CommandLine
