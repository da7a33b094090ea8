import Manifest.Text.Blank
/-!
# Options

The arguments of a command are options and operands. An option has a long
name, written `--name value` or `--name=value`, and may have a short one,
written `-n value`, `-nvalue` or `-n=value`. What begins with a hyphen and is
longer is never a value of its own, and behind `--` there are only operands.
An option that is not repeatable may be given once.
-/

namespace Manifest.CommandLine

/-- Why arguments are not carried out. -/
inductive Stop where
  | usage
  | version
deriving DecidableEq, Repr

/-- An option that a command knows. -/
structure Known where
  name : String
  letter : Option Char := none
  takesValue : Bool := true
  repeatable : Bool := false
  /-- Is this text a value of the option? -/
  accepts : String → Bool := fun _ => true
  /-- The option asks for this, whatever else is asked. -/
  stop : Option Stop := none

inductive Item where
  | option (name : String) (value : String)
  | flag (name : String)
  | operand (text : String)
deriving DecidableEq, Repr

namespace Item

def isNamed (name : String) : Item → Bool
  | .option n _ => n = name
  | .flag n => n = name
  | .operand _ => false

end Item

/-- The arguments read so far, and those that remain. -/
abbrev Progress := List Item × List String

/-! ## One option -/

/-- Does the argument name options? -/
def isOption (arg : String) : Bool :=
  match arg.toList with
  | '-' :: _ :: _ => true
  | _ => false

/-- The part before the first equals sign and the part behind it. -/
def splitEquals (cs : List Char) : List Char × Option (List Char) :=
  match cs.dropWhile (· ≠ '=') with
  | [] => (cs, none)
  | _ :: value => (cs.takeWhile (· ≠ '='), some value)

/-- May the option be given after `seen`? -/
def isFree (k : Known) (seen : List Item) : Bool := k.repeatable || !seen.any (Item.isNamed k.name)

def addFlag (k : Known) (seen : List Item) : Except Stop (List Item) :=
  match k.stop with
  | some stop => .error stop
  | none => if isFree k seen then .ok (seen ++ [.flag k.name]) else .error .usage

def addValue (k : Known) (value : String) (seen : List Item) : Except Stop (List Item) :=
  if k.accepts value && isFree k seen then .ok (seen ++ [.option k.name value])
  else .error .usage

/-- Takes the next argument for the value. -/
def addNext (k : Known) (seen : List Item) : List String → Except Stop Progress
  | value :: rest =>
    if isOption value then .error .usage
    else do pure (← addValue k value seen, rest)
  | [] => .error .usage

def find (known : List Known) (p : Known → Bool) : Except Stop Known :=
  match known.find? p with
  | some k => .ok k
  | none => .error .usage

/-- An option by its long name, given what follows the two hyphens. -/
def addLong (known : List Known) (seen : List Item) (cs : List Char) (rest : List String) :
    Except Stop Progress := do
  let (name, attached) := splitEquals cs
  let k ← find known fun k => k.name = String.ofList name
  match k.takesValue, attached with
  | true, some value => pure (← addValue k (String.ofList value) seen, rest)
  | true, none => addNext k seen rest
  | false, none => pure (← addFlag k seen, rest)
  | false, some _ => .error .usage

/-- A row of letters. One that takes a value takes the rest of the row, or
the next argument. -/
def addLetters (known : List Known) (seen : List Item) :
    List Char → List String → Except Stop Progress
  | [], rest => .ok (seen, rest)
  | c :: cs, rest => do
    let k ← find known fun k => k.letter = some c
    if !k.takesValue then
      addLetters known (← addFlag k seen) cs rest
    else
      match cs with
      | [] => addNext k seen rest
      | '=' :: value => pure (← addValue k (String.ofList value) seen, rest)
      | value => pure (← addValue k (String.ofList value) seen, rest)

/-! ## All arguments -/

/-- The options up to the first operand, which remains. Every step takes an
argument, so that `fuel` is their number. -/
def options (known : List Known) : (fuel : Nat) → List Item → List String → Except Stop Progress
  | 0, seen, rest => .ok (seen, rest)
  | _, seen, [] => .ok (seen, [])
  | fuel + 1, seen, arg :: rest =>
    match arg.toList with
    | ['-', '-'] => .ok (seen, arg :: rest)
    | '-' :: '-' :: cs => do
      let (seen, rest) ← addLong known seen cs rest
      options known fuel seen rest
    | '-' :: c :: cs => do
      let (seen, rest) ← addLetters known seen (c :: cs) rest
      options known fuel seen rest
    | _ => .ok (seen, arg :: rest)

/-- All options and operands. -/
def items (known : List Known) : (fuel : Nat) → List Item → List String → Except Stop (List Item)
  | 0, seen, _ => .ok seen
  | fuel + 1, seen, args => do
    match ← options known args.length seen args with
    | (seen, []) => pure seen
    | (seen, "--" :: rest) => pure (seen ++ rest.map .operand)
    | (seen, operand :: rest) => items known fuel (seen ++ [.operand operand]) rest

/-! ## Reading items -/

def operands (given : List Item) : List String :=
  given.filterMap fun
    | .operand text => some text
    | _ => none

/-- The values of an option in order. -/
def valuesOf (name : String) (given : List Item) : List String :=
  given.filterMap fun
    | .option n value => if n = name then some value else none
    | _ => none

def value? (name : String) (given : List Item) : Option String := (valuesOf name given).head?

def hasFlag (name : String) (given : List Item) : Bool := given.contains (.flag name)

end Manifest.CommandLine
