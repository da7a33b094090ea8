import Manifest.Json
import Manifest.Number.Shortest
/-!
# Writing JSON

`compact` puts no blank between tokens. `pretty` gives every item and member
a line of its own, indented by two blanks a level; an empty array or object
stays on one line.
-/

namespace Manifest.Json

def hexDigit (n : Nat) : Char := "0123456789abcdef".toList.getD n '0'

/-- A character inside a string: quotes, backslashes and controls are
escaped. -/
def escapeChar (c : Char) : List Char :=
  if c = '"' then ['\\', '"']
  else if c = '\\' then ['\\', '\\']
  else if c = '\n' then ['\\', 'n']
  else if c = '\r' then ['\\', 'r']
  else if c = '\t' then ['\\', 't']
  else if c = '\x08' then ['\\', 'b']
  else if c = '\x0c' then ['\\', 'f']
  else if c.toNat < 32 then
    ['\\', 'u', '0', '0', hexDigit (c.toNat / 16), hexDigit (c.toNat % 16)]
  else [c]

def quoted (s : String) : String :=
  String.ofList ('"' :: s.toList.flatMap escapeChar ++ ['"'])

/-- The text of a number; only finite ones have a JSON form, others are
written as null. -/
def floatText : Binary64 → String
  | .finite negative m q => Binary64.pretty negative m q
  | _ => "null"

/-- The text of a value without parts. -/
def atomText : Json → String
  | .null => "null"
  | .bool b => toString b
  | .int i => toString i
  | .float f => floatText f
  | .string s => quoted s
  | .array _ => "[]"
  | .object _ => "\x7b\x7d"

mutual

def compact : Json → String
  | .array items => "[" ++ ",".intercalate (compactItems items) ++ "]"
  | .object members => "\x7b" ++ ",".intercalate (compactMembers members) ++ "\x7d"
  | value => value.atomText

def compactItems : List Json → List String
  | [] => []
  | item :: rest => item.compact :: compactItems rest

def compactMembers : List (String × Json) → List String
  | [] => []
  | (k, v) :: rest => (quoted k ++ ":" ++ v.compact) :: compactMembers rest

end

def indentation (level : Nat) : String := String.ofList (List.replicate (2 * level) ' ')

/-- Parts on lines of their own between two brackets. -/
def bracketed (opening closing : String) (level : Nat) (parts : List String) : String :=
  if parts.isEmpty then opening ++ closing
  else
    let lineStart := "\n" ++ indentation (level + 1)
    opening ++ lineStart ++ ("," ++ lineStart).intercalate parts
      ++ "\n" ++ indentation level ++ closing

mutual

/-- The value as it stands inside `level` brackets. -/
def prettyAt (level : Nat) : Json → String
  | .array items => bracketed "[" "]" level (prettyItems (level + 1) items)
  | .object members => bracketed "\x7b" "\x7d" level (prettyMembers (level + 1) members)
  | value => value.atomText

def prettyItems (level : Nat) : List Json → List String
  | [] => []
  | item :: rest => item.prettyAt level :: prettyItems level rest

def prettyMembers (level : Nat) : List (String × Json) → List String
  | [] => []
  | (k, v) :: rest => (quoted k ++ ": " ++ v.prettyAt level) :: prettyMembers level rest

end

def pretty (value : Json) : String := value.prettyAt 0

end Manifest.Json
