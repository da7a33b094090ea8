import Manifest.Json
import Manifest.Text.Blank
import Manifest.Yaml.Scalar
/-!
# Writing YAML

Values are written in block style. A nested mapping is indented by two
blanks, a list in a mapping stands at the key itself, and empty collections
are written in brackets. A text is written plain where it would be read back
as the same text, and in single quotes where it would not. A text of several
lines is a literal block. Only a text that neither can hold, for its control
characters or the blanks at the ends of its lines, is in double quotes.
-/

namespace Manifest.Yaml.Printer

/-! ## Characters -/

def isBreak (c : Char) : Bool :=
  c = '\n' || c = '\r' || c = '\x85' || c = '\u2028' || c = '\u2029'

/-- May the character stand in a text that is not in double quotes? -/
def isPrintable (c : Char) : Bool :=
  let n := c.toNat
  n == 0x0A || (0x20 ≤ n && n ≤ 0x7E) || (0xA0 ≤ n && n ≤ 0xD7FF)
    || (0xE000 ≤ n && n ≤ 0xFFFD && n != 0xFEFF) || 0x10000 ≤ n

/-- Is there a blank, or nothing? -/
def isGap : Option Char → Bool
  | none => true
  | some c => c = ' ' || c = '\t' || c = '\x00' || isBreak c

def isSpaceOrBreak (c : Char) : Bool := c = ' ' || isBreak c

/-! ## Styles -/

/-- Characters that mean something at the start of a text. -/
def indicators : List Char := "#,[]\x7b\x7d&*!|>'\"%@`".toList

/-- May plain text begin so? -/
def opensPlain : List Char → Bool
  | [] => false
  | '-' :: '-' :: '-' :: _ => false
  | '.' :: '.' :: '.' :: _ => false
  | c :: rest =>
    !indicators.contains c && !((c = '?' || c = ':' || c = '-') && isGap rest.head?)

/-- Is there no mark of an entry and none of a comment in the text behind
`last`? -/
def staysPlain (last : Char) : List Char → Bool
  | [] => true
  | c :: rest =>
    !(c = ':' && isGap rest.head?) && !(c = '#' && isGap (some last)) && staysPlain c rest

/-- Can a text of one line be written as it is? -/
def isPlain (cs : List Char) : Bool :=
  match cs with
  | [] => false
  | c :: rest =>
    opensPlain cs && staysPlain c rest && cs.all (fun c => isPrintable c && !isBreak c)
      && !isSpaceOrBreak c && !(cs.getLast?.any isSpaceOrBreak)

/-- Words that some readers take for truth values. -/
def truthWords : List String :=
  ["y", "Y", "yes", "Yes", "YES", "n", "N", "no", "No", "NO", "on", "On", "ON", "off", "Off",
    "OFF"]

/-- Would the plain text be read as something else than a text? -/
def isAmbiguous (text : String) : Bool :=
  truthWords.contains text || isZeroPadded text.toList
    || match ofPlain? text with
      | some (.string _) => false
      | _ => true

/-- Does a space stand directly before the end of a line, or of the text? -/
def hasTrailingSpace : List Char → Bool
  | [] => false
  | [c] => c = ' '
  | c :: next :: rest => (c = ' ' && isBreak next) || hasTrailingSpace (next :: rest)

/-- Can a text of several lines be a literal block? -/
def isLiteral (cs : List Char) : Bool := cs.all isPrintable && !hasTrailingSpace cs

/-! ## Quotes -/

def singleQuoted (cs : List Char) : List Char :=
  '\'' :: cs.flatMap (fun c => if c = '\'' then ['\'', '\''] else [c]) ++ ['\'']

/-- The character behind a backslash, for those that have one. -/
def escapes : List (Char × Char) :=
  [('\x00', '0'), ('\x07', 'a'), ('\x08', 'b'), ('\t', 't'), ('\n', 'n'), ('\x0b', 'v'),
    ('\x0c', 'f'), ('\r', 'r'), ('\x1b', 'e'), ('"', '"'), ('\\', '\\'), ('\x85', 'N'),
    ('\xa0', '_'), ('\u2028', 'L'), ('\u2029', 'P')]

/-- A number in hexadecimal digits of a fixed width. -/
def hexDigits (width n : Nat) : List Char :=
  let digits := (Nat.toDigits 16 n).map Char.toUpper
  List.replicate (width - digits.length) '0' ++ digits

def escaped (c : Char) : List Char :=
  if isPrintable c && !isBreak c && c ≠ '"' && c ≠ '\\' then [c]
  else
    match escapes.lookup c with
    | some mark => ['\\', mark]
    | none =>
      let n := c.toNat
      if n ≤ 0xFF then '\\' :: 'x' :: hexDigits 2 n
      else if n ≤ 0xFFFF then '\\' :: 'u' :: hexDigits 4 n
      else '\\' :: 'U' :: hexDigits 8 n

def doubleQuoted (cs : List Char) : List Char := '"' :: cs.flatMap escaped ++ ['"']

/-! ## Texts -/

/-- A text on one line. -/
def inline (text : String) : String :=
  let cs := text.toList
  if !isAmbiguous text && isPlain cs then text
  else String.ofList (if cs.all isPrintable then singleQuoted cs else doubleQuoted cs)

/-- The head of a literal block: whether its first line is indented or empty,
and what happens to the line breaks at its end. -/
def literalHead (cs : List Char) : String :=
  let indent := if cs.head?.any isSpaceOrBreak then "2" else ""
  let chomp :=
    match cs.reverse with
    | ['\n'] => "+"
    | '\n' :: '\n' :: _ => "+"
    | '\n' :: _ => ""
    | _ => "-"
  "|" ++ indent ++ chomp

/-- The lines of a literal block, which ends its last line itself. -/
def literalLines (cs : List Char) : List String :=
  let lines := Text.splitOn '\n' cs
  (if cs.getLast? = some '\n' then lines.dropLast else lines).map String.ofList

/-- The lines of a text. -/
def textLines (text : String) : List String :=
  let cs := text.toList
  if !cs.contains '\n' then [inline text]
  else if isLiteral cs then literalHead cs :: literalLines cs
  else [String.ofList (doubleQuoted cs)]

/-- Longer keys, and those of several lines, get a mark of their own. -/
def isSimpleKey (key : String) : Bool :=
  !key.toList.any isBreak && key.utf8ByteSize ≤ 128

/-! ## Values -/

def indented (lines : List String) : List String :=
  lines.map fun line => if line.isEmpty then line else "  " ++ line

/-- Lines behind a mark; all but the first are indented. -/
def behind (mark : String) : List String → List String
  | [] => []
  | line :: rest => (mark ++ line) :: indented rest

/-- A member, given the lines of its value. -/
def member (key : String) (value : Json) (lines : List String) : List String :=
  if !isSimpleKey key then behind "? " (textLines key) ++ behind ": " lines
  else
    match value with
    | .array (_ :: _) => (inline key ++ ":") :: lines
    | .object (_ :: _) => (inline key ++ ":") :: indented lines
    | _ => behind (inline key ++ ": ") lines

mutual

/-- The lines of a value. The first one may stand behind a mark. -/
def valueLines : Json → List String
  | .null => ["null"]
  | .bool b => [toString b]
  | .int i => [toString i]
  | .float f => [floatText f]
  | .string s => textLines s
  | .array [] => ["[]"]
  | .array items => itemLines items
  | .object [] => ["\x7b\x7d"]
  | .object members => memberLines members

def itemLines : List Json → List String
  | [] => []
  | item :: rest => behind "- " (valueLines item) ++ itemLines rest

def memberLines : Json.Members → List String
  | [] => []
  | (k, v) :: rest => member k v (valueLines v) ++ memberLines rest

end

/-- A document that holds one value. -/
def document (value : Json) : String :=
  String.join ((valueLines value).map (· ++ "\n"))

end Manifest.Yaml.Printer
