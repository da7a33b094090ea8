/-!
# Tokens of a document

The shape of a block document is in its indentation. Tokens make it explicit:
a collection starts and ends with a token of its own, and a key written
before its colon is announced by a `key` token in front of it.
-/

namespace Manifest.Yaml

/-- How a scalar is written. -/
inductive ScalarStyle where
  | plain
  | singleQuoted
  | doubleQuoted
  | literal
  | folded
deriving DecidableEq, Repr

inductive Token where
  | version (major minor : Nat)
  | tagHandle (handle expansion : String)
  | documentStart
  | documentEnd
  | blockSequenceStart
  | blockMappingStart
  | blockEnd
  | flowSequenceStart
  | flowSequenceEnd
  | flowMappingStart
  | flowMappingEnd
  | blockEntry
  | flowEntry
  | key
  | value
  | alias (name : String)
  | anchor (name : String)
  | tag (handle suffix : String)
  | scalar (text : String) (style : ScalarStyle)
deriving DecidableEq, Repr

/-! ## Characters -/

def isBlank (c : Char) : Bool := c = ' ' || c = '\t'

/-- Line feed, carriage return, next line, and the two Unicode separators. -/
def isBreak (c : Char) : Bool :=
  c = '\n' || c = '\r' || c.toNat = 0x85 || c.toNat = 0x2028 || c.toNat = 0x2029

/-- Is the text at an end, a blank or a line break? -/
def endsWord : List Char → Bool
  | [] => true
  | c :: _ => isBlank c || isBreak c

def isNameChar (c : Char) : Bool := c.isAlphanum || c = '_' || c = '-'

def isFlowIndicator (c : Char) : Bool :=
  c = ',' || c = '[' || c = ']' || c = '{' || c = '}'

/-- The characters that a document may hold. -/
def isAllowed (c : Char) : Bool :=
  let n := c.toNat
  n = 9 || n = 10 || n = 13 || (0x20 ≤ n && n ≤ 0x7E) || n = 0x85
    || (0xA0 ≤ n && n ≤ 0xFFFD) || 0x10000 ≤ n

/-! ## Cursors -/

/-- A place in the text: what is left of it, and how far along it is. -/
structure Cursor where
  rest : List Char
  index : Nat := 0
  line : Nat := 0
  column : Nat := 0

namespace Cursor

/-- Steps over `n` characters of one line. -/
def skip (c : Cursor) (n : Nat) : Cursor :=
  { c with rest := c.rest.drop n, index := c.index + n, column := c.column + n }

/-- Steps to the first character without the property and gives what lies
between; the property holds of no line break. -/
def span (c : Cursor) (p : Char → Bool) : List Char × Cursor :=
  let cs := c.rest.takeWhile p
  (cs, c.skip cs.length)

/-- Steps over a line break, if one is here. The break is a line feed, or a
Unicode separator as it stands. -/
def lineBreak? (c : Cursor) : Option (Char × Cursor) :=
  let next (width : Nat) : Cursor :=
    { rest := c.rest.drop width, index := c.index + width, line := c.line + 1, column := 0 }
  match c.rest with
  | '\r' :: '\n' :: _ => some ('\n', next 2)
  | ch :: _ =>
    if isBreak ch then
      some (if ch.toNat = 0x2028 || ch.toNat = 0x2029 then ch else '\n', next 1)
    else none
  | [] => none

/-- Steps over a comment, up to the end of its line. -/
def skipComment (c : Cursor) : Cursor :=
  if c.rest.head? = some '#' then (c.span fun ch => !isBreak ch).2 else c

/-- Is there a line of three dashes or periods here, or one that starts with
them and a blank? -/
def atDocumentMarker (c : Cursor) : Bool :=
  c.column = 0 &&
    match c.rest with
    | '-' :: '-' :: '-' :: rest => endsWord rest
    | '.' :: '.' :: '.' :: rest => endsWord rest
    | _ => false

end Cursor

/-! ## Folding -/

/-- The blanks and line breaks between two words of a scalar. -/
structure Gap where
  blanks : List Char := []
  broken : Bool := false
  firstBreak : Option Char := none
  moreBreaks : List Char := []

namespace Gap

/-- A gap without line breaks stands for itself; a single line feed becomes
a blank and is dropped before further breaks. -/
def text (g : Gap) : List Char :=
  if g.broken then
    match g.firstBreak with
    | some '\n' => if g.moreBreaks.isEmpty then [' '] else g.moreBreaks
    | some c => c :: g.moreBreaks
    | none => g.moreBreaks
  else g.blanks

def addBreak (g : Gap) (c : Char) : Gap :=
  if g.broken then { g with moreBreaks := g.moreBreaks ++ [c] }
  else { broken := true, firstBreak := some c }

/-- Reads blanks and breaks. A tab in front of column `margin` of a
continuation line is an error. -/
def scan? (margin : Nat) : (fuel : Nat) → Gap → Cursor → Option (Gap × Cursor)
  | 0, _, _ => none
  | fuel + 1, g, c =>
    match c.lineBreak? with
    | some (ch, next) => scan? margin fuel (g.addBreak ch) next
    | none =>
      match c.rest with
      | ch :: _ =>
        if !isBlank ch then some (g, c)
        else if g.broken && c.column < margin && ch = '\t' then none
        else
          scan? margin fuel (if g.broken then g else { g with blanks := g.blanks ++ [ch] })
            (c.skip 1)
      | [] => some (g, c)

end Gap

end Manifest.Yaml
