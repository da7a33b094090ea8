import Manifest.Yaml.Token
/-!
# Block scalars

The header gives the kind (`|` keeps lines, `>` folds them), optionally the
indentation, and what happens to the line breaks at the end. The content is
every following line indented that far.
-/

namespace Manifest.Yaml.Block

/-- What happens to the breaks after the last line: one is kept, none, or
all. -/
inductive Chomping where
  | clip
  | strip
  | keep
deriving DecidableEq, Repr

structure Header where
  chomping : Chomping := .clip
  increment : Option Nat := none

def chompingOf? (c : Char) : Option Chomping :=
  if c = '+' then some .keep else if c = '-' then some .strip else none

/-- The marks after the indicator, in either order; an indentation of zero is
an error. -/
def header? (cs : List Char) : Option (Header × Nat) :=
  let digit (c : Char) : Option (Option Nat) :=
    if !c.isDigit then some none
    else if c = '0' then none
    else some (some (c.toNat - '0'.toNat))
  match cs with
  | [] => some ({}, 0)
  | c :: rest =>
    match chompingOf? c with
    | some chomping => do
      match ← rest.head?.elim (some none) digit with
      | some n => pure ({ chomping, increment := some n }, 2)
      | none => pure ({ chomping }, 1)
    | none => do
      match ← digit c with
      | some n =>
        match rest.head?.bind chompingOf? with
        | some chomping => pure ({ chomping, increment := some n }, 2)
        | none => pure ({ increment := some n }, 1)
      | none => pure ({}, 0)

/-- Reads indentation and empty lines. The margin is known, or zero while it
is still to be found; then every blank counts and the widest line sets it.
Gives the breaks, the widest column and the place after them. -/
def breaks? (margin : Nat) : (fuel widest : Nat) → (done : List Char) → Cursor →
    Option (List Char × Nat × Cursor)
  | 0, _, _, _ => none
  | fuel + 1, widest, done, c =>
    let blanks := (c.rest.takeWhile (· = ' ')).length
    let c := c.skip (if margin = 0 then blanks else min blanks (margin - c.column))
    let widest := max widest c.column
    if (margin = 0 || c.column < margin) && c.rest.head? = some '\t' then none
    else
      match c.lineBreak? with
      | some (ch, next) => breaks? margin fuel widest (done ++ [ch]) next
      | none => some (done, widest, c)

/-- The state between two lines of content. -/
structure Lines where
  text : List Char := []
  /-- The break after the last line. -/
  lastBreak : List Char := []
  /-- The breaks of the empty lines after it. -/
  emptyLines : List Char := []
  /-- Did the last line start with a blank? -/
  indented : Bool := false

/-- The text with the breaks in front of a further line. -/
def Lines.joined (folded startsBlank : Bool) (l : Lines) : List Char :=
  if folded && l.lastBreak = ['\n'] && !l.indented && !startsBlank then
    l.text ++ (if l.emptyLines.isEmpty then [' '] else l.emptyLines)
  else l.text ++ l.lastBreak ++ l.emptyLines

/-- Reads the lines at the margin. -/
def lines? (folded : Bool) (margin : Nat) : (fuel : Nat) → Lines → Cursor →
    Option (Lines × Cursor)
  | 0, _, _ => none
  | fuel + 1, l, c =>
    if c.column = margin && !c.rest.isEmpty then do
      let startsBlank := c.rest.head?.any isBlank
      let (content, c) := c.span fun ch => !isBreak ch
      let (lastBreak, c) :=
        match c.lineBreak? with
        | some (ch, next) => ([ch], next)
        | none => ([], c)
      let (emptyLines, _, c) ← breaks? margin (c.rest.length + 1) 0 [] c
      lines? folded margin fuel
        { text := l.joined folded startsBlank ++ content, lastBreak, emptyLines,
          indented := startsBlank } c
    else some (l, c)

def chomped (chomping : Chomping) (l : Lines) : List Char :=
  match chomping with
  | .strip => l.text
  | .clip => l.text ++ l.lastBreak
  | .keep => l.text ++ l.lastBreak ++ l.emptyLines

/-- The scalar whose indicator is here, inside a collection at column
`parent`, or none. -/
def scan? (folded : Bool) (parent : Option Nat) (c : Cursor) : Option (Token × Cursor) := do
  let (header, width) ← header? (c.rest.drop 1)
  let c := ((c.skip (width + 1)).span isBlank).2.skipComment
  let c ←
    match c.lineBreak?, c.rest with
    | some (_, next), _ => some next
    | none, [] => some c
    | none, _ => none
  let least := parent.elim 0 (· + 1)
  let given := header.increment.map fun n => parent.elim n (· + n)
  let (emptyLines, widest, c) ← breaks? (given.getD 0) (c.rest.length + 1) 0 [] c
  let margin := given.getD (max 1 (max widest least))
  let (l, c) ← lines? folded margin (c.rest.length + 1) { emptyLines } c
  let style := if folded then .folded else .literal
  pure (.scalar (String.ofList (chomped header.chomping l)) style, c)

end Manifest.Yaml.Block
