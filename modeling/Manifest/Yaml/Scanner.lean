import Manifest.Yaml.Quoted
import Manifest.Yaml.Block
/-!
# Scanning a document into tokens

Three things are remembered between tokens: the columns of the open block
collections, the places where a scalar might turn out to be a key, one per
bracket depth, and whether a key may start here. When a colon follows such a
place, the `key` token is put in front of the token that stood there, and a
mapping is opened if its column is new.

Each step reads at least one character, so the number of characters bounds
the number of steps.
-/

namespace Manifest.Yaml

/-- A token that may turn out to be a key: its number and where it began. A
required one stands at the column of the open mapping and has to be a key. -/
structure KeyCandidate where
  number : Nat
  index : Nat
  line : Nat
  column : Nat
  required : Bool

structure Scanner where
  cursor : Cursor
  /-- The tokens so far, last one first. -/
  tokens : List Token := []
  /-- Columns of the open block collections, innermost first. -/
  columns : List Nat := []
  /-- The candidate at each bracket depth, innermost first. -/
  candidates : List (Option KeyCandidate) := [none]
  keyAllowed : Bool := true

namespace Scanner

def inFlow (s : Scanner) : Bool := 1 < s.candidates.length

def push (s : Scanner) (t : Token) : Scanner := { s with tokens := t :: s.tokens }

def moveTo (s : Scanner) (c : Cursor) : Scanner := { s with cursor := c }

def skip (s : Scanner) (n : Nat) : Scanner := s.moveTo (s.cursor.skip n)

def allowKey (s : Scanner) (allowed : Bool) : Scanner := { s with keyAllowed := allowed }

/-- Puts a token in front of the token with the given number. -/
def insertAt (s : Scanner) (number : Nat) (t : Token) : Scanner :=
  { s with tokens := s.tokens.insertIdx (s.tokens.length - number) t }

/-! ## Indentation -/

/-- Opens a block collection if the column lies beyond the open ones. -/
def openAt (s : Scanner) (column number : Nat) (t : Token) : Scanner :=
  if s.inFlow || s.columns.head?.any (column ≤ ·) then s
  else { s.insertAt number t with columns := column :: s.columns }

def openHere (s : Scanner) (t : Token) : Scanner :=
  s.openAt s.cursor.column s.tokens.length t

/-- Closes the block collections beyond `column`, or all. -/
def closeTo (s : Scanner) (column : Option Nat) : Scanner :=
  if s.inFlow then s
  else
    let beyond (c : Nat) : Bool := column.all (· < c)
    let closed := (s.columns.takeWhile beyond).length
    { s with
      tokens := List.replicate closed .blockEnd ++ s.tokens
      columns := s.columns.drop closed }

/-! ## Key candidates -/

/-- A key stands on one line and takes at most 1024 characters. -/
def isStale (c : Cursor) (k : KeyCandidate) : Bool :=
  k.line < c.line || k.index + 1024 < c.index

/-- Forgets the candidates that the cursor has left behind; a required one
must not be among them. -/
def dropStale? (s : Scanner) : Option Scanner := do
  let step (k : Option KeyCandidate) : Option (Option KeyCandidate) :=
    match k with
    | some k =>
      if !isStale s.cursor k then some (some k)
      else if k.required then none
      else some none
    | none => some none
  pure { s with candidates := ← s.candidates.mapM step }

def setCandidate (s : Scanner) (k : Option KeyCandidate) : Scanner :=
  { s with candidates := k :: s.candidates.drop 1 }

/-- Forgets the innermost candidate; it must not be a required one. -/
def dropCandidate? (s : Scanner) : Option Scanner :=
  match s.candidates with
  | some k :: _ => if k.required then none else some (s.setCandidate none)
  | _ => some s

/-- Makes the next token a candidate if a key may start here. -/
def markCandidate? (s : Scanner) : Option Scanner :=
  if !s.keyAllowed then some s
  else do
    let c := s.cursor
    let required := !s.inFlow && s.columns.head? = some c.column
    pure ((← s.dropCandidate?).setCandidate
      (some ⟨s.tokens.length, c.index, c.line, c.column, required⟩))

/-! ## Blanks and comments -/

/-- Steps over a byte order mark, which may stand at the start of a line and
takes up a column of it. -/
def skipMark (c : Cursor) : Cursor :=
  if c.column = 0 && c.rest.head?.any (·.toNat = 0xFEFF) then c.skip 1 else c

/-- Steps to the next token. A tab separates tokens only where no key may
start; a line break outside brackets lets one start. -/
def skipBlanks : (fuel : Nat) → Scanner → Scanner
  | 0, s => s
  | fuel + 1, s =>
    let separates (ch : Char) : Bool := ch = ' ' || (ch = '\t' && (s.inFlow || !s.keyAllowed))
    let c := ((skipMark s.cursor).span separates).2.skipComment
    match c.lineBreak? with
    | some (_, next) =>
      skipBlanks fuel ((s.moveTo next).allowKey (s.inFlow.not || s.keyAllowed))
    | none => s.moveTo c

/-! ## Tokens -/

/-- One of the tokens that end a candidate, `width` characters wide. -/
def indicator? (s : Scanner) (t : Token) (width : Nat) (keyAllowed : Bool) : Option Scanner := do
  pure (((← s.dropCandidate?).push t).skip width |>.allowKey keyAllowed)

def documentMarker? (s : Scanner) (t : Token) : Option Scanner :=
  (s.closeTo none).indicator? t 3 false

def openFlow? (s : Scanner) (t : Token) : Option Scanner := do
  let s ← s.markCandidate?
  pure (({ s with candidates := none :: s.candidates }.push t).skip 1 |>.allowKey true)

def closeFlow? (s : Scanner) (t : Token) : Option Scanner := do
  let s ← s.dropCandidate?
  let outer := s.candidates.drop 1
  let s := if outer.isEmpty then s else { s with candidates := outer }
  pure ((s.push t).skip 1 |>.allowKey false)

def blockEntry? (s : Scanner) : Option Scanner :=
  if s.inFlow then s.indicator? .blockEntry 1 true
  else if !s.keyAllowed then none
  else (s.openHere .blockSequenceStart).indicator? .blockEntry 1 true

def explicitKey? (s : Scanner) : Option Scanner :=
  if s.inFlow then s.indicator? .key 1 false
  else if !s.keyAllowed then none
  else (s.openHere .blockMappingStart).indicator? .key 1 true

/-- A colon: the candidate becomes a key, or the key is empty or explicit. -/
def value? (s : Scanner) : Option Scanner :=
  match s.candidates with
  | some k :: _ =>
    let s := (s.insertAt k.number .key).openAt k.column k.number .blockMappingStart
    some (((s.setCandidate none).push .value).skip 1 |>.allowKey false)
  | _ =>
    if s.inFlow then some ((s.push .value).skip 1 |>.allowKey false)
    else if !s.keyAllowed then none
    else some (((s.openHere .blockMappingStart).push .value).skip 1 |>.allowKey true)

/-- A token that may be a key, read by `scan`. -/
def word? (s : Scanner) (scan : Cursor → Option (Token × Cursor)) : Option Scanner := do
  let s ← s.markCandidate?
  let (t, c) ← scan s.cursor
  pure ((s.moveTo c).push t |>.allowKey false)

/-- The name of an anchor or alias. -/
def name? (make : String → Token) (c : Cursor) : Option (Token × Cursor) :=
  let (name, next) := (c.skip 1).span isNameChar
  let ended := endsWord next.rest || next.rest.head?.any fun ch => "?:,]\x7d%@`".toList.contains ch
  if name.isEmpty || !ended then none else some (make (String.ofList name), next)

/-! ### Tags -/

def isUriChar (verbatim : Bool) (c : Char) : Bool :=
  isNameChar c || ";/?:@&=+$.!~*'()".toList.contains c
    || (verbatim && (c = ',' || c = '[' || c = ']'))

/-- The bytes of a run of percent escapes as one character. -/
def percentChar? (cs : List Char) : Option (Char × List Char) := do
  let byte (cs : List Char) : Option (Nat × List Char) :=
    match cs with
    | '%' :: rest => (hexValue? 2 rest).map (·, rest.drop 2)
    | _ => none
  let (first, rest) ← byte cs
  let (start, more) ←
    if first < 0x80 then some (first, 0)
    else if 0xC0 ≤ first && first < 0xE0 then some (first % 32, 1)
    else if 0xE0 ≤ first && first < 0xF0 then some (first % 16, 2)
    else if 0xF0 ≤ first && first < 0xF8 then some (first % 8, 3)
    else none
  let (n, rest) ← (List.range more).foldlM (fun (n, rest) _ => do
    let (b, rest) ← byte rest
    if 0x80 ≤ b && b < 0xC0 then pure (n * 64 + b % 64, rest) else none) (start, rest)
  pure (Char.ofNat n, rest)

/-- Reads the characters of a tag. -/
def uri? (verbatim : Bool) : (fuel : Nat) → (done : List Char) → Cursor →
    Option (List Char × Cursor)
  | 0, done, c => some (done.reverse, c)
  | fuel + 1, done, c =>
    match c.rest with
    | '%' :: _ => do
      let (ch, rest) ← percentChar? c.rest
      uri? verbatim fuel (ch :: done) (c.skip (c.rest.length - rest.length))
    | ch :: _ =>
      if isUriChar verbatim ch then uri? verbatim fuel (ch :: done) (c.skip 1)
      else some (done.reverse, c)
    | [] => some (done.reverse, c)

/-- The handle of a tag, `!` up to a second `!` if there is one. -/
def handle (c : Cursor) : List Char × Cursor :=
  let (letters, next) := (c.skip 1).span isNameChar
  if next.rest.head? = some '!' then ('!' :: letters ++ ['!'], next.skip 1)
  else ('!' :: letters, next)

/-- A verbatim tag, a tag with a handle, or a local one; a lone `!` is a tag
without a handle. -/
def tag? (inFlow : Bool) (c : Cursor) : Option (Token × Cursor) := do
  let fuel := c.rest.length + 1
  let (t, c) ←
    match c.rest with
    | '!' :: '<' :: _ => do
      let (suffix, next) ← uri? true fuel [] (c.skip 2)
      if suffix.isEmpty || next.rest.head? ≠ some '>' then none
      else pure (Token.tag "" (String.ofList suffix), next.skip 1)
    | _ =>
      let (start, next) := handle c
      if 1 < start.length && start.getLast? = some '!' then do
        let (suffix, next) ← uri? false fuel [] next
        if suffix.isEmpty then none
        else pure (Token.tag (String.ofList start) (String.ofList suffix), next)
      else do
        let (suffix, next) ← uri? false fuel start.tail.reverse next
        pure (if suffix.isEmpty then Token.tag "" "!" else Token.tag "!" (String.ofList suffix),
          next)
  if endsWord c.rest || (inFlow && c.rest.head? = some ',') then pure (t, c) else none

/-! ### Directives -/

/-- A version number of at most nine digits. -/
def versionNumber? (c : Cursor) : Option (Nat × Cursor) :=
  let (digits, next) := c.span Char.isDigit
  if digits.isEmpty || 9 < digits.length then none
  else some (digits.foldl (fun n d => 10 * n + (d.toNat - '0'.toNat)) 0, next)

def versionDirective? (c : Cursor) : Option (Token × Cursor) := do
  let (_, c) := c.span isBlank
  let (major, c) ← versionNumber? c
  if c.rest.head? ≠ some '.' then none
  else
    let (minor, c) ← versionNumber? (c.skip 1)
    pure (.version major minor, c)

def handleDirective? (c : Cursor) : Option (Token × Cursor) := do
  let (_, c) := c.span isBlank
  if c.rest.head? ≠ some '!' then none
  else
    let (start, c) := handle c
    if start ≠ ['!'] && start.getLast? ≠ some '!' then none
    else if !c.rest.head?.any isBlank then none
    else
      let (_, c) := c.span isBlank
      let (expansion, c) ← uri? true (c.rest.length + 1) [] c
      if expansion.isEmpty || !endsWord c.rest then none
      else pure (.tagHandle (String.ofList start) (String.ofList expansion), c)

/-- A directive takes its line. -/
def directive? (c : Cursor) : Option (Token × Cursor) := do
  let (name, next) := (c.skip 1).span isNameChar
  let (t, next) ←
    if !endsWord next.rest then none
    else if name = "YAML".toList then versionDirective? next
    else if name = "TAG".toList then handleDirective? next
    else none
  let next := (next.span isBlank).2.skipComment
  match next.lineBreak?, next.rest with
  | some (_, next), _ => some (t, next)
  | none, [] => some (t, next)
  | none, _ => none

/-! ### Plain scalars -/

/-- Does the plain scalar end before this text? -/
def endsPlain (inFlow : Bool) : List Char → Bool
  | ':' :: rest => endsWord rest
  | ch :: _ => inFlow && isFlowIndicator ch
  | [] => true

/-- Inside brackets a colon in a plain scalar is not followed by an
indicator. -/
def badColon (inFlow : Bool) : List Char → Bool
  | ':' :: ch :: _ => inFlow && (isFlowIndicator ch || ch = '?')
  | _ => false

/-- Reads a plain scalar. `text` is what is read, last character first, and
`gap` what lies behind it; the gap counts only if more text follows. -/
def plainBody? (inFlow : Bool) (margin : Nat) : (fuel : Nat) → (text : List Char) →
    (gap : Gap) → Cursor → Option (List Char × Gap × Cursor)
  | 0, _, _, _ => none
  | fuel + 1, text, gap, c =>
    match c.rest with
    | [] => some (text.reverse, gap, c)
    | ch :: _ =>
      if isBlank ch || isBreak ch then do
        let (gap, next) ← gap.scan? margin (c.rest.length + 1) c
        if (!inFlow && next.column < margin) || next.atDocumentMarker
            || next.rest.head? = some '#' then
          pure (text.reverse, gap, next)
        else plainBody? inFlow margin fuel text gap next
      else if badColon inFlow c.rest then none
      else if endsPlain inFlow c.rest then some (text.reverse, gap, c)
      else plainBody? inFlow margin fuel (ch :: (gap.text.reverse ++ text)) {} (c.skip 1)

/-- A plain scalar that runs over a line end lets a key start behind it. -/
def plain? (s : Scanner) : Option Scanner := do
  let s ← s.markCandidate?
  let margin := s.columns.head?.elim 0 (· + 1)
  let c := s.cursor
  let (text, gap, next) ← plainBody? s.inFlow margin (c.rest.length + 1) [] {} c
  pure ((s.moveTo next).push (.scalar (String.ofList text) .plain) |>.allowKey gap.broken)

/-- Indicators that no plain scalar starts with. -/
def plainStoppers : List Char := ",[]\x7b\x7d#&*!|>'\"%@`".toList

/-- Can a plain scalar start here? -/
def startsPlain (inFlow : Bool) : List Char → Bool
  | [] => false
  | c :: rest =>
    if c = '-' then !rest.head?.any isBlank
    else if c = '?' || c = ':' then !inFlow && !endsWord rest
    else !isBlank c && !isBreak c && !plainStoppers.contains c

/-! ## Steps -/

def blockScalar? (s : Scanner) (folded : Bool) : Option Scanner := do
  let s ← s.dropCandidate?
  let (t, c) ← Block.scan? folded s.columns.head? s.cursor
  pure ((s.moveTo c).push t |>.allowKey true)

/-- Reads the token that starts at the cursor, which is at no blank and not
at the end. -/
def token? (s : Scanner) : Option Scanner :=
  let c := s.cursor
  match c.rest with
  | [] => some s
  | ch :: rest =>
    if c.column = 0 && ch = '%' then do
      let s ← (s.closeTo none).dropCandidate?
      let (t, c) ← directive? s.cursor
      pure ((s.moveTo c).push t |>.allowKey false)
    else if c.atDocumentMarker then
      s.documentMarker? (if ch = '-' then .documentStart else .documentEnd)
    else
      match ch with
      | '[' => s.openFlow? .flowSequenceStart
      | '{' => s.openFlow? .flowMappingStart
      | ']' => s.closeFlow? .flowSequenceEnd
      | '}' => s.closeFlow? .flowMappingEnd
      | ',' => s.indicator? .flowEntry 1 true
      | '*' => s.word? (name? .alias)
      | '&' => s.word? (name? .anchor)
      | '!' => s.word? (tag? s.inFlow)
      | '\'' => s.word? (Quoted.scan? true)
      | '"' => s.word? (Quoted.scan? false)
      | _ =>
        if ch = '-' && endsWord rest then s.blockEntry?
        else if ch = '?' && (s.inFlow || endsWord rest) then s.explicitKey?
        else if ch = ':' && (s.inFlow || endsWord rest) then s.value?
        else if ch = '|' && !s.inFlow then s.blockScalar? false
        else if ch = '>' && !s.inFlow then s.blockScalar? true
        else if startsPlain s.inFlow c.rest then s.plain?
        else none

/-- Reads tokens to the end of the text and closes what is open. -/
def run? : (fuel : Nat) → Scanner → Option (List Token)
  | 0, _ => none
  | fuel + 1, s => do
    let s := s.skipBlanks (s.cursor.rest.length + 1)
    let s ← s.dropStale?
    if s.cursor.rest.isEmpty then
      pure (← (s.closeTo none).dropCandidate?).tokens.reverse
    else run? fuel (← (s.closeTo (some s.cursor.column)).token?)

end Scanner

/-- The tokens of a text. -/
def tokens? (text : String) : Option (List Token) :=
  let cs := text.toList
  if cs.all isAllowed then Scanner.run? (cs.length + 2) { cursor := { rest := cs } } else none

end Manifest.Yaml
