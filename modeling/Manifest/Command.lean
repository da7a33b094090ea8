import Manifest.Delimiters
/-!
# Command lines

A command may be written as one line. The line is words with blanks between
them, and a word is a row of pieces: an expression, text in single or double
quotes, an escaped character, a variable, or plain text. Reading resolves
quotes and escapes; expressions stay as they are written.

A piece is never empty, so that reading ends; it fails only where a quote, an
escape or an expression is not finished. Any white space parts words here. Loops
that skip only some of it between words, those of `Command.State`, do not end
where any other stands outside of pieces.
-/

namespace Manifest.Command

/-- What a line may refer to. -/
structure Dialect where
  delimiters : Delimiters := {}
  /-- The variables that the resource declares. -/
  declared : List String := []
deriving DecidableEq, Repr

/-- The beginning of `cs`, read into a text, and the rest behind it. -/
structure Piece (cs : List Char) where
  text : List Char
  rest : List Char
  shorter : rest.length < cs.length

/-- The text from where something was missing. -/
abbrev Unfinished := List Char

/-- Two pieces in a row. -/
def Piece.append {cs : List Char} (p : Piece cs) (q : Piece p.rest) : Piece cs :=
  ⟨p.text ++ q.text, q.rest, Nat.lt_trans q.shorter p.shorter⟩

theorem length_lt_cons_cons (c d : Char) (cs : List Char) : cs.length < (c :: d :: cs).length :=
  Nat.lt_trans (Nat.lt_succ_self _) (Nat.lt_succ_self _)

/-! ## Pieces

Each is given the text behind its first character. -/

variable {c : Char}

/-- Text in single quotes. -/
def singleQuoted (cs : List Char) : Except Unfinished (Piece (c :: cs)) :=
  match h : Text.breakOn? ['\''] cs with
  | some (inside, rest) =>
    .ok ⟨inside, rest, by
      rw [Text.eq_append_of_breakOn? h]
      simp only [List.length_append, List.length_cons]
      omega⟩
  | none => .error []

/-- The character behind a backslash. -/
def escaped : (cs : List Char) → Except Unfinished (Piece (c :: cs))
  | [] => .error []
  | c :: rest => .ok ⟨[c], rest, length_lt_cons_cons _ _ _⟩

/-- A backslash in double quotes escapes itself, a quote or a dollar, and
stands for itself before any other character. -/
def escapedInQuotes : (cs : List Char) → Except Unfinished (Piece (c :: cs))
  | [] => .error []
  | c :: rest =>
    .ok ⟨if c = '"' || c = '\\' || c = '$' then [c] else ['\\', c], rest,
      length_lt_cons_cons _ _ _⟩

def isNameStart (c : Char) : Bool := c.isAlpha || c = '_'

def isNameChar (c : Char) : Bool := c.isAlphanum || c = '_'

/-- The name of a variable at the start of the text. -/
def name : List Char → List Char
  | [] => []
  | c :: cs => if isNameStart c then c :: cs.takeWhile isNameChar else []

/-- A variable behind its dollar: its name and the text as written, with or
without braces. -/
def reference? (cs : List Char) : Option (List Char × List Char) :=
  let plain := name cs
  let braced :=
    match cs with
    | '{' :: inside => name inside
    | _ => []
  if !braced.isEmpty && (cs.drop (braced.length + 1)).head? = some '}' then
    some (braced, '{' :: braced ++ ['}'])
  else if !plain.isEmpty then some (plain, plain)
  else none

/-- What stands behind a dollar. A declared variable loses its braces, any
other stays as it is, and so does a dollar alone. -/
def dollar (declared : List String) (cs : List Char) : Piece (c :: cs) :=
  match reference? cs with
  | some (name, written) =>
    let text := if declared.contains (String.ofList name) then name else written
    ⟨'$' :: text, cs.drop written.length,
      by simp only [List.length_drop, List.length_cons]; omega⟩
  | none => ⟨['$'], cs, by simp⟩

/-- Plain characters up to one of `stop` or an opening delimiter. -/
def plain (d : Delimiters) (stop : Char → Bool) : List Char → List Char × List Char
  | [] => ([], [])
  | c :: cs =>
    if stop c || (d.afterOpening? (c :: cs)).isSome then ([], c :: cs)
    else
      let (text, rest) := plain d stop cs
      (c :: text, rest)

theorem plain_not_longer (d : Delimiters) (stop : Char → Bool) (cs : List Char) :
    (plain d stop cs).2.length ≤ cs.length := by
  induction cs with
  | nil => simp [plain]
  | cons c cs ih =>
    simp only [plain]
    split
    · simp
    · simp; omega

/-- Plain text that begins with `c`, which stops nothing. -/
def run (d : Delimiters) (stop : Char → Bool) (cs : List Char) : Piece (c :: cs) :=
  ⟨c :: (plain d stop cs).1, (plain d stop cs).2,
    Nat.lt_succ_of_le (plain_not_longer d stop cs)⟩

/-- An expression, kept as it is written; `body` is the text behind its
opening delimiter. -/
def expression (d : Delimiters) {cs body : List Char} (h : d.afterOpening? cs = some body) :
    Except Unfinished (Piece cs) :=
  match hc : d.closing? body with
  | some (inside, rest) =>
    .ok ⟨d.enclose inside, rest, Nat.lt_of_le_of_lt (Delimiters.closing?_not_longer hc)
      (Delimiters.afterOpening?_shorter h)⟩
  | none => .error body

def stopsQuoted (c : Char) : Bool := c = '"' || c = '\\' || c = '$'

def stopsWord (c : Char) : Bool := Text.isBlank c || c = '\'' || stopsQuoted c

/-- A part of a text in double quotes. -/
def quotedPart (d : Dialect) (c : Char) (cs : List Char) : Except Unfinished (Piece (c :: cs)) :=
  match h : d.delimiters.afterOpening? (c :: cs) with
  | some _ => expression d.delimiters h
  | none =>
    if c = '\\' then escapedInQuotes cs
    else if c = '$' then .ok (dollar d.declared cs)
    else .ok (run d.delimiters stopsQuoted cs)

/-- A text in double quotes up to the closing one. -/
def quotedRest (d : Dialect) (cs : List Char) : Except Unfinished (Piece cs) :=
  match cs with
  | [] => .error []
  | c :: rest =>
    if c = '"' then .ok ⟨[], rest, by simp⟩
    else
      match quotedPart d c rest with
      | .error unfinished => .error unfinished
      | .ok p => (quotedRest d p.rest).map p.append
termination_by cs.length
decreasing_by exact p.shorter

/-- Text in double quotes. -/
def doubleQuoted (d : Dialect) (cs : List Char) : Except Unfinished (Piece (c :: cs)) :=
  (quotedRest d cs).map fun p => ⟨p.text, p.rest, Nat.lt_succ_of_lt p.shorter⟩

/-- A piece of a word. -/
def piece (d : Dialect) (c : Char) (cs : List Char) : Except Unfinished (Piece (c :: cs)) :=
  match h : d.delimiters.afterOpening? (c :: cs) with
  | some _ => expression d.delimiters h
  | none =>
    if c = '\'' then singleQuoted cs
    else if c = '"' then doubleQuoted d cs
    else if c = '\\' then escaped cs
    else if c = '$' then .ok (dollar d.declared cs)
    else .ok (run d.delimiters stopsWord cs)

/-! ## Words -/

/-- The words of a text, the first of which has begun with `begun`, if it has
begun at all. White space of any kind ends a word. -/
def wordsAfter (d : Dialect) (begun : Option (List Char)) (cs : List Char) :
    Except Unfinished (List (List Char)) :=
  match cs with
  | [] => .ok begun.toList
  | c :: rest =>
    if Text.isBlank c then
      (wordsAfter d none rest).map (begun.toList ++ ·)
    else
      match piece d c rest with
      | .ok p => wordsAfter d (some (begun.getD [] ++ p.text)) p.rest
      | .error unfinished => .error unfinished
termination_by cs.length
decreasing_by
  · simp
  · exact p.shorter

/-- A line that ends too early, and the byte at which, counted from one,
something was missing. -/
structure Fault where
  line : String
  column : Nat
deriving DecidableEq, Repr

def Fault.message (f : Fault) : String :=
  "unterminated quote, escape or expression at column " ++ toString f.column
    ++ " in \"" ++ f.line ++ "\""

/-- Splits a line into words, at all of its white space. The loops that split
it in steps skip spaces, tabs and ends of lines between words and nothing else:
they end with these words if all white space outside of pieces is of that kind,
and stay for ever at the first that is not (`State.ends_iff`,
`State.result_of_ended`). -/
def words (d : Dialect) (line : String) : Except Fault (List String) :=
  let cs := line.toList
  match wordsAfter d none cs with
  | .ok words => .ok (words.map String.ofList)
  | .error rest => .error ⟨line, Text.byteLength cs - Text.byteLength rest + 1⟩

end Manifest.Command
