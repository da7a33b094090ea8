import Manifest.Text.Blank
import Manifest.Text.Line
import Manifest.Diagnostic
/-!
# From property paths to places in the text

The keys of a path are looked up one after another, each in the block that
the previous one opens: the lines below it that are indented further. Of
several lines that declare a key the least indented one counts, the first of
those. Numbers in a path are positions in lists and have no line of their
own. The search is textual; it serves any document, also one that is no
valid one.
-/

namespace Manifest.SourceMap

/-- A line with its number, counted from one, its indentation in bytes and
the text behind it. -/
structure Line where
  number : Nat
  indent : Nat
  text : List Char
deriving DecidableEq, Repr

namespace Line

def ofText (number : Nat) (raw : List Char) : Line :=
  ⟨number, Text.byteLength (raw.takeWhile Text.isBlank), Text.trimLeft raw⟩

/-- A line that is neither empty nor a comment. -/
def isContent (l : Line) : Bool :=
  match l.text with
  | [] => false
  | c :: _ => c ≠ '#'

/-- The text behind a key, which may stand in quotes. -/
def afterKey (key text : List Char) : List (List Char) :=
  [key, '"' :: key ++ ['"'], '\'' :: key ++ ['\'']].filterMap fun written =>
    Text.dropStart? written text

/-- Does the line start with the key and a colon, as an item of a list or
not? -/
def declares (key : List Char) (l : Line) : Bool :=
  let text := (Text.dropStart? ['-', ' '] l.text).getD l.text
  (afterKey key text).any fun rest => (Text.trimLeft rest).head? = some ':'

def span (l : Line) : Span :=
  { start := ⟨l.number, l.indent + 1⟩, stop := ⟨l.number, l.indent + l.text.length⟩ }

end Line

def linesOf (source : List Char) : List Line :=
  (Text.lines source).zipIdx.map fun (raw, index) => Line.ofText (index + 1) raw

/-- A position in a list. -/
def isIndex (key : List Char) : Bool := !key.isEmpty && key.all Char.isDigit

def keysOf (path : List Char) : List (List Char) :=
  (Text.splitOn '.' path).filter fun key => !key.isEmpty && !isIndex key

/-- The first of the least indented lines. -/
def outermost? : List Line → Option Line
  | [] => none
  | l :: rest =>
    match outermost? rest with
    | some best => if best.indent < l.indent then some best else some l
    | none => some l

/-- The lines of `window` in the block of `l`. -/
def block (l : Line) (window : List Line) : List Line :=
  (window.dropWhile fun m => m.number ≤ l.number).takeWhile fun m =>
    !(m.isContent && m.indent ≤ l.indent)

/-- The line of the deepest key that can be found, the keys before it each in
the block of the one before. -/
def search : (keys : List (List Char)) → (parent : Option Nat) → (window : List Line) →
    Option Line
  | [], _, _ => none
  | key :: keys, parent, window =>
    let candidates := window.filter fun l => parent.all (· < l.indent) && l.declares key
    match outermost? candidates with
    | none => none
    | some l => (search keys (some l.indent) (block l window)).or (some l)

/-- Where the deepest key of a path that can be found is declared. -/
def locate (source path : String) : Option Span :=
  (search (keysOf path.toList) none (linesOf source.toList)).map Line.span

/-- Gives every diagnostic without a place the one of its path. -/
def annotate (source : String) (ds : List Diagnostic) : List Diagnostic :=
  ds.map fun d =>
    match d.position with
    | some _ => d
    | none => { d with position := locate source d.path }

end Manifest.SourceMap
