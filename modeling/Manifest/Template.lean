import Manifest.Delimiters
import Manifest.ReferencePath
/-!
# Templates

A template is a text with expressions in it. An opening delimiter behind a
dollar opens nothing and stays in the text. The segments of a template
together are its source.
-/

namespace Manifest.Template

/-- An expression as it is written, and the path that it refers to. -/
structure Expression where
  raw : List Char
  path : List String
deriving DecidableEq, Repr

namespace Expression

/-- The first key of the path. -/
def root (e : Expression) : String := e.path.headD ""

def dotted (e : Expression) : String := ReferencePath.text e.path

end Expression

inductive Segment where
  | text (cs : List Char)
  | expression (e : Expression)
deriving DecidableEq, Repr

/-- Why a text is no template, and at which byte the expression begins. -/
inductive Fault where
  | unclosed (offset : Nat) (closing : String)
  | malformedPath (offset : Nat) (body : List Char)
deriving DecidableEq, Repr

namespace Fault

def offset : Fault → Nat
  | .unclosed offset _ => offset
  | .malformedPath offset _ => offset

def message : Fault → String
  | .unclosed _ closing => "unterminated expression, expected \"" ++ closing ++ "\""
  | .malformedPath _ body => ReferencePath.malformed body

end Fault

/-! ## Reading -/

/-- Puts text in front of the segments. -/
def addText (cs : List Char) : List Segment → List Segment
  | .text more :: rest => .text (cs ++ more) :: rest
  | rest => .text cs :: rest

/-- The segments of a text that stands at a byte of the source, behind the
character `last`. -/
def segmentsFrom (d : Delimiters) (offset : Nat) (last : Option Char) (cs : List Char) :
    Except Fault (List Segment) :=
  match cs with
  | [] => .ok []
  | c :: rest =>
    match _h : d.afterOpening? (c :: rest) with
    | none => (segmentsFrom d (offset + c.utf8Size) (some c) rest).map (addText [c])
    | some body =>
      let opening := d.opening.toList
      if last = some '$' then
        (segmentsFrom d (offset + Text.byteLength opening) opening.getLast? body).map
          (addText opening)
      else
        match _hc : d.closing? body with
        | none => .error (.unclosed offset d.closing)
        | some (inside, after) =>
          match ReferencePath.read? inside with
          | none => .error (.malformedPath offset inside)
          | some path =>
            let raw := d.enclose inside
            (segmentsFrom d (offset + Text.byteLength raw) raw.getLast? after).map
              (.expression ⟨raw, path⟩ :: ·)
termination_by cs.length
decreasing_by
  · simp
  · exact Delimiters.afterOpening?_shorter _h
  · exact Nat.lt_of_le_of_lt (Delimiters.closing?_not_longer _hc)
      (Delimiters.afterOpening?_shorter _h)

/-- Reads a text as a template. -/
def read (d : Delimiters) (text : String) : Except Fault (List Segment) :=
  segmentsFrom d 0 none text.toList

end Manifest.Template
