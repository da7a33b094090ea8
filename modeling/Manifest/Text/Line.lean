/-!
# Lines

A line ends at a line feed; a carriage return directly before it belongs
to the line end. The last line needs no end, and a text that closes its
last line has no further, empty one.
-/

namespace Manifest.Text

/-- Without one carriage return at the end. -/
def dropReturn (line : List Char) : List Char :=
  match line.reverse with
  | '\r' :: rest => rest.reverse
  | _ => line

/-- The lines of a text, without their ends. -/
def lines (cs : List Char) : List (List Char) := go [] cs
where
  /-- `line` holds the characters of the open line, last one first. -/
  go (line : List Char) : List Char → List (List Char)
    | [] => if line.isEmpty then [] else [line.reverse]
    | '\n' :: cs => dropReturn line.reverse :: go [] cs
    | c :: cs => go (c :: line) cs

end Manifest.Text
