import Manifest.Delimiters
/-!
# The shorthand for interfaces of a component

A component passes an interface of one of its resources on by its address
alone: an expression that ends in `.url`. The target, what stands before
`.url`, is the longest text without blanks that leaves an end to the
expression, so that it may itself hold delimiters.
-/

namespace Manifest.UrlShorthand

/-- The text without blanks at its start, and then with one more of them each
time. -/
def afterBlanks : List Char → List (List Char)
  | [] => [[]]
  | c :: cs => if Text.isBlank c then afterBlanks cs ++ [c :: cs] else [c :: cs]

/-- Is the text a closing delimiter with blanks around it? -/
def isEnd (d : Delimiters) (cs : List Char) : Bool :=
  (afterBlanks cs).any fun cs =>
    match Text.dropStart? d.closing.toList cs with
    | some rest => rest.all Text.isBlank
    | none => false

/-- Does the expression end here, behind its target? -/
def endsTarget (d : Delimiters) (cs : List Char) : Bool :=
  match Text.dropStart? ['.', 'u', 'r', 'l'] cs with
  | some rest => isEnd d rest
  | none => false

/-- The longest target at the start of the text. -/
def longestTarget? (d : Delimiters) : List Char → Option (List Char)
  | [] => none
  | c :: cs =>
    if Text.isBlank c then none
    else
      match longestTarget? d cs with
      | some target => some (c :: target)
      | none => if endsTarget d cs then some [c] else none

/-- The target of a shorthand. -/
def target? (d : Delimiters) (text : String) : Option String :=
  (afterBlanks text.toList).findSome? fun cs => do
    let inside ← Text.dropStart? d.opening.toList cs
    let target ← longestTarget? d (Text.trimLeft inside)
    pure (String.ofList target)

/-- The expression for another field of a target. -/
def field (d : Delimiters) (target name : String) : String :=
  d.opening ++ " " ++ target ++ "." ++ name ++ " " ++ d.closing

end Manifest.UrlShorthand
