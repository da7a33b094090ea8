import Manifest.Text.Blank
/-!
# Paths

Paths are texts with slashes between names. They are joined and cut as they
are written; only blank steps (`//` and `/.`) at a cut disappear.
-/

namespace Manifest.Path

def isAbsolute (path : String) : Bool := path.startsWith "/"

/-- `target` seen from `base`; an absolute target stands for itself. -/
def join (base target : String) : String :=
  if isAbsolute target || base.isEmpty then target
  else if base.endsWith "/" then base ++ target
  else base ++ "/" ++ target

/-- A reversed path without slashes and blank steps at its end. A lone root
and a leading period stay. -/
def dropBlankSteps : List Char → List Char
  | ['/'] => ['/']
  | '/' :: rest => dropBlankSteps rest
  | '.' :: '/' :: rest => dropBlankSteps ('/' :: rest)
  | path => path

/-- The path of the directory that holds the last step, if there is one. -/
def parent? (path : String) : Option String :=
  match dropBlankSteps path.toList.reverse with
  | [] => none
  | ['/'] => none
  | reversed =>
    let above := reversed.dropWhile (· ≠ '/')
    some (String.ofList (dropBlankSteps above).reverse)

/-- The steps of a path between its slashes. -/
def steps (path : String) : List String :=
  (Text.splitOn '/' path.toList).map String.ofList

end Manifest.Path
