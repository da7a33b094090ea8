import Manifest.Slug
import Manifest.Text.Blank
/-!
# Reading slugs

A text is cut at `@`, `:` and `/`, none of which can stand inside a part,
and each piece is checked by itself. A name is made of lower-case words
joined by single hyphens; a tag starts with a word character.
-/

namespace Manifest.Slug

/-! ## Parts -/

def nameLimit : Nat := 32

def tagLimit : Nat := 128

/-- Lower-case ASCII letters and digits. -/
def isNameChar (c : Char) : Bool := c.isLower || c.isDigit

/-- ASCII letters, digits and the underscore. -/
def isWordChar (c : Char) : Bool := c.isAlphanum || c = '_'

def isNameWord (word : List Char) : Bool := !word.isEmpty && word.all isNameChar

/-- Words joined by single hyphens, within the limit. -/
def isName (cs : List Char) : Bool :=
  cs.length ≤ nameLimit && (Text.splitOn '-' cs).all isNameWord

/-- A word character, then word characters, periods and hyphens, within the
limit. -/
def isTag : List Char → Bool
  | [] => false
  | c :: cs =>
    isWordChar c && cs.all (fun c => isWordChar c || c = '.' || c = '-')
      && cs.length < tagLimit

def isNameText (text : String) : Bool := isName text.toList

def isTagText (text : String) : Bool := isTag text.toList

/-! ## Pieces -/

/-- The pieces of a path of names; nothing unless each is one. -/
def names? (cs : List Char) : Option (List String) :=
  let pieces := Text.splitOn '/' cs
  if pieces.all isName then some (pieces.map String.ofList) else none

def twoNames? (cs : List Char) : Option (String × String) :=
  match names? cs with
  | some [a, b] => some (a, b)
  | _ => none

def threeNames? (cs : List Char) : Option (String × String × String) :=
  match names? cs with
  | some [a, b, c] => some (a, b, c)
  | _ => none

/-- The text before a colon and the tag behind it, the default tag if there
is no colon. -/
def tagged? (cs : List Char) : Option (List Char × String) :=
  match Text.splitOn ':' cs with
  | [before] => some (before, defaultTag)
  | [before, tag] => if isTag tag then some (before, String.ofList tag) else none
  | _ => none

/-- The tag of an interfaces slug: what stands before the suffix. -/
def interfacesTag? (cs : List Char) : Option String := do
  let tag := (← Text.dropStart? interfacesSuffix.toList.reverse cs.reverse).reverse
  if isTag tag then some (String.ofList tag) else none

/-! ## Whole slugs -/

def serviceVersion? (cs : List Char) : Option Slug := do
  let (path, tag) ← tagged? cs
  let (account, component, service) ← threeNames? path
  pure (ofServiceVersion account component service tag)

def environment? (cs : List Char) : Option Slug := do
  let (account, environment) ← twoNames? cs
  pure (ofEnvironment account environment)

/-- Reads a slug of a known kind. -/
def ofText? (kind : SlugKind) (text : String) : Option Slug :=
  let cs := text.toList
  match kind with
  | .gateway => if text = gatewayText then some gateway else none
  | .component => do
    let (account, component) ← twoNames? cs
    pure (ofComponent account component)
  | .componentVersion => do
    let (path, tag) ← tagged? cs
    let (account, component) ← twoNames? path
    pure (ofComponentVersion account component tag)
  | .interfaces =>
    match Text.splitOn ':' cs with
    | [path, suffixed] => do
      let (account, component) ← twoNames? path
      pure (ofInterfaces account component (← interfacesTag? suffixed))
    | _ => none
  | .service => do
    let (account, component, service) ← threeNames? cs
    pure (ofService account component service)
  | .serviceVersion => serviceVersion? cs
  | .environment => environment? cs
  | .serviceInstance =>
    match Text.splitOn '@' cs with
    | [version, place] => do
      pure (ofServiceInstance (← serviceVersion? version) (← environment? place))
    | _ => none

/-- Reads a slug of a known kind; a failure names its arrangement. -/
def read (kind : SlugKind) (text : String) : Except Failure Slug :=
  match ofText? kind text with
  | some s => .ok s
  | none => .error (.invalidSlug text kind.description)

/-- Reads a slug of the first kind in detection order that accepts it. -/
def detect? (text : String) : Option Slug :=
  SlugKind.detectionOrder.findSome? fun kind => ofText? kind text

def detect (text : String) : Except Failure Slug :=
  match detect? text with
  | some s => .ok s
  | none => .error (.invalidSlug text "does not match any known slug format")

/-- Splits a component name into its account, which may be left out, and its
own name. -/
def splitComponentName? (text : String) : Option (Option String × String) :=
  match names? text.toList with
  | some [account, component] => some (some account, component)
  | some [component] => some (none, component)
  | _ => none

end Manifest.Slug
