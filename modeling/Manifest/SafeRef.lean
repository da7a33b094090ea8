import Manifest.Slug.Reader
import Manifest.Digest.Md5
import Manifest.Digest.Base64
/-!
# Safe refs

A safe ref is a DNS-safe name derived from a slug: the readable parts joined
by `--`, and, when the slug is versioned or an instance is named, `--` and
seven characters of a digest. It never exceeds the length asked for; the
readable part gives way.
-/

namespace Manifest.SafeRef

def delimiter : String := "--"

/-- Characters of the digest in a ref. -/
def digestLength : Nat := 7

/-- Room for the delimiter and the digest. -/
def reservedLength : Nat := delimiter.length + digestLength

def defaultMaxLength : Nat := 63

/-! ## Readable part -/

def readableParts (s : Slug) : List String :=
  [s.environmentAccount, s.environment, s.account, s.component, s.service].filterMap id

def readable (s : Slug) : String := delimiter.intercalate (readableParts s)

def isHyphen (c : Char) : Bool := c = '-'

/-- A friendly name in the characters of a ref: letters in lower case, all
else but digits as hyphens, none of them at either end. -/
def sanitize (name : List Char) : List Char :=
  let mapped := name.map fun c =>
    let c := c.toLower
    if c.isLower || c.isDigit then c else '-'
  Text.dropTrailing isHyphen (mapped.dropWhile isHyphen)

/-- The longest beginning of `budget` bytes, or the whole text if a character
lies across that place. -/
def cutBytes (budget : Nat) (cs : List Char) : List Char :=
  match go budget cs with
  | some cut => cut
  | none => cs
where
  go : Nat → List Char → Option (List Char)
    | 0, _ => some []
    | _, [] => some []
    | budget + 1, c :: cs =>
      if c.utf8Size ≤ budget + 1 then (go (budget + 1 - c.utf8Size) cs).map (c :: ·) else none
  termination_by _ cs => cs.length

/-- Within the budget and without hyphens at the end. -/
def truncate (budget : Nat) (cs : List Char) : List Char :=
  Text.dropTrailing isHyphen (cutBytes budget cs)

/-! ## Digest -/

/-- The text whose digest stands for a slug and an instance of it. -/
def uri (s : Slug) (instanceId : Option String) : String :=
  s.kind.name ++ "://" ++ s.text ++
    match instanceId with
    | some id => "#" ++ id
    | none => ""

/-- The digest of a text in lower-case letters and digits. -/
def digestText (text : String) : List Char :=
  ((Base64.encode (Md5.digest text.toUTF8.toList)).map Char.toLower).filter fun c =>
    c ≠ '/' && c ≠ '+' && c ≠ '='

/-! ## Refs -/

/-- The ref of a slug within `maxLength` characters. -/
def derive (s : Slug) (friendlyName instanceId : Option String) (maxLength : Nat) :
    Except Failure String :=
  if s.kind = .gateway then .ok Slug.gatewayText
  else
    let hashed := s.tag.isSome || instanceId.isSome
    let reserved := if hashed then reservedLength else 0
    if maxLength ≤ reserved then
      .error (.badConfiguration ("max ref length " ++ toString maxLength ++ " cannot hold a "
        ++ toString reserved ++ "-character hash"))
    else
      let name :=
        match friendlyName with
        | some name => sanitize name.toList
        | none => (readable s).toList
      let name := truncate (maxLength - reserved) name
      if hashed then
        let digest := (digestText (uri s instanceId)).take digestLength
        .ok (String.ofList
          (if name.isEmpty then digest else name ++ delimiter.toList ++ digest))
      else .ok (String.ofList name)

/-- The ref of a slug text of any kind, with `friendlyName` for the readable
part if given. -/
def ofText (text : String) (friendlyName : Option String) (maxLength : Nat) :
    Except Failure String :=
  if text = Slug.gatewayText then .ok text
  else do derive (← Slug.detect text) friendlyName none maxLength

/-- The ref of one instance of a slug. The instance changes the digest only;
an empty one counts as none. -/
def ofInstance (text instanceId : String) (maxLength : Nat) : Except Failure String :=
  if text = Slug.gatewayText then .ok text
  else do
    let s ← Slug.detect text
    derive s none (if instanceId.isEmpty then none else some instanceId) maxLength

end Manifest.SafeRef
