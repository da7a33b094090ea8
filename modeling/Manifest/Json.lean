import Manifest.Number.Binary64
/-!
# JSON values

An object keeps its members in the order in which they are written. The
canonical form of a value, `sorted`, has the members of every object in the
byte order of their names, each name once, and finite numbers only.
-/

namespace Manifest

inductive Json where
  | null
  | bool (value : Bool)
  | int (value : Int)
  | float (value : Binary64)
  | string (value : String)
  | array (items : List Json)
  | object (members : List (String × Json))
deriving BEq, Repr, Inhabited

namespace Json

abbrev Members := List (String × Json)

/-- Sets a member of a sorted object, keeping the order. -/
def setMember (name : String) (value : Json) : Members → Members
  | [] => [(name, value)]
  | (k, v) :: rest =>
    if name < k then (name, value) :: (k, v) :: rest
    else if name = k then (name, value) :: rest
    else (k, v) :: setMember name value rest

def member? (name : String) : Members → Option Json
  | [] => none
  | (k, v) :: rest => if k = name then some v else member? name rest

/-- Changes the member with this name, if there is one. -/
def updateMember (name : String) (f : Json → Json) : Members → Members
  | [] => []
  | (k, v) :: rest =>
    if k = name then (k, f v) :: rest else (k, v) :: updateMember name f rest

def removeMember (name : String) (members : Members) : Members :=
  members.filter fun (k, _) => k ≠ name

mutual

/-- The value with the members of its objects in byte order; of two members
of one name the later one stays, and what is no finite number is null. -/
def sorted : Json → Json
  | .array items => .array (sortedItems items)
  | .object members => .object (sortedMembers [] members)
  | .float f => if f.isFinite then .float f else .null
  | value => value

def sortedItems : List Json → List Json
  | [] => []
  | item :: rest => item.sorted :: sortedItems rest

def sortedMembers (done : Members) : Members → Members
  | [] => done
  | (k, v) :: rest => sortedMembers (setMember k v.sorted done) rest

end

def isNull : Json → Bool
  | .null => true
  | _ => false

def asString? : Json → Option String
  | .string s => some s
  | _ => none

def members? : Json → Option Members
  | .object members => some members
  | _ => none

def items? : Json → Option (List Json)
  | .array items => some items
  | _ => none

def field? (name : String) (value : Json) : Option Json := value.members?.bind (member? name)

/-- A string, or null for nothing. -/
def ofText? : Option String → Json
  | some s => .string s
  | none => .null

def ofTexts (texts : List String) : Json := .array (texts.map .string)

end Json

end Manifest
