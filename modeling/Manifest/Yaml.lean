import Manifest.Number.Shortest
/-!
# YAML values

A mapping keeps its entries in document order; its keys may be any values.
A value with a local tag keeps the tag.
-/

namespace Manifest

inductive Yaml where
  | null
  | bool (value : Bool)
  | int (value : Int)
  | float (value : Binary64)
  | string (value : String)
  | sequence (items : List Yaml)
  | mapping (entries : List (Yaml × Yaml))
  | tagged (tag : String) (value : Yaml)
deriving Repr, Inhabited

namespace Yaml

abbrev Entries := List (Yaml × Yaml)

/-- The value without its tag. -/
def untagged : Yaml → Yaml
  | .tagged _ value => value.untagged
  | value => value

/-- Null, with or without a tag. -/
def isNull (value : Yaml) : Bool :=
  match value.untagged with
  | .null => true
  | _ => false

/-- The text of a string, with or without a tag. -/
def asString? (value : Yaml) : Option String :=
  match value.untagged with
  | .string s => some s
  | _ => none

def isString (value : Yaml) : Bool := value.asString?.isSome

/-- A string, a number or a truth value, without a tag. -/
def isScalar : Yaml → Bool
  | .string _ => true
  | .int _ => true
  | .float _ => true
  | .bool _ => true
  | _ => false

/-- The text of a floating-point number in a document. -/
def floatText : Binary64 → String
  | .notANumber => ".nan"
  | .infinite negative => if negative then "-.inf" else ".inf"
  | .finite negative m q => Binary64.pretty negative m q

/-- The text of a key that is a string, a number or a truth value. -/
def keyText? : Yaml → Option String
  | .string s => some s
  | .int i => some (toString i)
  | .float f => some (floatText f)
  | .bool b => some (toString b)
  | _ => none

/-- The value at a string key. -/
def entry? (key : String) : Entries → Option Yaml
  | [] => none
  | (.string k, v) :: rest => if k = key then some v else entry? key rest
  | _ :: rest => entry? key rest

/-! ## Equality of keys

Two mappings are the same if they have the same entries, whatever their
order; a number that is none is the same as itself. -/

mutual

def same : Yaml → Yaml → Bool
  | .null, .null => true
  | .bool a, .bool b => a = b
  | .int a, .int b => a = b
  | .float a, .float b => a.same b || (a = .notANumber && b = .notANumber)
  | .string a, .string b => a = b
  | .sequence a, .sequence b => sameItems a b
  | .mapping a, .mapping b => a.length = b.length && sameEntries a b
  | .tagged s a, .tagged t b => s = t && same a b
  | _, _ => false

def sameItems : List Yaml → List Yaml → Bool
  | [], [] => true
  | a :: as, b :: bs => same a b && sameItems as bs
  | _, _ => false

def sameEntries : Entries → Entries → Bool
  | [], _ => true
  | (k, v) :: rest, others =>
    others.any (fun (k', v') => same k k' && same v v') && sameEntries rest others

end

/-! ## Equality

As values, mappings are equal only if their entries stand in the same order. -/

mutual

def equal : Yaml → Yaml → Bool
  | .null, .null => true
  | .bool a, .bool b => a = b
  | .int a, .int b => a = b
  | .float a, .float b => a = b
  | .string a, .string b => a = b
  | .sequence as, .sequence bs => equalItems as bs
  | .mapping as, .mapping bs => equalEntries as bs
  | .tagged s a, .tagged t b => s = t && equal a b
  | _, _ => false

def equalItems : List Yaml → List Yaml → Bool
  | [], [] => true
  | a :: as, b :: bs => equal a b && equalItems as bs
  | _, _ => false

def equalEntries : Entries → Entries → Bool
  | [], [] => true
  | (k, v) :: as, (k', v') :: bs => equal k k' && equal v v' && equalEntries as bs
  | _, _ => false

end

mutual

theorem equal_iff : ∀ v w : Yaml, equal v w = true ↔ v = w
  | .null, w => by cases w <;> simp [equal]
  | .bool a, w => by cases w <;> simp [equal]
  | .int a, w => by cases w <;> simp [equal]
  | .float a, w => by cases w <;> simp [equal]
  | .string a, w => by cases w <;> simp [equal]
  | .sequence as, w => by cases w <;> simp [equal, equalItems_iff as]
  | .mapping as, w => by cases w <;> simp [equal, equalEntries_iff as]
  | .tagged s a, w => by cases w <;> simp [equal, equal_iff a]

theorem equalItems_iff : ∀ as bs : List Yaml, equalItems as bs = true ↔ as = bs
  | [], bs => by cases bs <;> simp [equalItems]
  | a :: as, bs => by cases bs <;> simp [equalItems, equal_iff a, equalItems_iff as]

theorem equalEntries_iff : ∀ as bs : Entries, equalEntries as bs = true ↔ as = bs
  | [], bs => by cases bs <;> simp [equalEntries]
  | (k, v) :: as, bs => by
      cases bs <;> simp [equalEntries, equal_iff k, equal_iff v, equalEntries_iff as, Prod.ext_iff]

end

instance : DecidableEq Yaml := fun v w => decidable_of_iff _ (equal_iff v w)

end Yaml

end Manifest
