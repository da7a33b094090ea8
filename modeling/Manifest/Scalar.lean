import Manifest.Number.Shortest
import Manifest.Json
/-!
# Scalars

Where a document may hold a text, many places also take a number or a truth
value. Such a scalar keeps its type until its text is needed.
-/

namespace Manifest

inductive Scalar where
  | bool (value : Bool)
  | int (value : Int)
  | float (value : Binary64)
  | string (value : String)
deriving DecidableEq, Repr

namespace Scalar

def text : Scalar → String
  | .bool b => toString b
  | .int i => toString i
  | .float f => f.plain
  | .string s => s

/-- A truth value, or one written as a string. -/
def asBool? : Scalar → Option Bool
  | .bool b => some b
  | .string s => if s = "true" then some true else if s = "false" then some false else none
  | _ => none

def toJson : Scalar → Json
  | .bool b => .bool b
  | .int i => .int i
  | .float f => .float f
  | .string s => .string s

/-- Equality of values, where `NaN` equals nothing. -/
def same : Scalar → Scalar → Bool
  | .float a, .float b => a.same b
  | a, b => a = b

end Scalar

end Manifest
