import Manifest.Diagnostic
/-!
# Validation perspectives

A rule may hold only for some readers of a document: the developer who
writes a component, the operator who adjusts one, and the debug blocks that
both may use. A set of perspectives is a choice for each of the three.
-/

namespace Manifest

inductive Perspective where
  | developer
  | operator
  | debug
deriving DecidableEq, Repr

namespace Perspective

/-- In the order in which sets are listed. -/
def all : List Perspective := [.developer, .operator, .debug]

def name : Perspective → String
  | .developer => "developer"
  | .operator => "operator"
  | .debug => "debug"

def ofName? (text : String) : Option Perspective := all.find? fun p => p.name = text

/-- Reads a name given by a user. -/
def read (text : String) : Except Failure Perspective :=
  match ofName? text with
  | some p => .ok p
  | none =>
    .error (.badConfiguration ("unknown validation context \"" ++ text
      ++ "\" (expected developer, operator, or debug)"))

end Perspective

structure Perspectives where
  developer : Bool := false
  operator : Bool := false
  debug : Bool := false
deriving DecidableEq, Repr

namespace Perspectives

def none : Perspectives := ⟨false, false, false⟩

def contains (s : Perspectives) : Perspective → Bool
  | .developer => s.developer
  | .operator => s.operator
  | .debug => s.debug

/-- The set with one more member. -/
def insert (s : Perspectives) : Perspective → Perspectives
  | .developer => ⟨true, s.operator, s.debug⟩
  | .operator => ⟨s.developer, true, s.debug⟩
  | .debug => ⟨s.developer, s.operator, true⟩

def only (p : Perspective) : Perspectives := none.insert p

def ofList (ps : List Perspective) : Perspectives := ps.foldl insert none

def toList (s : Perspectives) : List Perspective := Perspective.all.filter s.contains

/-- Is one of `ps` in the set? -/
def intersects (s : Perspectives) (ps : List Perspective) : Bool := ps.any s.contains

theorem contains_insert (s : Perspectives) (p q : Perspective) :
    (s.insert p).contains q = (decide (q = p) || s.contains q) := by
  cases p <;> cases q <;> simp [insert, contains]

end Perspectives

end Manifest
