import Manifest.Diagnostic
import Manifest.Json
/-!
# Diagnostics as data

A diagnostic is an object of its fields; the value and the position may be
left out or null, and unknown fields are ignored. A list of the fields in
their order is read as well.
-/

namespace Manifest

namespace Json

/-- A natural number of 64 bits. -/
def asNat? : Json → Option Nat
  | .int i => if 0 ≤ i && i < pow2 64 then some i.toNat else none
  | _ => none

/-- The named parts of a record, given as an object or as a list in order.
Null stands for a part that is missing at the end of a list. -/
def parts? (names : List String) : Json → Option (List Json)
  | .object members => some (names.map fun name => (member? name members).getD .null)
  | .array items =>
    if items.length ≤ names.length then
      some (items ++ List.replicate (names.length - items.length) .null)
    else none
  | _ => none

/-- Reads a part that may be null. -/
def orNull? {α : Type} (read : Json → Option α) : Json → Option (Option α)
  | .null => some none
  | value => (read value).map some

end Json

namespace Place

def ofJson? (value : Json) : Option Place := do
  match ← value.parts? ["line", "column"] with
  | [line, column] => pure ⟨← line.asNat?, ← column.asNat?⟩
  | _ => none

end Place

namespace Span

def ofJson? (value : Json) : Option Span := do
  match ← value.parts? ["start", "end"] with
  | [start, stop] => pure ⟨← Place.ofJson? start, ← Place.ofJson? stop⟩
  | _ => none

end Span

namespace Diagnostic

/-- The kind by its name, or by an object that has the name for a key. -/
def Kind.ofJson? : Json → Option Kind
  | .string name => ofName? name
  | .object [(name, .null)] => ofName? name
  | _ => none

def ofJson? (value : Json) : Option Diagnostic := do
  match ← value.parts? ["kind", "path", "constraint", "message", "value", "position"] with
  | [kind, path, constraint, message, value, position] =>
    pure {
      kind := ← Kind.ofJson? kind
      path := ← path.asString?
      constraint := ← constraint.asString?
      message := ← message.asString?
      value := ← Json.orNull? Json.asString? value
      position := ← Json.orNull? Span.ofJson? position }
  | _ => none

end Diagnostic

end Manifest
