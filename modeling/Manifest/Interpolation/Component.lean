import Manifest.Interpolation
import Manifest.Config.Tree
import Manifest.Config.Reader
/-!
# Interpolating a component

All texts of a config are rendered, wherever they stand. The result has its
dictionaries in byte order.
-/

namespace Manifest.Interpolation

/-- The rendered config and the expressions that stand for nothing. -/
def renderComponent (s : Scope) (c : Config.Component) :
    Except Failure (Config.Component × List Diagnostic) :=
  let (rendered, problems) := ((s.renderValue "" c.toJson.sorted).run []).1
  match Config.Reader.component? rendered with
  | some c => .ok (c, problems)
  | none => .error .malformedData

/-- Replaces every expression in a config by its value. -/
def interpolate (s : Scope) (c : Config.Component) : Except Failure Config.Component := do
  let (rendered, problems) ← renderComponent s c
  unlessInvalid problems rendered

/-- The expressions of a config that refer to nothing in its own context.
Parameters need no values for it, and dependencies no contexts. -/
def check (d : Delimiters) (ignored : List String) (maxRefLength : Nat)
    (c : Config.Component) : Except Failure (List Diagnostic) := do
  let context ← Context.ofComponent c {} maxRefLength .validation
  let (_, problems) ← renderComponent ⟨context, d, ignored, .validation⟩ c
  pure problems

end Manifest.Interpolation
