import Manifest.Config
/-!
# Equality of configs

Two configs are the same if they hold the same values. The order of
dictionaries does not count, numbers are compared as numbers, and what is not
a number is the same as nothing.
-/

namespace Manifest

/-- The same keys with the same values. -/
def Dict.same {α : Type} (eq : α → α → Bool) (a b : Dict α) : Bool :=
  a.size = b.size && a.entries.all fun (k, v) =>
    match b.get? k with
    | some w => eq v w
    | none => false

namespace Config

def sameText (a b : String) : Bool := a = b

def sameOption {α : Type} (eq : α → α → Bool) : Option α → Option α → Bool
  | some a, some b => eq a b
  | none, none => true
  | _, _ => false

def Parameter.same (a b : Parameter) : Bool :=
  a.required = b.required && a.description = b.description
    && sameOption (sameOption Scalar.same) a.default b.default

def Build.same (a b : Build) : Bool :=
  { a with args := {} } = { b with args := {} } && a.args.same sameText b.args

def ServiceExtension.same (a b : ServiceExtension) : Bool :=
  { a with interfaces := {} } = { b with interfaces := {} }
    && a.interfaces.same (fun i j => i = j) b.interfaces

def TaskExtension.same (a b : TaskExtension) : Bool := a = b

variable {X : Type}

def Body.same (eq : X → X → Bool) (a b : Body X) : Bool :=
  let plain (x : Body X) : Body Unit :=
    { x with build := none, environment := {}, volumes := {}, labels := {}, extension := () }
  plain a = plain b && sameOption Build.same a.build b.build
    && a.environment.same sameText b.environment
    && a.volumes.same (fun v w => v = w) b.volumes && a.labels.same sameText b.labels
    && eq a.extension b.extension

def Resource.same (eq : X → X → Bool) : Resource X → Resource X → Bool
  | ⟨a, none⟩, ⟨b, none⟩ => a.same eq b
  | ⟨a, some debug⟩, ⟨b, some debug'⟩ => a.same eq b && debug.same eq debug'
  | _, _ => false

def Component.same (a b : Component) : Bool :=
  a.name = b.name && a.tag = b.tag && a.reference = b.reference
    && a.instanceId = b.instanceId && a.instanceName = b.instanceName
    && a.instanceDate = b.instanceDate && a.parent = b.parent && a.localParent = b.localParent
    && a.description = b.description && a.keywords = b.keywords && a.author = b.author
    && a.homepage = b.homepage && a.parameters.same Parameter.same b.parameters
    && a.services.same (Resource.same ServiceExtension.same) b.services
    && a.tasks.same (Resource.same TaskExtension.same) b.tasks
    && a.dependencies.same sameText b.dependencies
    && a.interfaces.same (fun i j => i = j) b.interfaces

end Config

end Manifest
