import Manifest.Dict
import Manifest.Scalar
import Manifest.Instant
import Manifest.Slug
/-!
# Component configs

A config is the canonical form of a component: every shorthand is spelt out,
commands are lists of words, scalars are texts, and each resource carries its
own name, ref and tag. It is the form in which components are layered,
interpolated and handed on.
-/

namespace Manifest.Config

structure Parameter where
  required : Option Bool := none
  description : Option String := none
  /-- Left out, explicitly unset, or a value. -/
  default : Option (Option Scalar) := none
deriving DecidableEq, Repr

structure Build where
  context : Option String := none
  dockerfile : Option String := none
  target : Option String := none
  args : Dict String := {}
deriving DecidableEq, Repr

namespace Build

/-- The build of a resource that names neither an image nor a build. -/
def implicit : Build := { context := some "." }

def isImplicit (b : Build) : Bool := b = implicit

end Build

structure Volume where
  mountPath : Option String := none
  hostPath : Option String := none
  key : Option String := none
  description : Option String := none
  readonly : Option String := none
deriving DecidableEq, Repr

structure Interface where
  description : Option String := none
  host : Option String := none
  port : Option String := none
  protocol : Option String := none
  username : Option String := none
  password : Option String := none
  url : Option String := none
  sticky : Option String := none
deriving DecidableEq, Repr

structure Ingress where
  enabled : Option Bool := none
  subdomain : Option String := none
deriving DecidableEq, Repr

/-- An interface of the component as a whole. -/
structure ComponentInterface where
  interface : Interface := {}
  ingress : Option Ingress := none
deriving DecidableEq, Repr

structure Probe where
  successThreshold : Option String := none
  failureThreshold : Option String := none
  timeout : Option String := none
  interval : Option String := none
  initialDelay : Option String := none
  path : Option String := none
  port : Option String := none
  command : Option (List String) := none
deriving DecidableEq, Repr

/-- Thresholds and times with their defaults. -/
def Probe.filled (p : Probe) : Probe :=
  { p with
    successThreshold := some (p.successThreshold.getD "1")
    failureThreshold := some (p.failureThreshold.getD "3")
    timeout := some (p.timeout.getD "5s")
    interval := some (p.interval.getD "30s")
    initialDelay := some (p.initialDelay.getD "0s") }

structure Metrics where
  cpu : Option String := none
  memory : Option String := none
deriving DecidableEq, Repr

structure Scaling where
  minReplicas : Option String := none
  maxReplicas : Option String := none
  metrics : Metrics := {}
deriving DecidableEq, Repr

structure ServiceExtension where
  interfaces : Dict Interface := {}
  probe : Option Probe := none
  replicas : Option String := none
  scaling : Option Scaling := none
deriving DecidableEq, Repr

structure TaskExtension where
  schedule : Option String := none
deriving DecidableEq, Repr

/-- What names a resource. -/
structure Identity where
  name : String
  reference : String
  tag : String
deriving DecidableEq, Repr

/-- A resource without its debug block. -/
structure Body (X : Type) where
  identity : Identity
  description : Option String := none
  image : Option String := none
  build : Option Build := none
  command : Option (List String) := none
  entrypoint : Option (List String) := none
  environment : Dict String := {}
  volumes : Dict Volume := {}
  cpu : Option String := none
  memory : Option String := none
  dependsOn : List String := []
  labels : Dict String := {}
  extension : X
deriving DecidableEq, Repr

structure Resource (X : Type) where
  body : Body X
  debug : Option (Resource X)
deriving Repr

abbrev Service := Resource ServiceExtension

abbrev Task := Resource TaskExtension

structure Component where
  name : String := ""
  tag : String := ""
  reference : String := ""
  instanceId : Option String := none
  instanceName : Option String := none
  instanceDate : Option Instant := none
  /-- The version that the component extends. -/
  parent : Option String := none
  /-- The directory of the component that it extends. -/
  localParent : Option String := none
  description : Option String := none
  keywords : List String := []
  author : Option String := none
  homepage : Option String := none
  parameters : Dict Parameter := {}
  services : Dict Service := {}
  tasks : Dict Task := {}
  dependencies : Dict String := {}
  interfaces : Dict ComponentInterface := {}
deriving Repr

/-! ## Names -/

namespace Component

def empty : Component := {}

/-- The name before and after its first slash. -/
def splitName (name : String) : Option String × String :=
  let cs := name.toList
  match cs.dropWhile (· ≠ '/') with
  | [] => (none, name)
  | _ :: own => (some (String.ofList (cs.takeWhile (· ≠ '/'))), String.ofList own)

def account? (c : Component) : Option String := (splitName c.name).1

def ownName (c : Component) : String := (splitName c.name).2

/-- `name:tag`, and the instance if the component is a named one. -/
def ref (c : Component) : String :=
  c.name ++ ":" ++ c.tag ++
    match c.instanceName with
    | some instanceName => "@" ++ instanceName
    | none => ""

/-- `name/resource:tag`. -/
def resourceRef (c : Component) (resource : String) : String :=
  c.name ++ "/" ++ resource ++ ":" ++ c.tag

end Component

end Manifest.Config
