import Manifest.Dict
import Manifest.Scalar
/-!
# Component specs

A spec is a component document as its author wrote it, read into types but
not yet normalised: shorthands are still shorthands, scalars keep their
types, and nothing is filled in.

A resource may hold a debug block, which is a resource again. What only
services or only tasks have is the resource's extension.
-/

namespace Manifest.Spec

structure ParameterDefinition where
  required : Option Scalar := none
  description : Option String := none
  /-- Left out, null, or a value. -/
  default : Option (Option Scalar) := none
deriving DecidableEq, Repr

inductive Parameter where
  | definition (d : ParameterDefinition)
  | value (v : Option Scalar)
deriving DecidableEq, Repr

inductive Command where
  | list (args : List Scalar)
  | shell (line : String)
deriving DecidableEq, Repr

structure Build where
  context : Option String := none
  dockerfile : Option String := none
  target : Option String := none
  args : Dict (Option Scalar) := {}
deriving DecidableEq, Repr

structure VolumeDefinition where
  mountPath : Option String := none
  hostPath : Option String := none
  key : Option String := none
  description : Option String := none
  readonly : Option Scalar := none
deriving DecidableEq, Repr

inductive Volume where
  | definition (d : VolumeDefinition)
  | hostPath (path : String)
deriving DecidableEq, Repr

namespace Volume

def hostPath? : Volume → Option String
  | .definition d => d.hostPath
  | .hostPath path => some path

def key? : Volume → Option String
  | .definition d => d.key
  | .hostPath _ => none

end Volume

structure InterfaceDefinition where
  description : Option String := none
  host : Option String := none
  port : Option Scalar := none
  protocol : Option String := none
  username : Option String := none
  password : Option String := none
  url : Option String := none
  sticky : Option Scalar := none
deriving DecidableEq, Repr

inductive Interface where
  | definition (d : InterfaceDefinition)
  | port (p : Scalar)
deriving DecidableEq, Repr

structure Ingress where
  enabled : Option Scalar := none
  subdomain : Option String := none
deriving DecidableEq, Repr

inductive ComponentInterface where
  | definition (d : InterfaceDefinition) (ingress : Option Ingress)
  | value (v : Scalar)
deriving DecidableEq, Repr

structure Probe where
  successThreshold : Option Scalar := none
  failureThreshold : Option Scalar := none
  timeout : Option String := none
  interval : Option String := none
  initialDelay : Option String := none
  path : Option String := none
  port : Option Scalar := none
  command : Option Command := none
deriving DecidableEq, Repr

/-- Nothing is written in the probe. -/
def Probe.isEmpty (p : Probe) : Bool := p = {}

structure Metrics where
  cpu : Option Scalar := none
  memory : Option Scalar := none
deriving DecidableEq, Repr

structure Scaling where
  minReplicas : Option Scalar := none
  maxReplicas : Option Scalar := none
  metrics : Option Metrics := none
deriving DecidableEq, Repr

structure ServiceExtension where
  interfaces : Dict Interface := {}
  probe : Option Probe := none
  replicas : Option Scalar := none
  scaling : Option Scaling := none
deriving DecidableEq, Repr

structure TaskExtension where
  schedule : Option String := none
deriving DecidableEq, Repr

/-- A resource without its debug block. -/
structure Body (X : Type) where
  description : Option String := none
  image : Option String := none
  build : Option Build := none
  command : Option Command := none
  entrypoint : Option Command := none
  environment : Dict (Option Scalar) := {}
  volumes : Dict Volume := {}
  cpu : Option Scalar := none
  memory : Option Scalar := none
  dependsOn : List String := []
  labels : Dict String := {}
  extension : X
deriving DecidableEq, Repr

structure Resource (X : Type) where
  body : Body X
  debug : Option (Resource X)
deriving Repr

abbrev Service := Resource ServiceExtension

abbrev Task := Resource TaskExtension

structure Component where
  name : String
  tag : Option String := none
  /-- What the component extends. -/
  parent : Option String := none
  description : Option String := none
  keywords : List String := []
  author : Option String := none
  homepage : Option String := none
  parameters : Dict Parameter := {}
  services : Dict Service := {}
  tasks : Dict Task := {}
  dependencies : Dict Scalar := {}
  interfaces : Dict ComponentInterface := {}
deriving Repr

end Manifest.Spec
