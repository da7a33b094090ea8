import Manifest.Config
/-!
# Layering configs

`expand` writes down every default that a config implies, and stamps the
names of the component onto its resources. `merge` lays one config over
another: what the upper one leaves out stays, dictionaries are joined key by
key, and lists are replaced. Image and build of a resource go together, and so
do the two ways to probe it.
-/

namespace Manifest.Config

/-- The upper value, if there is one. -/
def valueOver {α : Type} (base upper : Option α) : Option α := upper.or base

/-- The upper text, unless it is empty. -/
def textOver (base upper : String) : String := if upper.isEmpty then base else upper

/-- The upper list, unless it is empty. -/
def listOver {α : Type} (base upper : List α) : List α := if upper.isEmpty then base else upper

/-- Combines two values, where only one is there takes that. -/
def combine {α : Type} (f : α → α → α) : Option α → Option α → Option α
  | some base, some upper => some (f base upper)
  | base, none => base
  | none, upper => upper

def textsOver (base upper : Dict String) : Dict String :=
  base.overlay (fun _ value => value) upper

/-! ## Parts of a resource -/

namespace Parameter

/-- What is not required and has no default is explicitly unset. -/
def expand (p : Parameter) : Parameter :=
  if p.required = some false && p.default.isNone then { p with default := some none } else p

def overlay (base upper : Parameter) : Parameter where
  required := valueOver base.required upper.required
  description := valueOver base.description upper.description
  default := valueOver base.default upper.default

end Parameter

def Volume.overlay (base upper : Volume) : Volume where
  mountPath := valueOver base.mountPath upper.mountPath
  hostPath := valueOver base.hostPath upper.hostPath
  key := valueOver base.key upper.key
  description := valueOver base.description upper.description
  readonly := valueOver base.readonly upper.readonly

def Interface.overlay (base upper : Interface) : Interface where
  description := valueOver base.description upper.description
  host := valueOver base.host upper.host
  port := valueOver base.port upper.port
  protocol := valueOver base.protocol upper.protocol
  username := valueOver base.username upper.username
  password := valueOver base.password upper.password
  url := valueOver base.url upper.url
  sticky := valueOver base.sticky upper.sticky

namespace Ingress

/-- An ingress that is there is enabled. -/
def expand (i : Ingress) : Ingress := { i with enabled := i.enabled.or (some true) }

def overlay (base upper : Ingress) : Ingress where
  enabled := valueOver base.enabled upper.enabled
  subdomain := valueOver base.subdomain upper.subdomain

end Ingress

namespace ComponentInterface

def expand (i : ComponentInterface) : ComponentInterface :=
  { i with ingress := i.ingress.map Ingress.expand }

def overlay (base upper : ComponentInterface) : ComponentInterface where
  interface := base.interface.overlay upper.interface
  ingress := combine Ingress.overlay base.ingress upper.ingress

end ComponentInterface

namespace Probe

/-- Does the probe send requests rather than run a command? -/
def isRequest (p : Probe) : Bool := p.path.isSome || p.port.isSome

/-- A probe sends requests or runs a command; an upper probe that does one of
them ends the other. -/
def overlay (base upper : Probe) : Probe where
  successThreshold := valueOver base.successThreshold upper.successThreshold
  failureThreshold := valueOver base.failureThreshold upper.failureThreshold
  timeout := valueOver base.timeout upper.timeout
  interval := valueOver base.interval upper.interval
  initialDelay := valueOver base.initialDelay upper.initialDelay
  path := valueOver (if upper.command.isSome then none else base.path) upper.path
  port := valueOver (if upper.command.isSome then none else base.port) upper.port
  command :=
    valueOver (if upper.command.isNone && upper.isRequest then none else base.command) upper.command

end Probe

def Metrics.overlay (base upper : Metrics) : Metrics where
  cpu := valueOver base.cpu upper.cpu
  memory := valueOver base.memory upper.memory

def Scaling.overlay (base upper : Scaling) : Scaling where
  minReplicas := valueOver base.minReplicas upper.minReplicas
  maxReplicas := valueOver base.maxReplicas upper.maxReplicas
  metrics := base.metrics.overlay upper.metrics

/-! ## Extensions -/

/-- What an extension brings to layering. -/
class Layered (X : Type) where
  expand : X → X
  overlay : X → X → X

instance : Layered ServiceExtension where
  expand x := { x with probe := x.probe.map Probe.filled }
  overlay base upper :=
    { interfaces := base.interfaces.overlay Interface.overlay upper.interfaces
      probe := combine Probe.overlay base.probe upper.probe
      replicas := valueOver base.replicas upper.replicas
      scaling := combine Scaling.overlay base.scaling upper.scaling }

instance : Layered TaskExtension where
  expand x := x
  overlay base upper := { schedule := valueOver base.schedule upper.schedule }

/-! ## Resources -/

namespace Body

variable {X : Type} [Layered X]

/-- What has no image is built. -/
def expand (b : Body X) : Body X :=
  { b with
    build := if b.image.isNone && b.build.isNone then some .implicit else b.build
    extension := Layered.expand b.extension }

/-- Image and build of `upper` over those of `base`: an image replaces both, a
build ends the image, and an implicit build says nothing. -/
def sourceOver (base upper : Body X) : Option String × Option Build :=
  match upper.image, upper.build with
  | some image, build => (some image, build)
  | none, some build => if build.isImplicit then (base.image, base.build) else (none, some build)
  | none, none => (base.image, base.build)

def overlay (base upper : Body X) : Body X where
  identity :=
    { name := textOver base.identity.name upper.identity.name
      reference := textOver base.identity.reference upper.identity.reference
      tag := textOver base.identity.tag upper.identity.tag }
  description := valueOver base.description upper.description
  image := (sourceOver base upper).1
  build := (sourceOver base upper).2
  command := valueOver base.command upper.command
  entrypoint := valueOver base.entrypoint upper.entrypoint
  environment := textsOver base.environment upper.environment
  volumes := base.volumes.overlay Volume.overlay upper.volumes
  cpu := valueOver base.cpu upper.cpu
  memory := valueOver base.memory upper.memory
  dependsOn := listOver base.dependsOn upper.dependsOn
  labels := textsOver base.labels upper.labels
  extension := Layered.overlay base.extension upper.extension

end Body

namespace Resource

variable {X : Type} [Layered X]

/-- Gives the resource and its debug block the identity that they have as
`key` of a component. Where the component has no name or no tag, the own one
stays. -/
def stamp (c : Component) (key : String) (r : Resource X) : Resource X :=
  let own := r.body.identity
  let identity : Identity :=
    { name := key
      reference := if c.name.isEmpty then own.reference else c.resourceRef key
      tag := textOver own.tag c.tag }
  { body := { r.body with identity }
    debug := r.debug.map fun debug => { debug with body := { debug.body with identity } } }

/-- A debug block has no debug block. -/
def expand (r : Resource X) : Resource X where
  body := r.body.expand
  debug := r.debug.map fun debug => { body := debug.body.expand, debug := none }

def overlay : Resource X → Resource X → Resource X
  | ⟨base, none⟩, ⟨upper, debug⟩ => ⟨base.overlay upper, debug⟩
  | ⟨base, debug⟩, ⟨upper, none⟩ => ⟨base.overlay upper, debug⟩
  | ⟨base, some debug⟩, ⟨upper, some upperDebug⟩ =>
    ⟨base.overlay upper, some (debug.overlay upperDebug)⟩

end Resource

/-! ## Components -/

namespace Component

/-- Writes down the defaults of a config. A config without a name keeps its
refs. -/
def expand (c : Component) : Component :=
  { c with
    reference := if c.name.isEmpty then c.reference else c.ref
    parameters := c.parameters.mapValues fun _ p => p.expand
    services := c.services.mapValues fun key s => (s.stamp c key).expand
    tasks := c.tasks.mapValues fun key t => (t.stamp c key).expand
    interfaces := c.interfaces.mapValues fun _ i => i.expand }

def overlay (base upper : Component) : Component where
  name := textOver base.name upper.name
  tag := textOver base.tag upper.tag
  reference := textOver base.reference upper.reference
  instanceId := valueOver base.instanceId upper.instanceId
  instanceName := valueOver base.instanceName upper.instanceName
  instanceDate := valueOver base.instanceDate upper.instanceDate
  parent := valueOver base.parent upper.parent
  localParent := valueOver base.localParent upper.localParent
  description := valueOver base.description upper.description
  keywords := listOver base.keywords upper.keywords
  author := valueOver base.author upper.author
  homepage := valueOver base.homepage upper.homepage
  parameters := base.parameters.overlay Parameter.overlay upper.parameters
  services := base.services.overlay Resource.overlay upper.services
  tasks := base.tasks.overlay Resource.overlay upper.tasks
  dependencies := textsOver base.dependencies upper.dependencies
  interfaces := base.interfaces.overlay ComponentInterface.overlay upper.interfaces

/-- Lays `upper` over `base`, both expanded. -/
def merge (base upper : Component) : Component := (base.expand.overlay upper.expand).expand

end Component

end Manifest.Config
