import Manifest.Config
import Manifest.Proofs.Outcome
import Mathlib.Data.List.Forall2
/-!
# Configs with other texts

One config is another one rewritten if it has the same keys, lists of the same
lengths, the same optional fields, numbers and truth values, and texts that
are related one by one. The keys of its dictionaries come in byte order.
Dates are no texts.
-/

namespace Manifest

/-- The same keys, now in byte order, and related values. -/
structure Dict.Rewritten {α : Type} (r : α → α → Prop) (d d' : Dict α) : Prop where
  sorted : d'.keys.Pairwise (· < ·)
  values : ∀ key, Option.Rel r (d.get? key) (d'.get? key)

inductive Scalar.Rewritten (R : String → String → Prop) : Scalar → Scalar → Prop
  | bool (b : Bool) : Rewritten R (.bool b) (.bool b)
  | int (i : Int) : Rewritten R (.int i) (.int i)
  | float (f : Binary64) : Rewritten R (.float f) (.float f)
  | string {old new : String} (h : R old new) : Rewritten R (.string old) (.string new)

/-- JSON can hold the scalar: a whole number has 64 bits, any other number is
finite. -/
def Scalar.Storable : Scalar → Prop
  | .int i => i < pow2 63
  | .float f => f.isFinite = true
  | _ => True

namespace Config

/-! ## Parts of a resource -/

structure Parameter.Rewritten (R : String → String → Prop) (p p' : Parameter) : Prop where
  required : p.required = p'.required
  description : Option.Rel R p.description p'.description
  default : Option.Rel (Option.Rel (Scalar.Rewritten R)) p.default p'.default

structure Build.Rewritten (R : String → String → Prop) (b b' : Build) : Prop where
  context : Option.Rel R b.context b'.context
  dockerfile : Option.Rel R b.dockerfile b'.dockerfile
  target : Option.Rel R b.target b'.target
  args : Dict.Rewritten R b.args b'.args

structure Volume.Rewritten (R : String → String → Prop) (v v' : Volume) : Prop where
  mountPath : Option.Rel R v.mountPath v'.mountPath
  hostPath : Option.Rel R v.hostPath v'.hostPath
  key : Option.Rel R v.key v'.key
  description : Option.Rel R v.description v'.description
  readonly : Option.Rel R v.readonly v'.readonly

structure Interface.Rewritten (R : String → String → Prop) (i i' : Interface) : Prop where
  description : Option.Rel R i.description i'.description
  host : Option.Rel R i.host i'.host
  port : Option.Rel R i.port i'.port
  protocol : Option.Rel R i.protocol i'.protocol
  username : Option.Rel R i.username i'.username
  password : Option.Rel R i.password i'.password
  url : Option.Rel R i.url i'.url
  sticky : Option.Rel R i.sticky i'.sticky

structure Ingress.Rewritten (R : String → String → Prop) (i i' : Ingress) : Prop where
  enabled : i.enabled = i'.enabled
  subdomain : Option.Rel R i.subdomain i'.subdomain

structure ComponentInterface.Rewritten (R : String → String → Prop) (i i' : ComponentInterface) :
    Prop where
  interface : i.interface.Rewritten R i'.interface
  ingress : Option.Rel (Ingress.Rewritten R) i.ingress i'.ingress

structure Probe.Rewritten (R : String → String → Prop) (p p' : Probe) : Prop where
  successThreshold : Option.Rel R p.successThreshold p'.successThreshold
  failureThreshold : Option.Rel R p.failureThreshold p'.failureThreshold
  timeout : Option.Rel R p.timeout p'.timeout
  interval : Option.Rel R p.interval p'.interval
  initialDelay : Option.Rel R p.initialDelay p'.initialDelay
  path : Option.Rel R p.path p'.path
  port : Option.Rel R p.port p'.port
  command : Option.Rel (List.Forall₂ R) p.command p'.command

structure Metrics.Rewritten (R : String → String → Prop) (m m' : Metrics) : Prop where
  cpu : Option.Rel R m.cpu m'.cpu
  memory : Option.Rel R m.memory m'.memory

structure Scaling.Rewritten (R : String → String → Prop) (s s' : Scaling) : Prop where
  minReplicas : Option.Rel R s.minReplicas s'.minReplicas
  maxReplicas : Option.Rel R s.maxReplicas s'.maxReplicas
  metrics : s.metrics.Rewritten R s'.metrics

/-! ## Resources -/

structure ServiceExtension.Rewritten (R : String → String → Prop) (x x' : ServiceExtension) :
    Prop where
  interfaces : x.interfaces.Rewritten (Interface.Rewritten R) x'.interfaces
  probe : Option.Rel (Probe.Rewritten R) x.probe x'.probe
  replicas : Option.Rel R x.replicas x'.replicas
  scaling : Option.Rel (Scaling.Rewritten R) x.scaling x'.scaling

structure TaskExtension.Rewritten (R : String → String → Prop) (x x' : TaskExtension) : Prop where
  schedule : Option.Rel R x.schedule x'.schedule

structure Identity.Rewritten (R : String → String → Prop) (i i' : Identity) : Prop where
  name : R i.name i'.name
  reference : R i.reference i'.reference
  tag : R i.tag i'.tag

section Resources

variable {X : Type}

structure Body.Rewritten (R : String → String → Prop) (x : X → X → Prop) (b b' : Body X) :
    Prop where
  identity : b.identity.Rewritten R b'.identity
  description : Option.Rel R b.description b'.description
  image : Option.Rel R b.image b'.image
  build : Option.Rel (Build.Rewritten R) b.build b'.build
  command : Option.Rel (List.Forall₂ R) b.command b'.command
  entrypoint : Option.Rel (List.Forall₂ R) b.entrypoint b'.entrypoint
  environment : b.environment.Rewritten R b'.environment
  volumes : b.volumes.Rewritten (Volume.Rewritten R) b'.volumes
  cpu : Option.Rel R b.cpu b'.cpu
  memory : Option.Rel R b.memory b'.memory
  dependsOn : List.Forall₂ R b.dependsOn b'.dependsOn
  labels : b.labels.Rewritten R b'.labels
  extension : x b.extension b'.extension

/-- Debug blocks are rewritten in turn. -/
inductive Resource.Rewritten (R : String → String → Prop) (x : X → X → Prop) :
    Resource X → Resource X → Prop
  | plain {b b' : Body X} (body : b.Rewritten R x b') : Rewritten R x ⟨b, none⟩ ⟨b', none⟩
  | debug {b b' : Body X} {debug debug' : Resource X} (body : b.Rewritten R x b')
      (inner : Rewritten R x debug debug') : Rewritten R x ⟨b, some debug⟩ ⟨b', some debug'⟩

end Resources

def Service.Rewritten (R : String → String → Prop) : Service → Service → Prop :=
  Resource.Rewritten R (ServiceExtension.Rewritten R)

def Task.Rewritten (R : String → String → Prop) : Task → Task → Prop :=
  Resource.Rewritten R (TaskExtension.Rewritten R)

/-! ## Components -/

structure Component.Rewritten (R : String → String → Prop) (c c' : Component) : Prop where
  name : R c.name c'.name
  tag : R c.tag c'.tag
  reference : R c.reference c'.reference
  instanceId : Option.Rel R c.instanceId c'.instanceId
  instanceName : Option.Rel R c.instanceName c'.instanceName
  instanceDate : c.instanceDate = c'.instanceDate
  parent : Option.Rel R c.parent c'.parent
  localParent : Option.Rel R c.localParent c'.localParent
  description : Option.Rel R c.description c'.description
  keywords : List.Forall₂ R c.keywords c'.keywords
  author : Option.Rel R c.author c'.author
  homepage : Option.Rel R c.homepage c'.homepage
  parameters : c.parameters.Rewritten (Parameter.Rewritten R) c'.parameters
  services : c.services.Rewritten (Service.Rewritten R) c'.services
  tasks : c.tasks.Rewritten (Task.Rewritten R) c'.tasks
  dependencies : c.dependencies.Rewritten R c'.dependencies
  interfaces : c.interfaces.Rewritten (ComponentInterface.Rewritten R) c'.interfaces

/-- Another config is this one rewritten but for its parameters, which are
related one by one. -/
structure Component.RewrittenWith (R : String → String → Prop) (q : Parameter → Parameter → Prop)
    (c c' : Component) : Prop where
  rest : ({ c with parameters := {} } : Component).Rewritten R { c' with parameters := {} }
  parameters : c.parameters.Rewritten q c'.parameters

theorem Component.RewrittenWith.rewritten {R : String → String → Prop} {c c' : Component}
    (h : c.RewrittenWith R (Parameter.Rewritten R) c') : c.Rewritten R c' :=
  { h.rest with parameters := h.parameters }

/-- JSON can hold the defaults of the parameters. -/
def Component.Storable (c : Component) : Prop :=
  ∀ p ∈ c.parameters.values, ∀ value, p.default = some (some value) → value.Storable

/-! ## The number of arguments -/

/-- How many arguments each command of a resource has, and of its debug
blocks: the command, the entrypoint and what a probe runs. -/
def Resource.argumentCounts {X : Type} (probe : X → Option (List String)) :
    Resource X → List (Option Nat)
  | ⟨b, debug⟩ =>
    [b.command.map List.length, b.entrypoint.map List.length, (probe b.extension).map List.length]
      ++ match debug with
        | some debug => debug.argumentCounts probe
        | none => []

def Service.argumentCounts (s : Service) : List (Option Nat) :=
  Resource.argumentCounts (fun x => x.probe.bind Probe.command) s

def Task.argumentCounts (t : Task) : List (Option Nat) :=
  Resource.argumentCounts (fun _ => none) t

variable {R : String → String → Prop}

theorem map_length_eq {args args' : Option (List String)}
    (h : Option.Rel (List.Forall₂ R) args args') :
    args'.map List.length = args.map List.length :=
  map_eq_of_rel h fun hargs => hargs.length_eq.symm

theorem Resource.Rewritten.argumentCounts {X : Type} {x : X → X → Prop}
    {probe : X → Option (List String)} {r r' : Resource X} (h : r.Rewritten R x r')
    (hprobe : ∀ {a b}, x a b → Option.Rel (List.Forall₂ R) (probe a) (probe b)) :
    r'.argumentCounts probe = r.argumentCounts probe := by
  induction h with
  | plain body =>
      rw [Resource.argumentCounts, Resource.argumentCounts, map_length_eq body.command,
        map_length_eq body.entrypoint, map_length_eq (hprobe body.extension)]
  | debug body _ ih =>
      rw [Resource.argumentCounts, Resource.argumentCounts, map_length_eq body.command,
        map_length_eq body.entrypoint, map_length_eq (hprobe body.extension)]
      exact congrArg _ ih

theorem Service.Rewritten.argumentCounts {s s' : Service} (h : Service.Rewritten R s s') :
    s'.argumentCounts = s.argumentCounts := by
  refine Resource.Rewritten.argumentCounts h fun {a b} hx => ?_
  have hprobe := hx.probe
  generalize a.probe = p, b.probe = p' at hprobe
  cases hprobe with
  | none => exact .none
  | some hprobe => exact hprobe.command

theorem Task.Rewritten.argumentCounts {t t' : Task} (h : Task.Rewritten R t t') :
    t'.argumentCounts = t.argumentCounts :=
  Resource.Rewritten.argumentCounts h fun _ => .none

end Config

end Manifest
