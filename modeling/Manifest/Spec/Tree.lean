import Manifest.Spec
/-!
# Specs as JSON

Every field is written, null where it is left out. A value of several forms
is written as the form it has.
-/

namespace Manifest.Spec

def ofScalar? (s : Option Scalar) : Json := (s.map Scalar.toJson).getD .null

def ofDict {α : Type} (encode : α → Json) (d : Dict α) : Json :=
  .object (d.entries.map fun (k, v) => (k, encode v))

def Parameter.toJson : Parameter → Json
  | .definition d =>
    .object [("required", ofScalar? d.required), ("description", .ofText? d.description),
      ("default", ofScalar? (d.default.bind id))]
  | .value v => ofScalar? v

def Command.toJson : Command → Json
  | .list args => .array (args.map Scalar.toJson)
  | .shell line => .string line

def ofCommand? (c : Option Command) : Json := (c.map Command.toJson).getD .null

def Build.toJson (b : Build) : Json :=
  .object [("context", .ofText? b.context), ("dockerfile", .ofText? b.dockerfile),
    ("target", .ofText? b.target), ("args", ofDict ofScalar? b.args)]

def Volume.toJson : Volume → Json
  | .definition d =>
    .object [("mount_path", .ofText? d.mountPath), ("host_path", .ofText? d.hostPath),
      ("key", .ofText? d.key), ("description", .ofText? d.description),
      ("readonly", ofScalar? d.readonly)]
  | .hostPath path => .string path

def InterfaceDefinition.members (d : InterfaceDefinition) : Json.Members :=
  [("description", .ofText? d.description), ("host", .ofText? d.host),
    ("port", ofScalar? d.port), ("protocol", .ofText? d.protocol),
    ("username", .ofText? d.username), ("password", .ofText? d.password),
    ("url", .ofText? d.url), ("sticky", ofScalar? d.sticky)]

def Interface.toJson : Interface → Json
  | .definition d => .object d.members
  | .port p => p.toJson

def Ingress.toJson (i : Ingress) : Json :=
  .object [("enabled", ofScalar? i.enabled), ("subdomain", .ofText? i.subdomain)]

def ComponentInterface.toJson : ComponentInterface → Json
  | .definition d ingress =>
    .object (d.members ++ [("ingress", (ingress.map Ingress.toJson).getD .null)])
  | .value v => v.toJson

def Probe.toJson (p : Probe) : Json :=
  .object [("success_threshold", ofScalar? p.successThreshold),
    ("failure_threshold", ofScalar? p.failureThreshold), ("timeout", .ofText? p.timeout),
    ("interval", .ofText? p.interval), ("initial_delay", .ofText? p.initialDelay),
    ("path", .ofText? p.path), ("port", ofScalar? p.port), ("command", ofCommand? p.command)]

def Scaling.toJson (s : Scaling) : Json :=
  let metrics (m : Metrics) : Json :=
    .object [("cpu", ofScalar? m.cpu), ("memory", ofScalar? m.memory)]
  .object [("min_replicas", ofScalar? s.minReplicas), ("max_replicas", ofScalar? s.maxReplicas),
    ("metrics", (s.metrics.map metrics).getD .null)]

def ServiceExtension.members (x : ServiceExtension) : Json.Members :=
  [("interfaces", ofDict Interface.toJson x.interfaces),
    ("liveness_probe", (x.probe.map Probe.toJson).getD .null),
    ("replicas", ofScalar? x.replicas), ("scaling", (x.scaling.map Scaling.toJson).getD .null)]

def TaskExtension.members (x : TaskExtension) : Json.Members :=
  [("schedule", .ofText? x.schedule)]

def Body.members {X : Type} (b : Body X) : Json.Members :=
  [("description", .ofText? b.description), ("image", .ofText? b.image),
    ("build", (b.build.map Build.toJson).getD .null), ("command", ofCommand? b.command),
    ("entrypoint", ofCommand? b.entrypoint),
    ("environment", ofDict ofScalar? b.environment),
    ("volumes", ofDict Volume.toJson b.volumes), ("cpu", ofScalar? b.cpu),
    ("memory", ofScalar? b.memory), ("depends_on", .ofTexts b.dependsOn),
    ("labels", ofDict .string b.labels)]

mutual

def Resource.toJson {X : Type} (extension : X → Json.Members) : Resource X → Json
  | ⟨body, debug⟩ =>
    .object (body.members ++ [("debug", debugJson extension debug)] ++ extension body.extension)

def debugJson {X : Type} (extension : X → Json.Members) : Option (Resource X) → Json
  | none => .null
  | some debug => debug.toJson extension

end

def Component.toJson (c : Component) : Json :=
  .object [("name", .string c.name), ("tag", .ofText? c.tag), ("extends", .ofText? c.parent),
    ("description", .ofText? c.description), ("keywords", .ofTexts c.keywords),
    ("author", .ofText? c.author), ("homepage", .ofText? c.homepage),
    ("parameters", ofDict Parameter.toJson c.parameters),
    ("services", ofDict (Resource.toJson ServiceExtension.members) c.services),
    ("tasks", ofDict (Resource.toJson TaskExtension.members) c.tasks),
    ("dependencies", ofDict Scalar.toJson c.dependencies),
    ("interfaces", ofDict ComponentInterface.toJson c.interfaces)]

end Manifest.Spec
