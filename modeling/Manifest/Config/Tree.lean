import Manifest.Config
/-!
# Configs as JSON

A field that is left out is not written, and neither are empty keywords,
dependencies of a resource, labels and build arguments; the other lists and
dictionaries are written also when they are empty. The fields of an extension
stand among those of its resource.
-/

namespace Manifest.Config

/-! ## Members -/

/-- A member that is there only if it has a value. -/
def optional {α : Type} (name : String) (encode : α → Json) : Option α → Json.Members
  | some value => [(name, encode value)]
  | none => []

def optionalText (name : String) (value : Option String) : Json.Members :=
  optional name .string value

def dictJson {α : Type} (encode : α → Json) (d : Dict α) : Json :=
  .object (d.entries.map fun (k, v) => (k, encode v))

/-- A list of texts that is left out when it is empty. -/
def textsUnlessEmpty (name : String) (texts : List String) : Json.Members :=
  if texts.isEmpty then [] else [(name, .ofTexts texts)]

/-- A dictionary of texts that is left out when it is empty. -/
def dictUnlessEmpty (name : String) (d : Dict String) : Json.Members :=
  if d.isEmpty then [] else [(name, dictJson .string d)]

/-! ## Parts of a resource -/

def Parameter.toJson (p : Parameter) : Json :=
  .object (optional "required" .bool p.required ++ optionalText "description" p.description
    ++ optional "default" (fun v => (v.map Scalar.toJson).getD .null) p.default)

def Build.toJson (b : Build) : Json :=
  .object (optionalText "context" b.context ++ optionalText "dockerfile" b.dockerfile
    ++ optionalText "target" b.target ++ dictUnlessEmpty "args" b.args)

def Volume.toJson (v : Volume) : Json :=
  .object (optionalText "mount_path" v.mountPath ++ optionalText "host_path" v.hostPath
    ++ optionalText "key" v.key ++ optionalText "description" v.description
    ++ optionalText "readonly" v.readonly)

def Interface.members (i : Interface) : Json.Members :=
  optionalText "description" i.description ++ optionalText "host" i.host
    ++ optionalText "port" i.port ++ optionalText "protocol" i.protocol
    ++ optionalText "username" i.username ++ optionalText "password" i.password
    ++ optionalText "url" i.url ++ optionalText "sticky" i.sticky

def Interface.toJson (i : Interface) : Json := .object i.members

def Ingress.toJson (i : Ingress) : Json :=
  .object (optional "enabled" .bool i.enabled ++ optionalText "subdomain" i.subdomain)

def ComponentInterface.toJson (i : ComponentInterface) : Json :=
  .object (i.interface.members ++ optional "ingress" Ingress.toJson i.ingress)

def Probe.toJson (p : Probe) : Json :=
  .object (optionalText "success_threshold" p.successThreshold
    ++ optionalText "failure_threshold" p.failureThreshold ++ optionalText "timeout" p.timeout
    ++ optionalText "interval" p.interval ++ optionalText "initial_delay" p.initialDelay
    ++ optionalText "path" p.path ++ optionalText "port" p.port
    ++ optional "command" .ofTexts p.command)

def Metrics.toJson (m : Metrics) : Json :=
  .object (optionalText "cpu" m.cpu ++ optionalText "memory" m.memory)

def Scaling.toJson (s : Scaling) : Json :=
  .object (optionalText "min_replicas" s.minReplicas
    ++ optionalText "max_replicas" s.maxReplicas ++ [("metrics", s.metrics.toJson)])

def ServiceExtension.members (x : ServiceExtension) : Json.Members :=
  [("interfaces", dictJson Interface.toJson x.interfaces)]
    ++ optional "liveness_probe" Probe.toJson x.probe ++ optionalText "replicas" x.replicas
    ++ optional "scaling" Scaling.toJson x.scaling

def TaskExtension.members (x : TaskExtension) : Json.Members :=
  optionalText "schedule" x.schedule

/-! ## Resources -/

/-- The fields of a resource before its debug block. -/
def Body.members {X : Type} (b : Body X) : Json.Members :=
  [("name", .string b.identity.name), ("ref", .string b.identity.reference),
    ("tag", .string b.identity.tag)]
    ++ optionalText "description" b.description ++ optionalText "image" b.image
    ++ optional "build" Build.toJson b.build ++ optional "command" .ofTexts b.command
    ++ optional "entrypoint" .ofTexts b.entrypoint
    ++ [("environment", dictJson .string b.environment),
      ("volumes", dictJson Volume.toJson b.volumes)]
    ++ optionalText "cpu" b.cpu ++ optionalText "memory" b.memory
    ++ textsUnlessEmpty "depends_on" b.dependsOn ++ dictUnlessEmpty "labels" b.labels

def Resource.toJson {X : Type} (extension : X → Json.Members) : Resource X → Json
  | ⟨body, none⟩ => .object (body.members ++ extension body.extension)
  | ⟨body, some debug⟩ =>
    .object (body.members ++ [("debug", debug.toJson extension)] ++ extension body.extension)

def serviceJson (s : Service) : Json := s.toJson ServiceExtension.members

def taskJson (t : Task) : Json := t.toJson TaskExtension.members

/-! ## Components -/

def Component.toJson (c : Component) : Json :=
  .object ([("name", .string c.name), ("tag", .string c.tag), ("ref", .string c.reference)]
    ++ optionalText "instance_id" c.instanceId ++ optionalText "instance_name" c.instanceName
    ++ optional "instance_date" (fun t => .string t.text) c.instanceDate
    ++ optionalText "extends" c.parent ++ optionalText "local_path" c.localParent
    ++ optionalText "description" c.description ++ textsUnlessEmpty "keywords" c.keywords
    ++ optionalText "author" c.author ++ optionalText "homepage" c.homepage
    ++ [("parameters", dictJson Parameter.toJson c.parameters),
      ("services", dictJson serviceJson c.services), ("tasks", dictJson taskJson c.tasks),
      ("dependencies", dictJson .string c.dependencies),
      ("interfaces", dictJson ComponentInterface.toJson c.interfaces)])

end Manifest.Config
