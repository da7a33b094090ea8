import Manifest.Config
/-!
# Reading configs from JSON

The inverse of writing them, and a little more liberal: fields may come in
any order, unknown ones are skipped, null counts as left out where a field is
optional, and an object may be given by the list of its fields in their
order. Objects whose fields are those of two types together, resources and
component interfaces, are always written out. No field is given twice.
-/

namespace Manifest.Config.Reader

/-! ## Values -/

def bool? : Json → Option Bool
  | .bool b => some b
  | _ => none

/-- Nothing for null. -/
def optional {α : Type} (read : Json → Option α) : Json → Option (Option α)
  | .null => some none
  | value => (read value).map some

def list? {α : Type} (read : Json → Option α) (value : Json) : Option (List α) :=
  value.items?.bind (List.mapM read)

def texts? : Json → Option (List String) := list? Json.asString?

def dict? {α : Type} (read : Json → Option α) (value : Json) : Option (Dict α) := do
  let members ← value.members?
  pure (Dict.ofList (← members.mapM fun (k, v) => (read v).map (k, ·)))

/-- An integer above 63 bits is read as a float. -/
def scalar? : Json → Option Scalar
  | .bool b => some (.bool b)
  | .int i => some (if i < pow2 63 then .int i else .float (.ofInt i))
  | .float f => some (.float f)
  | .string s => some (.string s)
  | _ => none

/-! ## Fields -/

/-- The known members of an object, none twice. -/
def known? (names : List String) (members : Json.Members) : Option Json.Members :=
  let found := members.filter fun (k, _) => names.contains k
  if (found.map Prod.fst).Nodup then some found else none

/-- The known fields of an object, given by name or in order. -/
def fields? (names : List String) : Json → Option Json.Members
  | .object members => known? names members
  | .array items => if items.length ≤ names.length then some (names.zip items) else none
  | _ => none

/-- A field that has to be there. -/
def required? {α : Type} (fields : Json.Members) (name : String) (read : Json → Option α) :
    Option α :=
  (Json.member? name fields).bind read

/-- A field, or its default if it is left out. -/
def fieldOr? {α : Type} (fields : Json.Members) (name : String) (default : α)
    (read : Json → Option α) : Option α :=
  match Json.member? name fields with
  | some value => read value
  | none => some default

/-- A field that may be left out or null. -/
def field? {α : Type} (fields : Json.Members) (name : String) (read : Json → Option α) :
    Option (Option α) :=
  fieldOr? fields name none (optional read)

def text? (fields : Json.Members) (name : String) : Option (Option String) :=
  field? fields name Json.asString?

/-! ## Parts of a resource -/

def parameter? (value : Json) : Option Parameter := do
  let fs ← fields? ["required", "description", "default"] value
  pure {
    required := ← field? fs "required" bool?
    description := ← text? fs "description"
    default := ← fieldOr? fs "default" none fun v => (optional scalar? v).map some }

def build? (value : Json) : Option Build := do
  let fs ← fields? ["context", "dockerfile", "target", "args"] value
  pure {
    context := ← text? fs "context"
    dockerfile := ← text? fs "dockerfile"
    target := ← text? fs "target"
    args := ← fieldOr? fs "args" {} (dict? Json.asString?) }

def volume? (value : Json) : Option Volume := do
  let fs ← fields? ["mount_path", "host_path", "key", "description", "readonly"] value
  pure {
    mountPath := ← text? fs "mount_path"
    hostPath := ← text? fs "host_path"
    key := ← text? fs "key"
    description := ← text? fs "description"
    readonly := ← text? fs "readonly" }

def interfaceNames : List String :=
  ["description", "host", "port", "protocol", "username", "password", "url", "sticky"]

def interfaceOf? (fs : Json.Members) : Option Interface := do
  pure {
    description := ← text? fs "description"
    host := ← text? fs "host"
    port := ← text? fs "port"
    protocol := ← text? fs "protocol"
    username := ← text? fs "username"
    password := ← text? fs "password"
    url := ← text? fs "url"
    sticky := ← text? fs "sticky" }

def interface? (value : Json) : Option Interface :=
  (fields? interfaceNames value).bind interfaceOf?

def ingress? (value : Json) : Option Ingress := do
  let fs ← fields? ["enabled", "subdomain"] value
  pure { enabled := ← field? fs "enabled" bool?, subdomain := ← text? fs "subdomain" }

def componentInterface? (value : Json) : Option ComponentInterface := do
  let fs ← known? ("ingress" :: interfaceNames) (← value.members?)
  pure { interface := ← interfaceOf? fs, ingress := ← field? fs "ingress" ingress? }

def probe? (value : Json) : Option Probe := do
  let fs ← fields?
    ["success_threshold", "failure_threshold", "timeout", "interval", "initial_delay", "path",
      "port", "command"] value
  pure {
    successThreshold := ← text? fs "success_threshold"
    failureThreshold := ← text? fs "failure_threshold"
    timeout := ← text? fs "timeout"
    interval := ← text? fs "interval"
    initialDelay := ← text? fs "initial_delay"
    path := ← text? fs "path"
    port := ← text? fs "port"
    command := ← field? fs "command" texts? }

def metrics? (value : Json) : Option Metrics := do
  let fs ← fields? ["cpu", "memory"] value
  pure { cpu := ← text? fs "cpu", memory := ← text? fs "memory" }

def scaling? (value : Json) : Option Scaling := do
  let fs ← fields? ["min_replicas", "max_replicas", "metrics"] value
  pure {
    minReplicas := ← text? fs "min_replicas"
    maxReplicas := ← text? fs "max_replicas"
    metrics := ← fieldOr? fs "metrics" {} metrics? }

/-! ## Extensions -/

/-- How the fields of an extension are called and read. -/
structure ExtensionReader (X : Type) where
  names : List String
  read? : Json.Members → Option X

def serviceExtension : ExtensionReader ServiceExtension where
  names := ["interfaces", "liveness_probe", "replicas", "scaling"]
  read? fs := do
    pure {
      interfaces := ← fieldOr? fs "interfaces" {} (dict? interface?)
      probe := ← field? fs "liveness_probe" probe?
      replicas := ← text? fs "replicas"
      scaling := ← field? fs "scaling" scaling? }

def taskExtension : ExtensionReader TaskExtension where
  names := ["schedule"]
  read? fs := do pure { schedule := ← text? fs "schedule" }

/-! ## Resources -/

def sharedNames : List String :=
  ["name", "ref", "tag", "description", "image", "build", "command", "entrypoint",
    "environment", "volumes", "cpu", "memory", "depends_on", "labels", "debug"]

/-- A resource without its debug block. -/
def body? {X : Type} (extension : ExtensionReader X) (members : Json.Members) :
    Option (Body X) := do
  let fs ← known? (sharedNames ++ extension.names) members
  pure {
    identity := {
      name := ← required? fs "name" Json.asString?
      reference := ← required? fs "ref" Json.asString?
      tag := ← required? fs "tag" Json.asString? }
    description := ← text? fs "description"
    image := ← text? fs "image"
    build := ← field? fs "build" build?
    command := ← field? fs "command" texts?
    entrypoint := ← field? fs "entrypoint" texts?
    environment := ← fieldOr? fs "environment" {} (dict? Json.asString?)
    volumes := ← fieldOr? fs "volumes" {} (dict? volume?)
    cpu := ← text? fs "cpu"
    memory := ← text? fs "memory"
    dependsOn := ← fieldOr? fs "depends_on" [] texts?
    labels := ← fieldOr? fs "labels" {} (dict? Json.asString?)
    extension := ← extension.read? fs }

mutual

def resource? {X : Type} (extension : ExtensionReader X) : Json → Option (Resource X)
  | .object members => do
    pure ⟨← body? extension members, ← debugOf? extension members⟩
  | _ => none

/-- The debug block among the members of a resource. -/
def debugOf? {X : Type} (extension : ExtensionReader X) :
    Json.Members → Option (Option (Resource X))
  | [] => some none
  | (k, v) :: rest =>
    if k = "debug" then
      match v with
      | .null => some none
      | v => (resource? extension v).map some
    else debugOf? extension rest

end

def service? : Json → Option Service := resource? serviceExtension

def task? : Json → Option Task := resource? taskExtension

/-! ## Components -/

def component? (value : Json) : Option Component := do
  let fs ← fields?
    ["name", "tag", "ref", "instance_id", "instance_name", "instance_date", "extends",
      "local_path", "description", "keywords", "author", "homepage", "parameters", "services",
      "tasks", "dependencies", "interfaces"] value
  pure {
    name := ← required? fs "name" Json.asString?
    tag := ← required? fs "tag" Json.asString?
    reference := ← required? fs "ref" Json.asString?
    instanceId := ← text? fs "instance_id"
    instanceName := ← text? fs "instance_name"
    instanceDate := ← field? fs "instance_date" fun v => v.asString?.bind Instant.read?
    parent := ← text? fs "extends"
    localParent := ← text? fs "local_path"
    description := ← text? fs "description"
    keywords := ← fieldOr? fs "keywords" [] texts?
    author := ← text? fs "author"
    homepage := ← text? fs "homepage"
    parameters := ← fieldOr? fs "parameters" {} (dict? parameter?)
    services := ← fieldOr? fs "services" {} (dict? service?)
    tasks := ← fieldOr? fs "tasks" {} (dict? task?)
    dependencies := ← fieldOr? fs "dependencies" {} (dict? Json.asString?)
    interfaces := ← fieldOr? fs "interfaces" {} (dict? componentInterface?) }

end Manifest.Config.Reader
