import Manifest.Spec
import Manifest.Yaml
/-!
# Reading specs from values

Reading looks through tags, skips unknown fields, and takes null for an empty
list or dictionary. A key has to be a string.

Values that may have one of several forms, and everything that only services
or only tasks have, are read in `Loose` places. There a tag is an error and
null is no collection; but a list may stand for an object, whose fields it
gives in order, and so may an index for the name of a field.
-/

namespace Manifest.Spec.Reader

/-! ## Strict places -/

def optional {α : Type} (read : Yaml → Option α) : Yaml → Option (Option α)
  | .null => some none
  | value => (read value).map some

def list? {α : Type} (read : Yaml → Option α) (value : Yaml) : Option (List α) :=
  match value.untagged with
  | .sequence items => items.mapM read
  | .null => some []
  | _ => none

/-- The entries of a mapping whose keys are strings. -/
def named? (entries : Yaml.Entries) : Option (List (String × Yaml)) :=
  entries.mapM fun (k, v) => k.asString?.map (·, v)

def fields? (value : Yaml) : Option (List (String × Yaml)) :=
  match value.untagged with
  | .mapping entries => named? entries
  | .null => some []
  | _ => none

def dictOf? {α : Type} (read : Yaml → Option α) (fields : List (String × Yaml)) :
    Option (Dict α) := do
  pure (Dict.ofList (← fields.mapM fun (k, v) => (read v).map (k, ·)))

def dict? {α : Type} (read : Yaml → Option α) (value : Yaml) : Option (Dict α) := do
  dictOf? read (← fields? value)

/-- Reads a field, or takes its default if it is left out. -/
def fieldOr {α : Type} (fields : List (String × Yaml)) (name : String) (default : α)
    (read : Yaml → Option α) : Option α :=
  match fields.lookup name with
  | some value => read value
  | none => some default

/-- A field that may be left out or null. -/
def field? {α : Type} (fields : List (String × Yaml)) (name : String)
    (read : Yaml → Option α) : Option (Option α) :=
  fieldOr fields name none (optional read)

def text? (value : Yaml) : Option String := value.asString?

mutual

/-- Is there no tag anywhere in the value? -/
def tagFree : Yaml → Bool
  | .tagged .. => false
  | .sequence items => tagFreeItems items
  | .mapping entries => tagFreeEntries entries
  | _ => true

def tagFreeItems : List Yaml → Bool
  | [] => true
  | item :: rest => tagFree item && tagFreeItems rest

def tagFreeEntries : Yaml.Entries → Bool
  | [] => true
  | (k, v) :: rest => tagFree k && tagFree v && tagFreeEntries rest

end

/-! ## Loose places -/

namespace Loose

def text? : Yaml → Option String
  | .string s => some s
  | _ => none

/-- An integer above 63 bits is read as a float. -/
def scalar? : Yaml → Option Scalar
  | .bool b => some (.bool b)
  | .int i => some (if i < pow2 63 then .int i else .float (.ofInt i))
  | .float f => some (.float f)
  | .string s => some (.string s)
  | _ => none

def list? {α : Type} (read : Yaml → Option α) : Yaml → Option (List α)
  | .sequence items => items.mapM read
  | _ => none

def dict? {α : Type} (read : Yaml → Option α) : Yaml → Option (Dict α)
  | .mapping entries => do
    pure (Dict.ofList (← entries.mapM fun (k, v) => do pure (← text? k, ← read v)))
  | _ => none

/-- The field that a key names, by its name or by its index; nothing for an
unknown one. -/
def keyName? (names : List String) : Yaml → Option (Option String)
  | .string s => some (if names.contains s then some s else none)
  | .int i => if 0 ≤ i then some (names[i.toNat]?) else none
  | _ => none

/-- The known fields of an object, given as a mapping or as a list in
order; none twice. -/
def object? (names : List String) : Yaml → Option (List (String × Yaml))
  | .mapping entries => do
    let found ← entries.mapM fun (k, v) => do pure ((← keyName? names k).map (·, v))
    let fields := found.filterMap id
    if (fields.map Prod.fst).Nodup then some fields else none
  | .sequence items => if items.length ≤ names.length then some (names.zip items) else none
  | _ => none

end Loose

/-- Reads a value in a loose place. -/
def loosely {α : Type} (read : Yaml → Option α) (value : Yaml) : Option α :=
  if tagFree value then read value else none

def scalar? : Yaml → Option Scalar := loosely Loose.scalar?

/-! ## Values of several forms -/

def parameterDefinition? (value : Yaml) : Option ParameterDefinition := do
  let fs ← Loose.object? ["required", "description", "default"] value
  pure {
    required := ← field? fs "required" Loose.scalar?
    description := ← field? fs "description" Loose.text?
    default := ← fieldOr fs "default" none fun v => (optional Loose.scalar? v).map some }

def parameter? : Yaml → Option Parameter := loosely fun value =>
  ((parameterDefinition? value).map .definition).or
    ((optional Loose.scalar? value).map .value)

def looseCommand? (value : Yaml) : Option Command :=
  ((Loose.list? Loose.scalar? value).map .list).or ((Loose.text? value).map .shell)

def command? : Yaml → Option Command := loosely looseCommand?

def volumeDefinition? (value : Yaml) : Option VolumeDefinition := do
  let fs ← Loose.object? ["mount_path", "host_path", "key", "description", "readonly"] value
  pure {
    mountPath := ← field? fs "mount_path" Loose.text?
    hostPath := ← field? fs "host_path" Loose.text?
    key := ← field? fs "key" Loose.text?
    description := ← field? fs "description" Loose.text?
    readonly := ← field? fs "readonly" Loose.scalar? }

def volume? : Yaml → Option Volume := loosely fun value =>
  ((volumeDefinition? value).map .definition).or ((Loose.text? value).map .hostPath)

def interfaceNames : List String :=
  ["description", "host", "port", "protocol", "username", "password", "url", "sticky"]

def interfaceOf? (fs : List (String × Yaml)) : Option InterfaceDefinition := do
  pure {
    description := ← field? fs "description" Loose.text?
    host := ← field? fs "host" Loose.text?
    port := ← field? fs "port" Loose.scalar?
    protocol := ← field? fs "protocol" Loose.text?
    username := ← field? fs "username" Loose.text?
    password := ← field? fs "password" Loose.text?
    url := ← field? fs "url" Loose.text?
    sticky := ← field? fs "sticky" Loose.scalar? }

def interface? (value : Yaml) : Option Interface :=
  (((Loose.object? interfaceNames value).bind interfaceOf?).map .definition).or
    ((Loose.scalar? value).map .port)

def ingress? (value : Yaml) : Option Ingress := do
  let fs ← Loose.object? ["enabled", "subdomain"] value
  pure {
    enabled := ← field? fs "enabled" Loose.scalar?
    subdomain := ← field? fs "subdomain" Loose.text? }

/-- The named fields of an object that never is a list and whose keys are
strings or indices. -/
def openFields? : Yaml → Option (List (String × Yaml))
  | .mapping entries => do
    let found ← entries.mapM fun (k, v) =>
      match k with
      | .string s => some (some (s, v))
      | .int i => if 0 ≤ i then some none else none
      | _ => none
    pure (found.filterMap id)
  | _ => none

def componentInterface? : Yaml → Option ComponentInterface := loosely fun value =>
  (do
    let fs ← openFields? value
    let ingress ← field? fs "ingress" ingress?
    pure (ComponentInterface.definition (← interfaceOf? fs) ingress)).or
    ((Loose.scalar? value).map .value)

/-! ## Extensions -/

def probe? (value : Yaml) : Option Probe := do
  let fs ← Loose.object?
    ["success_threshold", "failure_threshold", "timeout", "interval", "initial_delay", "path",
      "port", "command"] value
  pure {
    successThreshold := ← field? fs "success_threshold" Loose.scalar?
    failureThreshold := ← field? fs "failure_threshold" Loose.scalar?
    timeout := ← field? fs "timeout" Loose.text?
    interval := ← field? fs "interval" Loose.text?
    initialDelay := ← field? fs "initial_delay" Loose.text?
    path := ← field? fs "path" Loose.text?
    port := ← field? fs "port" Loose.scalar?
    command := ← field? fs "command" looseCommand? }

def metrics? (value : Yaml) : Option Metrics := do
  let fs ← Loose.object? ["cpu", "memory"] value
  pure { cpu := ← field? fs "cpu" Loose.scalar?, memory := ← field? fs "memory" Loose.scalar? }

def scaling? (value : Yaml) : Option Scaling := do
  let fs ← Loose.object? ["min_replicas", "max_replicas", "metrics"] value
  pure {
    minReplicas := ← field? fs "min_replicas" Loose.scalar?
    maxReplicas := ← field? fs "max_replicas" Loose.scalar?
    metrics := ← field? fs "metrics" metrics? }

def serviceExtension? (fs : List (String × Yaml)) : Option ServiceExtension := do
  pure {
    interfaces := ← fieldOr fs "interfaces" {} (Loose.dict? interface?)
    probe := ← field? fs "liveness_probe" probe?
    replicas := ← field? fs "replicas" Loose.scalar?
    scaling := ← field? fs "scaling" scaling? }

def taskExtension? (fs : List (String × Yaml)) : Option TaskExtension := do
  pure { schedule := ← field? fs "schedule" Loose.text? }

/-! ## Resources -/

def build? (value : Yaml) : Option Build := do
  let fs ← fields? value
  pure {
    context := ← field? fs "context" text?
    dockerfile := ← field? fs "dockerfile" text?
    target := ← field? fs "target" text?
    args := ← fieldOr fs "args" {} (dict? (optional scalar?)) }

/-- The fields that every resource has. -/
def sharedNames : List String :=
  ["description", "image", "build", "command", "entrypoint", "environment", "volumes", "cpu",
    "memory", "depends_on", "labels", "debug"]

/-- A resource without its debug block. All fields but the shared ones are
the extension's place, a loose one. -/
def body? {X : Type} (extension? : List (String × Yaml) → Option X)
    (fs : List (String × Yaml)) : Option (Body X) := do
  let others := fs.filter fun (k, _) => !sharedNames.contains k
  if !others.all (fun (_, v) => tagFree v) then none
  pure {
    description := ← field? fs "description" text?
    image := ← field? fs "image" text?
    build := ← field? fs "build" build?
    command := ← field? fs "command" command?
    entrypoint := ← field? fs "entrypoint" command?
    environment := ← fieldOr fs "environment" {} (dict? (optional scalar?))
    volumes := ← fieldOr fs "volumes" {} (dict? volume?)
    cpu := ← field? fs "cpu" scalar?
    memory := ← field? fs "memory" scalar?
    dependsOn := ← fieldOr fs "depends_on" [] (list? text?)
    labels := ← fieldOr fs "labels" {} (dict? text?)
    extension := ← extension? others }

mutual

def resource? {X : Type} (extension? : List (String × Yaml) → Option X) :
    Yaml → Option (Resource X)
  | .mapping entries => do
    let body ← body? extension? (← named? entries)
    pure ⟨body, ← debugOf? extension? entries⟩
  | .null => do pure ⟨← body? extension? [], none⟩
  | .tagged _ value => resource? extension? value
  | _ => none

/-- The debug block among the entries of a resource. -/
def debugOf? {X : Type} (extension? : List (String × Yaml) → Option X) :
    Yaml.Entries → Option (Option (Resource X))
  | [] => some none
  | (k, v) :: rest =>
    if k.asString? = some "debug" then
      match v with
      | .null => some none
      | v => (resource? extension? v).map some
    else debugOf? extension? rest

end

def service? : Yaml → Option Service := resource? serviceExtension?

def task? : Yaml → Option Task := resource? taskExtension?

/-! ## Components -/

/-- Reads a document; only the name is required. -/
def component? (value : Yaml) : Option Component := do
  let fs ← fields? value
  pure {
    name := ← (fs.lookup "name").bind text?
    tag := ← field? fs "tag" text?
    parent := ← field? fs "extends" text?
    description := ← field? fs "description" text?
    keywords := ← fieldOr fs "keywords" [] (list? text?)
    author := ← field? fs "author" text?
    homepage := ← field? fs "homepage" text?
    parameters := ← fieldOr fs "parameters" {} (dict? parameter?)
    services := ← fieldOr fs "services" {} (dict? service?)
    tasks := ← fieldOr fs "tasks" {} (dict? task?)
    dependencies := ← fieldOr fs "dependencies" {} (dict? scalar?)
    interfaces := ← fieldOr fs "interfaces" {} (dict? componentInterface?) }

end Manifest.Spec.Reader
