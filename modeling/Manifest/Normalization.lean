import Manifest.Spec
import Manifest.Command
import Manifest.Config
import Manifest.Validation.Rule
import Manifest.Normalization.UrlShorthand
/-!
# From specs to configs

Normalising spells out every shorthand of a spec: scalars become texts, null
entries of an environment go, commands become lists of words, and resources
are given their names. What cannot be spelt out, a command line that does not
end or an interface that is no shorthand, is left out of the config and is a
problem; a spec with problems has no config.
-/

namespace Manifest.Normalization

open PropertyPath (join)

def text? (s : Option Scalar) : Option String := s.map Scalar.text

/-- The entries with a value. -/
def texts (d : Dict (Option Scalar)) : Dict String := d.filterMapValues fun _ value => text? value

/-! ## Commands -/

def words (d : Command.Dialect) : Spec.Command → Except Command.Fault (List String)
  | .list args => .ok (args.map Scalar.text)
  | .shell line => Command.words d line

/-- The words of a command that has some. -/
def words? (d : Command.Dialect) (c : Option Spec.Command) : Option (List String) :=
  c.bind fun c => (words d c).toOption

def commandProblems (d : Command.Dialect) (path : String) (c : Option Spec.Command) :
    List Diagnostic :=
  match c.map (words d) with
  | some (.error fault) =>
    [{ kind := .schemaValidation, path, constraint := "shell-syntax", message := fault.message,
       value := fault.line }]
  | _ => []

/-! ## Parts of a resource -/

def parameter : Spec.Parameter → Config.Parameter
  | .value v => { default := some v }
  | .definition d =>
    let required := (d.required.bind Scalar.asBool?).getD true
    { required := some required
      description := d.description
      default := if required then d.default else d.default.or (some none) }

def build (b : Spec.Build) : Config.Build where
  context := b.context
  dockerfile := b.dockerfile
  target := b.target
  args := texts b.args

def volume : Spec.Volume → Config.Volume
  | .hostPath path => { hostPath := some path }
  | .definition d =>
    { mountPath := d.mountPath
      hostPath := d.hostPath
      key := d.key
      description := d.description
      readonly := text? d.readonly }

def interfaceOf (d : Spec.InterfaceDefinition) : Config.Interface where
  description := d.description
  host := d.host
  port := text? d.port
  protocol := d.protocol
  username := d.username
  password := d.password
  url := d.url
  sticky := text? d.sticky

def interfaceAt (port : Scalar) : Config.Interface := { port := some port.text }

def interface : Spec.Interface → Config.Interface
  | .definition d => interfaceOf d
  | .port p => interfaceAt p

def probe (d : Command.Dialect) (p : Spec.Probe) : Config.Probe :=
  Config.Probe.filled
    { successThreshold := text? p.successThreshold
      failureThreshold := text? p.failureThreshold
      timeout := p.timeout
      interval := p.interval
      initialDelay := p.initialDelay
      path := p.path
      port := text? p.port
      command := words? d p.command }

def scaling (s : Spec.Scaling) : Config.Scaling where
  minReplicas := text? s.minReplicas
  maxReplicas := text? s.maxReplicas
  metrics :=
    { cpu := text? (s.metrics.bind Spec.Metrics.cpu)
      memory := text? (s.metrics.bind Spec.Metrics.memory) }

/-! ## Extensions -/

/-- How an extension is normalised, and the problems of that at a path. -/
structure Extension (X Y : Type) where
  config : Command.Dialect → X → Y
  problems : Command.Dialect → String → X → List Diagnostic

/-- The probe of a service, unless nothing is written in it. -/
def writtenProbe? (x : Spec.ServiceExtension) : Option Spec.Probe :=
  x.probe.filter fun p => !p.isEmpty

def service : Extension Spec.ServiceExtension Config.ServiceExtension where
  config d x :=
    { interfaces := x.interfaces.mapValues fun _ i => interface i
      probe := (writtenProbe? x).map (probe d)
      replicas := text? x.replicas
      scaling := x.scaling.map scaling }
  problems d path x :=
    match writtenProbe? x with
    | some p => commandProblems d (join (join path "liveness_probe") "command") p.command
    | none => []

def task : Extension Spec.TaskExtension Config.TaskExtension where
  config _ x := { schedule := x.schedule }
  problems _ _ _ := []

/-! ## Resources -/

variable {X Y : Type}

/-- The variables that a resource declares are those of its environment. -/
def dialect (delimiters : Delimiters) (b : Spec.Body X) : Command.Dialect :=
  ⟨delimiters, b.environment.keys⟩

/-- What has neither an image nor a build is built from where it is. -/
def buildOf (b : Spec.Body X) : Option Config.Build :=
  match b.build, b.image with
  | some given, _ => some (build given)
  | none, some _ => none
  | none, none => some .implicit

def body (e : Extension X Y) (delimiters : Delimiters) (identity : Config.Identity)
    (b : Spec.Body X) : Config.Body Y :=
  let d := dialect delimiters b
  { identity
    description := b.description
    image := b.image
    build := buildOf b
    command := words? d b.command
    entrypoint := words? d b.entrypoint
    environment := texts b.environment
    volumes := b.volumes.mapValues fun _ v => volume v
    cpu := text? b.cpu
    memory := text? b.memory
    dependsOn := b.dependsOn
    labels := b.labels
    extension := e.config d b.extension }

def bodyProblems (e : Extension X Y) (delimiters : Delimiters) (path : String)
    (b : Spec.Body X) : List Diagnostic :=
  let d := dialect delimiters b
  commandProblems d (join path "command") b.command
    ++ commandProblems d (join path "entrypoint") b.entrypoint
    ++ e.problems d path b.extension

/-- A resource and its debug block; what that debugs in turn is left out. -/
def resource (e : Extension X Y) (delimiters : Delimiters) (identity : Config.Identity)
    (r : Spec.Resource X) : Config.Resource Y where
  body := body e delimiters identity r.body
  debug := r.debug.map fun debug => ⟨body e delimiters identity debug.body, none⟩

def resourceProblems (e : Extension X Y) (delimiters : Delimiters) (path : String)
    (r : Spec.Resource X) : List Diagnostic :=
  bodyProblems e delimiters path r.body
    ++ match r.debug with
      | some debug => bodyProblems e delimiters (join path "debug") debug.body
      | none => []

/-! ## Interfaces of the component -/

def ingress (i : Spec.Ingress) : Config.Ingress where
  enabled := i.enabled.bind Scalar.asBool?
  subdomain := i.subdomain

/-- An interface that takes every field from its target. -/
def passedOn (d : Delimiters) (target : String) : Config.Interface where
  host := some (UrlShorthand.field d target "host")
  port := some (UrlShorthand.field d target "port")
  protocol := some (UrlShorthand.field d target "protocol")
  username := some (UrlShorthand.field d target "username")
  password := some (UrlShorthand.field d target "password")
  url := some (UrlShorthand.field d target "url")

/-- A text is a shorthand, or nothing; any other scalar is a port. -/
def componentInterface? (d : Delimiters) :
    Spec.ComponentInterface → Option Config.ComponentInterface
  | .value (.string text) => do
    pure { interface := passedOn d (← UrlShorthand.target? d text) }
  | .value port => some { interface := interfaceAt port }
  | .definition i given =>
    some { interface := interfaceOf i, ingress := given.map ingress }

/-- The text of an interface that is no shorthand. -/
def badShorthand? (d : Delimiters) : Spec.ComponentInterface → Option String
  | .value (.string text) => if (UrlShorthand.target? d text).isSome then none else some text
  | _ => none

def interfaceProblems (d : Delimiters) (reference key : String) (i : Spec.ComponentInterface) :
    List Diagnostic :=
  match badShorthand? d i with
  | some text =>
    [{ kind := .schemaValidation, path := join "interfaces" key, constraint := "interface-url",
       message := "Invalid interface url value for '" ++ reference ++ ".interfaces." ++ key
        ++ "'. Expected format: $\x7b\x7b services.<name>.interfaces.<name>.url \x7d\x7d.",
       value := text }]
  | none => []

/-! ## Components -/

/-- The names of the component, and what it extends: a directory behind the
mark of a file, or else a version. -/
def heading (c : Spec.Component) : Config.Component :=
  let local? := c.parent.bind fun parent =>
    (Text.dropStart? Validation.fileMark.toList parent.toList).map fun path =>
      String.ofList (Text.trim path)
  let named : Config.Component :=
    { name := c.name
      tag := c.tag.getD Slug.defaultTag
      parent := if local?.isSome then none else c.parent
      localParent := local? }
  { named with reference := named.ref }

def identity (c : Config.Component) (key : String) : Config.Identity :=
  ⟨key, c.resourceRef key, c.tag⟩

/-- What can be spelt out of a spec. -/
def outline (d : Delimiters) (c : Spec.Component) : Config.Component :=
  let named := heading c
  { named with
    description := c.description
    keywords := c.keywords
    author := c.author
    homepage := c.homepage
    parameters := c.parameters.mapValues fun _ p => parameter p
    services := c.services.mapValues fun key s => resource service d (identity named key) s
    tasks := c.tasks.mapValues fun key t => resource task d (identity named key) t
    dependencies := c.dependencies.mapValues fun _ version => version.text
    interfaces := c.interfaces.filterMapValues fun _ i => componentInterface? d i }

/-- What cannot, in document order. -/
def problems (d : Delimiters) (c : Spec.Component) : List Diagnostic :=
  c.services.entries.flatMap (fun (key, s) => resourceProblems service d (join "services" key) s)
    ++ c.tasks.entries.flatMap (fun (key, t) => resourceProblems task d (join "tasks" key) t)
    ++ c.interfaces.entries.flatMap fun (key, i) =>
      interfaceProblems d (heading c).reference key i

/-- The config of a spec. -/
def component (d : Delimiters) (c : Spec.Component) : Except Failure Config.Component :=
  unlessInvalid (problems d c) (outline d c)

end Manifest.Normalization
