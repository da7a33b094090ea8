import Manifest.Slug.Reader
import Manifest.Yaml
/-!
# The shape of a component document

Every object of a document has a table of its fields. A shape says what a
value may be; the name in `Shape.object` and its kin selects the table.
-/

namespace Manifest.Schema

/-- What the keys of a dictionary look like. -/
inductive KeyGrammar where
  | any
  | name
  | environmentKey
  | parameterKey
  | componentName
deriving DecidableEq, Repr

namespace KeyGrammar

def accepts (g : KeyGrammar) (key : String) : Bool :=
  match g with
  | .any => true
  | .name => Slug.isNameText key
  | .environmentKey => !key.isEmpty && key.toList.all Slug.isWordChar
  | .parameterKey => !key.isEmpty && key.toList.all fun c => Slug.isWordChar c || c = '-'
  | .componentName => (Slug.splitComponentName? key).isSome

def description : KeyGrammar → String
  | .any => "any key"
  | .name =>
    "must contain only lower alphanumeric characters and single hyphens, at most 32 characters"
  | .environmentKey => "must contain only alphanumeric characters and underscores"
  | .parameterKey => "must contain only alphanumeric characters, underscores, and hyphens"
  | .componentName => "must be of the form <account-name>/<component-name>"

end KeyGrammar

/-- The objects of a document. -/
inductive ObjectName where
  | component
  | parameter
  | service
  | task
  | build
  | volume
  | interface
  | livenessProbe
  | scaling
  | metrics
  | componentInterface
  | ingress
deriving DecidableEq, Repr

def ObjectName.text : ObjectName → String
  | .component => "component"
  | .parameter => "parameter"
  | .service => "service"
  | .task => "task"
  | .build => "build"
  | .volume => "volume"
  | .interface => "interface"
  | .livenessProbe => "liveness_probe"
  | .scaling => "scaling"
  | .metrics => "metrics"
  | .componentInterface => "component interface"
  | .ingress => "ingress"

/-- A value in one place, or the value of a dictionary's entry. -/
inductive Shape where
  | text
  | scalar
  | textList
  | command
  | object (name : ObjectName)
  | textOr (name : ObjectName)
  | scalarOr (name : ObjectName)
  | dict (keys : KeyGrammar) (values : Shape) (nullable : Bool)
deriving DecidableEq, Repr

namespace Shape

/-- An explicit null stands for a field that is left out; an empty list or
dictionary is not written that way. -/
def acceptsNull : Shape → Bool
  | .dict .. => false
  | .textList => false
  | _ => true

def expected : Shape → String
  | .text => "must be a string"
  | .scalar => "must be a string, number, or boolean"
  | .textList => "must be a list of strings"
  | .command => "must be a string or a list of strings"
  | .object _ => "must be a mapping"
  | .dict .. => "must be a mapping"
  | .textOr _ => "must be a string or a mapping"
  | .scalarOr _ => "must be a scalar or a mapping"

end Shape

structure Field where
  name : String
  shape : Shape
  required : Bool := false
deriving DecidableEq, Repr

/-! ## The tables -/

def buildFields : List Field :=
  [⟨"context", .text, false⟩, ⟨"dockerfile", .text, false⟩, ⟨"target", .text, false⟩,
    ⟨"args", .dict .environmentKey .scalar true, false⟩]

def volumeFields : List Field :=
  [⟨"mount_path", .text, false⟩, ⟨"host_path", .text, false⟩, ⟨"key", .text, false⟩,
    ⟨"description", .text, false⟩, ⟨"readonly", .scalar, false⟩]

def interfaceFields : List Field :=
  [⟨"description", .text, false⟩, ⟨"host", .text, false⟩, ⟨"port", .scalar, false⟩,
    ⟨"protocol", .text, false⟩, ⟨"username", .text, false⟩, ⟨"password", .text, false⟩,
    ⟨"url", .text, false⟩, ⟨"sticky", .scalar, false⟩]

def ingressFields : List Field := [⟨"enabled", .scalar, false⟩, ⟨"subdomain", .text, false⟩]

def probeFields : List Field :=
  [⟨"success_threshold", .scalar, false⟩, ⟨"failure_threshold", .scalar, false⟩,
    ⟨"timeout", .text, false⟩, ⟨"interval", .text, false⟩, ⟨"initial_delay", .text, false⟩,
    ⟨"path", .text, false⟩, ⟨"port", .scalar, false⟩, ⟨"command", .command, false⟩]

def metricsFields : List Field := [⟨"cpu", .scalar, false⟩, ⟨"memory", .scalar, false⟩]

def scalingFields : List Field :=
  [⟨"min_replicas", .scalar, false⟩, ⟨"max_replicas", .scalar, false⟩,
    ⟨"metrics", .object .metrics, false⟩]

/-- What services and tasks share. -/
def resourceFields : List Field :=
  [⟨"description", .text, false⟩, ⟨"image", .text, false⟩, ⟨"build", .object .build, false⟩,
    ⟨"command", .command, false⟩, ⟨"entrypoint", .command, false⟩,
    ⟨"environment", .dict .environmentKey .scalar true, false⟩,
    ⟨"volumes", .dict .name (.textOr .volume) false, false⟩, ⟨"cpu", .scalar, false⟩,
    ⟨"memory", .scalar, false⟩, ⟨"depends_on", .textList, false⟩,
    ⟨"labels", .dict .any .text false, false⟩]

def parameterFields : List Field :=
  [⟨"required", .scalar, false⟩, ⟨"description", .text, false⟩, ⟨"default", .scalar, false⟩]

def componentFields : List Field :=
  [⟨"name", .text, true⟩, ⟨"tag", .text, false⟩, ⟨"extends", .text, false⟩,
    ⟨"description", .text, false⟩, ⟨"keywords", .textList, false⟩, ⟨"author", .text, false⟩,
    ⟨"homepage", .text, false⟩,
    ⟨"parameters", .dict .parameterKey (.scalarOr .parameter) true, false⟩,
    ⟨"services", .dict .name (.object .service) false, false⟩,
    ⟨"tasks", .dict .name (.object .task) false, false⟩,
    ⟨"dependencies", .dict .componentName .scalar false, false⟩,
    ⟨"interfaces", .dict .name (.scalarOr .componentInterface) false, false⟩]

/-- The fields of an object, in the order in which they are listed to a
user. -/
def fieldsOf : ObjectName → List Field
  | .component => componentFields
  | .parameter => parameterFields
  | .service =>
    resourceFields ++
      [⟨"debug", .object .service, false⟩,
        ⟨"interfaces", .dict .name (.scalarOr .interface) false, false⟩,
        ⟨"liveness_probe", .object .livenessProbe, false⟩, ⟨"replicas", .scalar, false⟩,
        ⟨"scaling", .object .scaling, false⟩]
  | .task =>
    resourceFields ++ [⟨"debug", .object .task, false⟩, ⟨"schedule", .text, false⟩]
  | .build => buildFields
  | .volume => volumeFields
  | .interface => interfaceFields
  | .livenessProbe => probeFields
  | .scaling => scalingFields
  | .metrics => metricsFields
  | .componentInterface => interfaceFields ++ [⟨"ingress", .object .ingress, false⟩]
  | .ingress => ingressFields

def field? (object : ObjectName) (key : String) : Option Field :=
  (fieldsOf object).find? fun f => f.name = key

end Manifest.Schema
