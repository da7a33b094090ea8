import Manifest.Spec
import Manifest.Slug.Reader
import Manifest.Perspective
import Manifest.Text.Blank
/-!
# Rules on single objects

A rule looks at one object of a spec and objects to one of its fields. Some
rules hold only from certain perspectives.
-/

namespace Manifest.Validation

structure Rule (α : Type) where
  field : String
  constraint : String
  kind : Diagnostic.Kind := .schemaValidation
  /-- The perspectives that the rule holds from; all of them if none is
  listed. -/
  perspectives : List Perspective := []
  /-- What is wrong, if anything is. -/
  objection : α → Option String

namespace Rule

def applies {α : Type} (ps : Perspectives) (r : Rule α) : Bool :=
  r.perspectives.isEmpty || ps.intersects r.perspectives

def check {α : Type} (ps : Perspectives) (path : String) (target : α) (r : Rule α) :
    Option Diagnostic :=
  if r.applies ps then
    (r.objection target).map fun message =>
      { kind := r.kind, path := PropertyPath.join path r.field, constraint := r.constraint,
        message }
  else none

end Rule

/-- The objections of a table of rules, in its order. -/
def applyRules {α : Type} (rules : List (Rule α)) (ps : Perspectives) (path : String)
    (target : α) : List Diagnostic :=
  rules.filterMap (Rule.check ps path target)

def objectIf (bad : Bool) (message : String) : Option String :=
  if bad then some message else none

def quoted (text : String) : String := "\"" ++ text ++ "\""

/-- The mark of a reference to a file. -/
def fileMark : String := "file:"

/-! ## Components -/

def componentRules : List (Rule Spec.Component) :=
  [{ field := "name", constraint := "matches"
     objection := fun c => objectIf (Slug.splitComponentName? c.name).isNone
      (quoted c.name ++ " must contain only lower alphanumeric segments with single hyphens,"
        ++ " optionally prefixed by <account-name>/") },
    { field := "name", constraint := "matches", perspectives := [.developer]
      objection := fun c =>
        match Slug.splitComponentName? c.name with
        | some (none, _) => some (quoted c.name ++ " " ++ SlugKind.component.description)
        | _ => none },
    { field := "tag", constraint := "matches"
      objection := fun c => c.tag.bind fun tag =>
        objectIf (!Slug.isTagText tag) (quoted tag ++ " is not a valid tag") },
    { field := "extends", constraint := "no-local-extends", perspectives := [.developer]
      objection := fun c => c.parent.bind fun parent =>
        objectIf (parent.startsWith fileMark)
          "extends may not reference a local path when registering" }]

def dependencyRules : List (Rule Scalar) :=
  [{ field := "", constraint := "matches"
     objection := fun version =>
      objectIf (!Slug.isTagText version.text)
        (quoted version.text ++ " is not a valid dependency tag") }]

def parameterRules : List (Rule Spec.ParameterDefinition) :=
  [{ field := "required", constraint := "boolean"
     objection := fun d => d.required.bind fun r =>
      objectIf r.asBool?.isNone (quoted r.text ++ " must be a boolean or a boolean string") }]

/-! ## Resources -/

/-- The number a scalar stands for, also one written as a string. -/
def numberOf? : Scalar → Option Binary64
  | .int i => some (.ofInt i)
  | .float f => some f
  | .string s => Binary64.read? (Text.trim s.toList)
  | .bool _ => none

/-- At most zero. -/
def isNotPositive (n : Binary64) : Bool :=
  n.lt (.zero false) || n.same (.zero false)

def resourceRules {X : Type} : List (Rule (Spec.Resource X)) :=
  [{ field := "debug.debug", constraint := "nested-debug", kind := .structuralConflict
     objection := fun r => objectIf (r.debug.any fun d => d.debug.isSome)
      "a debug block may not contain another debug block" },
    { field := "image", constraint := "image-xor-build", kind := .structuralConflict
      objection := fun r => objectIf (r.body.image.isSome && r.body.build.isSome)
        "image and build are mutually exclusive" },
    { field := "cpu", constraint := "positive-number"
      objection := fun r => r.body.cpu.bind fun cpu =>
        let message := quoted cpu.text ++ " must be a positive number"
        match cpu with
        | .bool _ => some message
        | _ => objectIf ((numberOf? cpu).any isNotPositive) message },
    { field := "memory", constraint := "type"
      objection := fun r =>
        match r.body.memory with
        | some (.bool _) => some "memory must be a string such as 512Mi"
        | _ => none }]

def serviceRules : List (Rule Spec.Service) :=
  [{ field := "replicas", constraint := "forbidden", perspectives := [.developer]
     objection := fun s => objectIf s.body.extension.replicas.isSome
      "replicas may only be set by an operator at deploy time" },
    { field := "replicas", constraint := "non-negative-integer"
      objection := fun s => s.body.extension.replicas.bind fun n =>
        let message := quoted n.text ++ " must be a non-negative integer"
        match n with
        | .int i => objectIf (i < 0) message
        | .string _ => none
        | _ => some message }]

def probeRules : List (Rule Spec.Probe) :=
  [{ field := "command", constraint := "exclusive", kind := .structuralConflict
     objection := fun p => objectIf (p.command.isSome && (p.path.isSome || p.port.isSome))
      "command is mutually exclusive with path and port" },
    { field := "port", constraint := "required"
      objection := fun p => objectIf (p.command.isNone && p.port.isNone)
        "port is required when command is not set" },
    { field := "path", constraint := "required"
      objection := fun p => objectIf (p.command.isNone && p.path.isNone)
        "path is required when command is not set" }]

def scalingRules : List (Rule Spec.Scaling) :=
  [{ field := "metrics", constraint := "required"
     objection := fun s => objectIf (!s.metrics.any fun m => m.cpu.isSome || m.memory.isSome)
      "scaling requires at least one of metrics.cpu or metrics.memory" },
    { field := "min_replicas", constraint := "required"
      objection := fun s => objectIf s.minReplicas.isNone "min_replicas is required" },
    { field := "max_replicas", constraint := "required"
      objection := fun s => objectIf s.maxReplicas.isNone "max_replicas is required" }]

def volumeRules : List (Rule Spec.Volume) :=
  [{ field := "host_path", constraint := "forbidden", perspectives := [.developer, .operator]
     objection := fun v => v.hostPath?.map fun path =>
      "host_path " ++ quoted path ++ " may only be set in a debug block" },
    { field := "host_path", constraint := "required", perspectives := [.debug]
      objection := fun v => objectIf (v.hostPath?.isNone && v.key?.isNone)
        "host_path is required for debug volumes" },
    { field := "key", constraint := "exclusive", kind := .structuralConflict
      objection := fun v => objectIf (v.hostPath?.isSome && v.key?.isSome)
        "host_path and key are mutually exclusive" }]

end Manifest.Validation
