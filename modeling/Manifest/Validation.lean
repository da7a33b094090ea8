import Manifest.Validation.Rule
import Manifest.Validation.DependsOn
/-!
# Validating a spec

All rules are applied to all objects of a spec, and then what concerns the
component as a whole: no key may name both a service and a task, and what
resources depend on has to be in order. Nothing stops at a first problem.
-/

namespace Manifest.Validation

open PropertyPath (join)

/-- The rules on what only some resources have. -/
abbrev ExtensionCheck (X : Type) :=
  Perspectives → String → Spec.Resource X → List Diagnostic

def checkService : ExtensionCheck Spec.ServiceExtension := fun ps path s =>
  applyRules serviceRules ps path s
    ++ (match s.body.extension.probe with
      | some probe => applyRules probeRules ps (join path "liveness_probe") probe
      | none => [])
    ++ (match s.body.extension.scaling with
      | some scaling => applyRules scalingRules ps (join path "scaling") scaling
      | none => [])

def checkTask : ExtensionCheck Spec.TaskExtension := fun _ _ _ => []

/-- The volumes of a debug block mount real paths; from the perspective of
debugging only its rules hold. -/
def volumePerspectives (ps : Perspectives) : Perspectives :=
  if ps.debug then .only .debug else ps

/-- The problems of a resource apart from its debug block. -/
def checkBody {X : Type} (extension : ExtensionCheck X) (ps : Perspectives) (path : String)
    (r : Spec.Resource X) : List Diagnostic :=
  applyRules resourceRules ps path r ++ extension ps path r
    ++ r.body.volumes.entries.flatMap fun (key, volume) =>
      applyRules volumeRules (volumePerspectives ps) (join (join path "volumes") key) volume

/-- The problems of a resource and of its debug block. -/
def checkResource {X : Type} (extension : ExtensionCheck X) (ps : Perspectives) (path : String)
    (r : Spec.Resource X) : List Diagnostic :=
  checkBody extension ps path r
    ++ match r.debug with
      | some debug => checkBody extension (ps.insert .debug) (join path "debug") debug
      | none => []

def checkResources {X : Type} (extension : ExtensionCheck X) (ps : Perspectives)
    (path : String) (resources : Dict (Spec.Resource X)) : List Diagnostic :=
  resources.entries.flatMap fun (key, r) => checkResource extension ps (join path key) r

def checkParameter (ps : Perspectives) (key : String) : Spec.Parameter → List Diagnostic
  | .definition d => applyRules parameterRules ps (join "parameters" key) d
  | .value _ => []

def collisions (c : Spec.Component) : List Diagnostic :=
  (c.tasks.keys.filter c.services.contains).map fun key =>
    { kind := .structuralConflict, path := join "tasks" key, constraint := "Collision",
      message := "services and tasks must not share the same keys", value := key }

/-- Every problem of a spec from the given perspectives. -/
def validate (ps : Perspectives) (c : Spec.Component) : List Diagnostic :=
  applyRules componentRules ps "" c
    ++ c.parameters.entries.flatMap (fun (key, p) => checkParameter ps key p)
    ++ c.dependencies.entries.flatMap (fun (key, version) =>
      applyRules dependencyRules ps (join "dependencies" key) version)
    ++ checkResources checkService ps "services" c.services
    ++ checkResources checkTask ps "tasks" c.tasks
    ++ collisions c
    ++ DependsOn.check c

end Manifest.Validation
