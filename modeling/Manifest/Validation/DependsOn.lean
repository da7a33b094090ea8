import Manifest.Spec
import Manifest.Diagnostic
import Manifest.DependencyGraph
/-!
# Checking what resources depend on

The lists of a component are seen in two ways: as declared, and with the list
of each debug block that has one in place of the resource's own. In both, an
entry has to name a service, and no resource may depend on itself through
others. An entry is reported once, where it is written, and a resource on a
cycle of both views once.
-/

namespace Manifest.Validation

/-- The list of one resource in a view. -/
structure DependsOn where
  name : String
  /-- Where the list is written. -/
  path : String
  services : List String
  /-- Is the list new in this view? -/
  reported : Bool
deriving DecidableEq, Repr

namespace DependsOn

def declaredList {X : Type} (group name : String) (r : Spec.Resource X) : DependsOn :=
  { name, path := group ++ "." ++ name ++ ".depends_on", services := r.body.dependsOn,
    reported := true }

/-- The list of the debug block, if it has one. -/
def debugList {X : Type} (group name : String) (r : Spec.Resource X) : DependsOn :=
  match r.debug with
  | some d =>
    if d.body.dependsOn.isEmpty then { declaredList group name r with reported := false }
    else
      { name, path := group ++ "." ++ name ++ ".debug.depends_on",
        services := d.body.dependsOn, reported := true }
  | none => { declaredList group name r with reported := false }

def ofResources {X : Type} (list : String → Spec.Resource X → DependsOn)
    (resources : Dict (Spec.Resource X)) : List DependsOn :=
  resources.entries.map fun (name, r) => list name r

/-- The lists as declared. -/
def declaredView (c : Spec.Component) : List DependsOn :=
  ofResources (declaredList "services") c.services ++ ofResources (declaredList "tasks") c.tasks

/-- The lists as they are when debug blocks are in force. -/
def debugView (c : Spec.Component) : List DependsOn :=
  ofResources (debugList "services") c.services ++ ofResources (debugList "tasks") c.tasks

/-- The problem of one entry of a list. -/
def badEntry? (c : Spec.Component) (path dependency : String) : Option Diagnostic :=
  if c.tasks.contains dependency then
    some { kind := .dependencyReference, path, constraint := "no-task-dependency",
           message := "depends_on may not reference task \"" ++ dependency ++ "\"",
           value := dependency }
  else if c.services.contains dependency then none
  else
    some { kind := .dependencyReference, path, constraint := "invalid-reference",
           message := "\"" ++ dependency ++ "\" is not a service of this component",
           value := dependency }

def badEntries (c : Spec.Component) (l : DependsOn) : List Diagnostic :=
  if l.reported then
    l.services.zipIdx.filterMap fun (dependency, index) =>
      badEntry? c (l.path ++ "." ++ toString index) dependency
  else []

/-- The entries that name a service and not a task. -/
def edges (c : Spec.Component) (l : DependsOn) : List String :=
  l.services.filter fun d => !c.tasks.contains d && c.services.contains d

def graph (c : Spec.Component) (view : List DependsOn) : DependencyGraph :=
  view.foldl
    (fun g l => (l.edges c).foldl (fun g d => g.addDependency l.name d) (g.addResource l.name))
    .empty

/-- The problem of a resource on a cycle, at the first list of that name. -/
def cycle (view : List DependsOn) (name : String) : Diagnostic :=
  let path :=
    match view.find? fun l => l.name = name with
    | some l => l.path
    | none => "services." ++ name ++ ".depends_on"
  { kind := .circularReference, path, constraint := "circular-reference",
    message := "\"" ++ name ++ "\" is part of a circular depends_on chain", value := name }

/-- The problems of one view, but for the cycles already known. -/
def checkView (c : Spec.Component) (known : List String) (view : List DependsOn) :
    List Diagnostic :=
  view.flatMap (badEntries c)
    ++ ((graph c view).circular.filter (· ∉ known)).map (cycle view)

/-- The problems of both views. -/
def check (c : Spec.Component) : List Diagnostic :=
  let declared := declaredView c
  let debug := debugView c
  checkView c [] declared
    ++ if debug.any (·.reported) then checkView c (graph c declared).circular debug else []

end DependsOn

end Manifest.Validation
