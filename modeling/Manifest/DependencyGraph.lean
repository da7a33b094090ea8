import Manifest.Diagnostic
/-!
# Dependency graphs

An edge points from a resource to one that it depends on. Resources are
listed in the order in which they first came up, edges in the order in which
they were recorded; parallel edges and edges from a resource to itself count.

`onCycle` asks whether a walk from a resource comes back to it. `startupOrder`
lists dependencies first, or names a resource on a cycle.
-/

namespace Manifest

structure DependencyGraph where
  names : List String := []
  edges : List (String × String) := []
deriving DecidableEq, Repr

namespace DependencyGraph

def empty : DependencyGraph := {}

/-- Adds a resource unless it is known. -/
def addResource (g : DependencyGraph) (name : String) : DependencyGraph :=
  if name ∈ g.names then g else { g with names := g.names ++ [name] }

def indexOf (g : DependencyGraph) (name : String) : Nat := g.names.idxOf name

/-- Records that `dependent` depends on `dependency`; both become known. -/
def addDependency (g : DependencyGraph) (dependent dependency : String) : DependencyGraph :=
  let g := (g.addResource dependent).addResource dependency
  { g with edges := g.edges ++ [(dependent, dependency)] }

/-- What a resource depends on, the latest edge first. -/
def dependencies (g : DependencyGraph) (name : String) : List String :=
  (g.edges.reverse.filter fun e => e.1 = name).map Prod.snd

/-- What depends on a resource, the latest edge first. -/
def dependents (g : DependencyGraph) (name : String) : List String :=
  (g.edges.reverse.filter fun e => e.2 = name).map Prod.fst

/-! ## Cycles -/

/-- Walks on from `name` through resources that were not seen yet, and gives what was
seen by then, or nothing once the walk is back at `root`. All branches share what they
have seen, and the root is never among it. A walk through new resources is never longer
than their number, which bounds `depth`. -/
def walk (g : DependencyGraph) (root : String) :
    (depth : Nat) → (seen : List String) → String → Option (List String)
  | 0, seen, _ => some seen
  | depth + 1, seen, name =>
    (g.dependencies name).foldlM
      (fun seen next =>
        if next = root then none
        else if next ∈ seen then some seen
        else walk g root depth (next :: seen) next)
      seen

/-- Does a path of one or more edges lead from the resource back to it? -/
def onCycle (g : DependencyGraph) (name : String) : Bool :=
  (g.walk name (g.names.length + 1) [] name).isNone

/-- The resources on a cycle, in their order. -/
def circular (g : DependencyGraph) : List String := g.names.filter g.onCycle

/-! ## Startup order -/

/-- A depth-first search in progress: the resources met so far, and those that
are finished, the latest first. -/
structure Search where
  met : List String := []
  done : List String := []

/-- Looks at the resource on top of the stack. A new one is met, and what it
depends on comes on top of it unless it was met, the earliest edge topmost; if
it depends on itself, the search ends. One that comes up again is finished. -/
def advance (g : DependencyGraph) (search : Search) (name : String) (rest : List String) :
    Except String (Search × List String) :=
  if name ∈ search.met then
    let done := if name ∈ search.done then search.done else name :: search.done
    .ok ({ search with done }, rest)
  else if name ∈ g.dependencies name then .error name
  else
    let met := name :: search.met
    .ok ({ search with met },
      ((g.dependencies name).filter (· ∉ met)).reverse ++ name :: rest)

/-- Looks at the top of the stack until nothing is left. -/
def explore (g : DependencyGraph) : (fuel : Nat) → Search → (stack : List String) →
    Except String Search
  | _, search, [] => .ok search
  | 0, search, _ :: _ => .ok search
  | fuel + 1, search, name :: rest => do
    let (search, stack) ← g.advance search name rest
    explore g fuel search stack

/-- A resource is met once, and only then do its edges add to the stack. -/
def fuel (g : DependencyGraph) : Nat := g.names.length + g.edges.length + 1

/-- Searches from a resource that was not met yet. -/
def visit (g : DependencyGraph) (search : Search) (name : String) : Except String Search :=
  if name ∈ search.met then .ok search else g.explore g.fuel search [name]

/-- The finished resources of a search from all resources, the latest first:
every resource before what it depends on, if there is no cycle. -/
def dependentsFirst (g : DependencyGraph) : Except String (List String) := do
  let search ← g.names.foldlM g.visit {}
  pure search.done

/-- The next new resource of a walk against the edges, and the stack after
it. -/
def nextUpstream? (g : DependencyGraph) (passed : List String) :
    (stack : List String) → Option (String × List String)
  | [] => none
  | name :: rest =>
    if name ∈ passed then nextUpstream? g passed rest
    else some (name, ((g.dependents name).filter (· ∉ name :: passed)).reverse ++ rest)

/-- The first resource found to come after one that it depends on. Walking
against the edges from each resource in the order, all that is upstream has to
be passed already; a second new resource is misplaced. -/
def misplaced? (g : DependencyGraph) : (passed order : List String) → Option String
  | _, [] => none
  | passed, name :: rest =>
    match g.nextUpstream? passed [name] with
    | none => misplaced? g passed rest
    | some (first, stack) =>
      match g.nextUpstream? (first :: passed) stack with
      | none => misplaced? g (first :: passed) rest
      | some (culprit, _) => some culprit

/-- Dependencies first, or a resource on a cycle. -/
def startupOrder? (g : DependencyGraph) : Except String (List String) := do
  let order ← g.dependentsFirst
  match g.misplaced? [] order with
  | some culprit => .error culprit
  | none => .ok order.reverse

def startupOrder (g : DependencyGraph) : Except Failure (List String) :=
  match g.startupOrder? with
  | .ok order => .ok order
  | .error name =>
    .error (.badConfiguration ("cyclic depends_on detected at \"" ++ name ++ "\""))

end DependencyGraph

end Manifest
