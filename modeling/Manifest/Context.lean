import Manifest.Config
import Manifest.SafeRef
import Manifest.Text.Numeral
/-!
# Contexts

A context is the tree in which references are looked up: a JSON object whose
members are the namespaces `parameters`, `services`, `tasks`, `interfaces`,
`ingresses`, `dependencies` and what a platform adds. Its values may refer
into the context again.
-/

namespace Manifest

/-- How a parameter without a value is shown: as null, so that a reference to
it fails, or by a mark in its place. -/
inductive Mode where
  | runtime
  | validation
deriving DecidableEq, Repr

/-- The namespaces, in the byte order of their names. -/
structure Context where
  members : Json.Members := []
deriving BEq, Repr

namespace Context

/-! ## Access -/

def toJson (c : Context) : Json := .object c.members

def hasNamespace (c : Context) (name : String) : Bool := (Json.member? name c.members).isSome

/-- Sets a namespace. -/
def insert (c : Context) (name : String) (value : Json) : Context :=
  ⟨Json.setMember name value c.members⟩

/-- The value that a key leads to; in a list a key is a position. -/
def child? (key : String) : Json → Option Json
  | .object members => Json.member? key members
  | .array items => (Text.natural? key).bind (items[·]?)
  | _ => none

/-- The value that a path leads to. -/
def lookup? (c : Context) : (path : List String) → Option Json
  | [] => none
  | path => path.foldlM (fun value key => child? key value) c.toJson

/-- Gives a parameter a value. What is no object at `parameters` gives way to
one. -/
def setParameter (c : Context) (name : String) (value : Json) : Context :=
  let parameters := ((Json.member? "parameters" c.members).bind Json.members?).getD []
  c.insert "parameters" (.object (Json.setMember name value parameters))

/-- What another component sees of this one. -/
def exposed (c : Context) : Context := ⟨Json.removeMember "dependencies" c.members⟩

/-! ## Texts in a context -/

mutual

/-- The texts in a value outside of lists, each with its path. -/
def textsOf (path : List String) : Json → List (List String × String)
  | .string s => [(path, s)]
  | .object members => textsOfMembers path members
  | _ => []

def textsOfMembers (path : List String) : Json.Members → List (List String × String)
  | [] => []
  | (k, v) :: rest => textsOf (path ++ [k]) v ++ textsOfMembers path rest

end

def texts (c : Context) : List (List String × String) := textsOfMembers [] c.members

/-- Replaces what a path through objects leads to. -/
def replaceIn (value : Json) : (path : List String) → Json → Json
  | [], _ => value
  | key :: path, .object members =>
    .object (Json.updateMember key (replaceIn value path) members)
  | _ :: _, other => other

def replace (c : Context) (path : List String) (value : Json) : Context :=
  match path with
  | [] => c
  | key :: path => ⟨Json.updateMember key (replaceIn value path) c.members⟩

/-! ## The context of a component -/

open Json (Members)

def membersOf (members : Members) : Json := (Json.object members).sorted

/-- One member for each entry of a dictionary. -/
def dictJson {α : Type} (encode : String → α → Json) (d : Dict α) : Json :=
  membersOf (d.entries.map fun (k, v) => (k, encode k v))

/-- Stands for a parameter without a value. -/
def unsetMark : String := "__deckhand_null__"

def parameterJson (mode : Mode) (p : Config.Parameter) : Json :=
  match p.default, p.required with
  | some (some value), _ => .string value.text
  | none, some false => .string ""
  | _, _ =>
    match mode with
    | .runtime => .null
    | .validation => .string unsetMark

/-- The fields of an interface with their defaults. -/
def interfaceJson (defaultHost : String) (i : Config.Interface) : Json :=
  let host := i.host.getD defaultHost
  let protocol := i.protocol.getD "http"
  let port := i.port.getD ""
  membersOf [("host", .string host), ("port", .string port), ("protocol", .string protocol),
    ("username", .string (i.username.getD "")), ("password", .string (i.password.getD "")),
    ("url", .string (i.url.getD (protocol ++ "://" ++ host ++ ":" ++ port)))]

def environmentJson (environment : Dict String) : Json :=
  dictJson (fun _ value => .string value) environment

/-- A service is reached at its safe ref. -/
def serviceJson (instanceId : Option String) (maxRefLength : Nat) (s : Config.Service) :
    Except Failure Json := do
  let host ←
    match instanceId with
    | some id => SafeRef.ofInstance s.body.identity.reference id maxRefLength
    | none => SafeRef.ofText s.body.identity.reference none maxRefLength
  pure (membersOf [("environment", environmentJson s.body.environment),
    ("interfaces", dictJson (fun _ => interfaceJson host) s.body.extension.interfaces)])

def taskJson (t : Config.Task) : Json :=
  .object [("environment", environmentJson t.body.environment)]

def ingressJson (i : Config.ComponentInterface) : Json :=
  membersOf [("subdomain", .string ((i.ingress.bind Config.Ingress.subdomain).getD "")),
    ("host", .string ""), ("url", .string "")]

/-- The contexts of dependencies, by name. -/
abbrev Dependencies := Dict Context

/-- What a component sees of the dependencies that it declares. -/
def visible (c : Config.Component) (dependencies : Dependencies) : Json :=
  dictJson (fun _ (context : Context) => context.exposed.toJson)
    (c.dependencies.filterMapValues fun name _ => dependencies.get? name)

/-- The context of a component, with the contexts of its dependencies. -/
def ofComponent (c : Config.Component) (dependencies : Dependencies) (maxRefLength : Nat)
    (mode : Mode) : Except Failure Context := do
  let services ← c.services.entries.mapM fun (k, s) => do
    pure (k, ← serviceJson c.instanceId maxRefLength s)
  let namespaces : Members :=
    [("dependencies", visible c dependencies),
      ("ingresses", dictJson (fun _ => ingressJson) c.interfaces),
      ("interfaces", dictJson (fun _ i => interfaceJson "" i.interface) c.interfaces),
      ("parameters", dictJson (fun _ => parameterJson mode) c.parameters),
      ("services", membersOf services), ("tasks", dictJson (fun _ => taskJson) c.tasks)]
  pure ⟨namespaces⟩

end Context

end Manifest
