import Manifest.Diagnostic
/-!
# Slugs

A slug names an account's component, one of its services, a version of
either, an environment, or a service running in one. Each kind uses some of
six parts and writes them in a fixed arrangement; `Slug.text` is that written
form and `Slug.Reader` its inverse.
-/

namespace Manifest

inductive SlugKind where
  | component
  | componentVersion
  | service
  | serviceVersion
  | environment
  | serviceInstance
  | interfaces
  | gateway
deriving DecidableEq, Repr

namespace SlugKind

def all : List SlugKind :=
  [.component, .componentVersion, .service, .serviceVersion, .environment,
    .serviceInstance, .interfaces, .gateway]

/-- The order in which a slug of unknown kind is tried. An environment is
written like a component and therefore never detected. -/
def detectionOrder : List SlugKind :=
  [.gateway, .interfaces, .serviceInstance, .service, .serviceVersion, .component,
    .componentVersion]

def name : SlugKind → String
  | .component => "component"
  | .componentVersion => "component_version"
  | .service => "service"
  | .serviceVersion => "service_version"
  | .environment => "environment"
  | .serviceInstance => "service_instance"
  | .interfaces => "interfaces"
  | .gateway => "gateway"

def ofName? (text : String) : Option SlugKind := all.find? fun kind => kind.name = text

/-- The arrangement of a kind, as told to a user. -/
def description : SlugKind → String
  | .component => "must be of the form <account-name>/<component-name>"
  | .componentVersion => "must be of the form <account-name>/<component-name>:<tag>"
  | .service => "must be of the form <account-name>/<component-name>/<service-name>"
  | .serviceVersion =>
    "must be of the form <account-name>/<component-name>/<service-name>:<tag>"
  | .environment => "must be of the form <account-name>/<environment-name>"
  | .serviceInstance =>
    "must be of the form <account-name>/<component-name>/<service-name>:<tag>"
      ++ "@<account-name>/<environment-name>"
  | .interfaces =>
    "must be of the form <account-name>/<component-name>:<tag>-interfaces"
  | .gateway => "must be the literal gateway"

end SlugKind

/-- The parts of a slug; a kind leaves the parts it does not use empty. -/
structure Slug where
  kind : SlugKind
  account : Option String := none
  component : Option String := none
  service : Option String := none
  tag : Option String := none
  environmentAccount : Option String := none
  environment : Option String := none
deriving DecidableEq, Repr

namespace Slug

def defaultTag : String := "latest"

def gatewayText : String := "gateway"

def interfacesSuffix : String := "-interfaces"

/-! ## Construction -/

def ofComponent (account component : String) : Slug :=
  { kind := .component, account, component }

def ofComponentVersion (account component tag : String) : Slug :=
  { kind := .componentVersion, account, component, tag }

def ofService (account component service : String) : Slug :=
  { kind := .service, account, component, service }

def ofServiceVersion (account component service tag : String) : Slug :=
  { kind := .serviceVersion, account, component, service, tag }

def ofEnvironment (account environment : String) : Slug :=
  { kind := .environment, environmentAccount := account, environment }

/-- A service version deployed into an environment. -/
def ofServiceInstance (version environment : Slug) : Slug :=
  { version with
    kind := .serviceInstance
    environmentAccount := environment.environmentAccount
    environment := environment.environment }

def ofInterfaces (account component tag : String) : Slug :=
  { kind := .interfaces, account, component, tag }

def gateway : Slug := { kind := .gateway }

/-! ## Written form -/

def part (p : Option String) : String := p.getD ""

def componentText (s : Slug) : String := part s.account ++ "/" ++ part s.component

def serviceText (s : Slug) : String := s.componentText ++ "/" ++ part s.service

def environmentText (s : Slug) : String :=
  part s.environmentAccount ++ "/" ++ part s.environment

def tagText (s : Slug) : String := s.tag.getD defaultTag

/-- The written form of a slug. -/
def text (s : Slug) : String :=
  match s.kind with
  | .component => s.componentText
  | .componentVersion => s.componentText ++ ":" ++ s.tagText
  | .service => s.serviceText
  | .serviceVersion => s.serviceText ++ ":" ++ s.tagText
  | .environment => s.environmentText
  | .serviceInstance => s.serviceText ++ ":" ++ s.tagText ++ "@" ++ s.environmentText
  | .interfaces => s.componentText ++ ":" ++ s.tagText ++ interfacesSuffix
  | .gateway => gatewayText

/-- `account/component:tag`. -/
def componentRef (account component tag : String) : String :=
  (ofComponentVersion account component tag).text

/-- `account/component/service:tag`. -/
def resourceRef (account component service tag : String) : String :=
  (ofServiceVersion account component service tag).text

/-! ## Conversion -/

/-- The parts of `s` that `kind` uses, if they are there. A missing tag is
the default one. -/
def convert? (s : Slug) (kind : SlugKind) : Option Slug :=
  match kind with
  | .gateway => some gateway
  | .component => do pure (ofComponent (← s.account) (← s.component))
  | .componentVersion => do
    pure (ofComponentVersion (← s.account) (← s.component) s.tagText)
  | .interfaces => do pure (ofInterfaces (← s.account) (← s.component) s.tagText)
  | .service => do pure (ofService (← s.account) (← s.component) (← s.service))
  | .serviceVersion => do
    pure (ofServiceVersion (← s.account) (← s.component) (← s.service) s.tagText)
  | .environment => do pure (ofEnvironment (← s.environmentAccount) (← s.environment))
  | .serviceInstance => do
    let version := ofServiceVersion (← s.account) (← s.component) (← s.service) s.tagText
    pure (ofServiceInstance version (ofEnvironment (← s.environmentAccount) (← s.environment)))

/-- The kind a failed conversion is blamed on: an instance without its
version parts lacks the version, one without an account of its environment
the environment. -/
def blamedKind (s : Slug) (kind : SlugKind) : SlugKind :=
  if kind = .serviceInstance && s.environment.isSome then
    if (s.convert? .serviceVersion).isNone then .serviceVersion else .environment
  else kind

/-- Re-expresses a slug as another kind. -/
def convert (s : Slug) (kind : SlugKind) : Except Failure Slug :=
  match s.convert? kind with
  | some r => .ok r
  | none =>
    .error (.invalidSlug s.text
      ("cannot be converted to a " ++ (s.blamedKind kind).name ++ " slug"))

end Slug

end Manifest
