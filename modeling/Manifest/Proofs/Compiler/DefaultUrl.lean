import Manifest.Compiler
import Manifest.Proofs.Context.Interfaces
import Manifest.Proofs.Interpolation.Frame
import Manifest.Proofs.Template.Separated
/-!
# The url of an interface by default

An interface without a url is shown with one that is put together from the texts
of its protocol, its host and its port, before anything in them is replaced. It is
rendered to what they are rendered to, put together in the same way
(`shows_defaultUrl`). The two ways may come apart only if different paths in the
context have the same written form: then what one part needs is taken for what another
needs, once both stand in one text (`not_shows_kioskUrl`).
-/

namespace Manifest

/-- The component has the interface at a path of its context. -/
inductive Config.Component.InterfaceAt (c : Config.Component) :
    List String → Config.Interface → Prop
  | own {name : String} {i : Config.ComponentInterface} (hi : c.interfaces.get? name = some i) :
    InterfaceAt c ["interfaces", name] i.interface
  | service {key name : String} {s : Config.Service} {i : Config.Interface}
    (hs : c.services.get? key = some s)
    (hi : s.body.extension.interfaces.get? name = some i) :
    InterfaceAt c ["services", key, "interfaces", name] i

/-- The interface is shown at its path, wherever that is. -/
theorem Context.exists_shownAt {c : Config.Component} {dependencies : Dependencies}
    {maxRefLength : Nat} {mode : Mode} {context : Context}
    (hcontext : ofComponent c dependencies maxRefLength mode = .ok context)
    {path : List String} {i : Config.Interface} (hi : c.InterfaceAt path i) :
    ∃ host, ∀ field text, Dict.find? field (shown host i) = some text →
      context.lookup? (path ++ [field]) = some (.string text) := by
  cases hi with
  | own hi => exact ⟨"", fun _ _ hfield => lookup?_interface hcontext hi hfield⟩
  | service hs hi =>
      obtain ⟨host, -, hshown⟩ := lookup?_serviceInterface hcontext hs hi
      exact ⟨host, hshown⟩

namespace Interpolation

open Template (Expression expressions)

variable {s : Scope} {value : Expression → Option String} {d : Delimiters}

/-! ## Texts with a separator between them -/

/-- Nothing is reported of a template in which each expression has a value. -/
theorem reported_eq_nil_iff {text : String} :
    reported value d text = []
      ↔ ∃ segments, Template.read d text = .ok segments
        ∧ ∀ e ∈ expressions segments, value e ≠ none := by
  unfold reported
  cases Template.read d text with
  | error fault => simp
  | ok segments => simp

theorem replaced_of_read {text : String} {segments : List Template.Segment}
    (h : Template.read d text = .ok segments) : replaced value d text
      = Template.fill (fun e => (value e).getD (String.ofList e.raw)) segments := by
  rw [replaced, h]

/-- Two templates in which each expression has a value are replaced one by one
if a separator stands between them. -/
theorem replaced_separated {a b separator : String} (ha : reported value d a = [])
    (hb : reported value d b = []) (hne : separator.toList ≠ [])
    (hopening : ∀ t ∈ separator.toList, t ∉ d.opening.toList) (hdollar : '$' ∉ separator.toList) :
    reported value d (a ++ separator ++ b) = []
      ∧ replaced value d (a ++ separator ++ b)
        = replaced value d a ++ separator ++ replaced value d b := by
  obtain ⟨segments, hread, hvalues⟩ := reported_eq_nil_iff.mp ha
  obtain ⟨more, hread', hvalues'⟩ := reported_eq_nil_iff.mp hb
  have hjoined := Template.read_separated hread hread' hne hopening hdollar
  constructor
  · refine reported_eq_nil_iff.mpr ⟨_, hjoined, ?_⟩
    rw [Template.expressions_join, Template.expressions_addText, List.forall_mem_append]
    exact ⟨hvalues, hvalues'⟩
  · rw [replaced_of_read hjoined, replaced_of_read hread, replaced_of_read hread',
      Template.fill_join, Template.fill_addText, String.ofList_toList, String.append_assoc]

/-! ## Texts of a context -/

/-- The path leads to a text that is rendered to this by itself, without a fault. -/
def Scope.Shows (s : Scope) (path : List String) (rendered : String) : Prop :=
  ∃ text, s.context.lookup? path = some (.string text)
    ∧ ((s.render text).run []).1 = ⟨rendered, []⟩

/-- What the path leads to as it is rendered by itself, and the faults of that. -/
def Scope.shown? (s : Scope) (path : List String) : Option (String × List (String × Fault)) :=
  match s.context.lookup? path with
  | some (.string text) =>
    some (((s.render text).run []).1.text, ((s.render text).run []).1.faults)
  | _ => none

theorem shown?_eq_some_iff {path : List String} {rendered : String} :
    s.shown? path = some (rendered, []) ↔ s.Shows path rendered := by
  unfold Scope.shown? Scope.Shows
  constructor
  · intro h
    split at h
    · next text hfound =>
        obtain ⟨hrendered, hfaults⟩ := Prod.mk.inj (Option.some.inj h)
        exact ⟨text, hfound, congrArg₂ Rendering.mk hrendered hfaults⟩
    · cases h
  · rintro ⟨text, hfound, hrender⟩
    simp only [hfound, hrender]

instance (s : Scope) (path : List String) (rendered : String) :
    Decidable (s.Shows path rendered) :=
  decidable_of_iff _ shown?_eq_some_iff

theorem shows_iff (hpaths : ToldApart (writtenPaths s.delimiters s.context.toJson))
    {path : List String} {text rendered : String}
    (hfound : s.context.lookup? path = some (.string text)) :
    s.Shows path rendered
      ↔ reported s.value s.delimiters text = []
        ∧ replaced s.value s.delimiters text = rendered := by
  have hfinds : Finds (MemoSound s (writtenPaths s.delimiters s.context.toJson)) s.value
      (s.evaluate s.fuel []) (Template.written s.delimiters text) :=
    (sustained_value s).ensures hpaths (List.Subset.refl _) fun _ hwritten =>
      mem_writtenPaths (Json.mem_texts_of_lookup? hfound) hwritten
  obtain ⟨htext, hfaults, -⟩ := renderWith_run hfinds (.nil s _)
  rw [← htext, ← hfaults, List.map_eq_nil_iff]
  constructor
  · rintro ⟨text', hfound', hrender⟩
    obtain rfl := Json.string.inj (Option.some.inj (hfound.symm.trans hfound'))
    exact ⟨congrArg Rendering.faults hrender, congrArg Rendering.text hrender⟩
  · rintro ⟨hnil, rfl⟩
    exact ⟨text, hfound, congrArg (Rendering.mk _) hnil⟩

/-- Where the protocol, the host and the port of an interface without a url are
rendered without a fault, so is its url, to what these are rendered to, put
together. -/
theorem shows_defaultUrl {c : Config.Component} {dependencies : Context.Dependencies}
    {maxRefLength : Nat} {mode : Mode} (hdelimiters : s.delimiters = {})
    (hcontext : Context.ofComponent c dependencies maxRefLength mode = .ok s.context)
    (hpaths : ToldApart (writtenPaths s.delimiters s.context.toJson))
    {path : List String} {i : Config.Interface} (hi : c.InterfaceAt path i) (hurl : i.url = none)
    {protocol host port : String} (hprotocol : s.Shows (path ++ ["protocol"]) protocol)
    (hhost : s.Shows (path ++ ["host"]) host) (hport : s.Shows (path ++ ["port"]) port) :
    s.Shows (path ++ ["url"]) (protocol ++ "://" ++ host ++ ":" ++ port) := by
  obtain ⟨own, hshown⟩ := Context.exists_shownAt hcontext hi
  obtain ⟨hscheme, rfl⟩ := (shows_iff hpaths (hshown "protocol" _ rfl)).mp hprotocol
  obtain ⟨hown, rfl⟩ := (shows_iff hpaths (hshown "host" _ rfl)).mp hhost
  obtain ⟨hnumber, rfl⟩ := (shows_iff hpaths (hshown "port" _ rfl)).mp hport
  have hfound := hshown "url" _ rfl
  rw [hurl, Option.getD_none] at hfound
  rw [shows_iff hpaths hfound]
  rw [hdelimiters] at hscheme hown hnumber ⊢
  obtain ⟨haddress, hjoined⟩ := replaced_separated hscheme hown
    (by simp : "://".toList ≠ []) (by simp) (by simp)
  obtain ⟨hall, hjoined'⟩ := replaced_separated haddress hnumber
    (by simp : ":".toList ≠ []) (by simp) (by simp)
  exact ⟨hall, by rw [hjoined', hjoined]⟩

end Interpolation

/-! ## Parts that depend on parameters -/

namespace Compiler

open Interpolation (Scope ToldApart writtenPaths)

def schemeText : String := "$\x7b\x7b parameters.scheme \x7d\x7d"

def zoneText : String := "outlet.$\x7b\x7b parameters.zone \x7d\x7d"

/-- A shop whose public interface depends on its parameters. -/
def outletDocument : SourceDocument where
  source := ""
  value := .mapping
    [(.string "name", .string "acme/outlet"),
      (.string "parameters", .mapping
        [(.string "scheme", .string "https"), (.string "zone", .string "test")]),
      (.string "interfaces", .mapping
        [(.string "public", .mapping
          [(.string "protocol", .string schemeText), (.string "host", .string zoneText),
            (.string "port", .string "8080")])])]

def outletInterface : Config.Interface where
  protocol := some schemeText
  host := some zoneText
  port := some "8080"

def outletConfig : Config.Component where
  name := "acme/outlet"
  tag := "latest"
  reference := "acme/outlet:latest"
  parameters := .ofList
    [("scheme", { default := some (some (.string "https")) }),
      ("zone", { default := some (some (.string "test")) })]
  interfaces := .ofList [("public", { interface := outletInterface })]

theorem compileDocument_outlet :
    compileDocument {} (.only .developer) outletDocument = .ok outletConfig := rfl

def outletScope : Scope where
  context := ⟨[("dependencies", .object []),
    ("ingresses", .object [("public", .object
      [("host", .string ""), ("subdomain", .string ""), ("url", .string "")])]),
    ("interfaces", .object [("public", .object
      [("host", .string zoneText), ("password", .string ""), ("port", .string "8080"),
        ("protocol", .string schemeText),
        ("url", .string (schemeText ++ "://" ++ zoneText ++ ":" ++ "8080")),
        ("username", .string "")])]),
    ("parameters", .object [("scheme", .string "https"), ("zone", .string "test")]),
    ("services", .object []), ("tasks", .object [])]⟩

theorem shows_outletUrl :
    compileDocument {} (.only .developer) outletDocument = .ok outletConfig
      ∧ Context.ofComponent outletConfig {} 63 .runtime = .ok outletScope.context
      ∧ ToldApart (writtenPaths outletScope.delimiters outletScope.context.toJson)
      ∧ outletConfig.InterfaceAt ["interfaces", "public"] outletInterface
      ∧ outletScope.Shows ["interfaces", "public", "url"] "https://outlet.test:8080" := by
  have hcontext : Context.ofComponent outletConfig {} 63 .runtime = .ok outletScope.context := rfl
  have hinterface : outletConfig.InterfaceAt ["interfaces", "public"] outletInterface :=
    .own (i := { interface := outletInterface }) rfl
  obtain ⟨hpaths, hprotocol, hhost, hport⟩ :
      ToldApart (writtenPaths outletScope.delimiters outletScope.context.toJson)
        ∧ outletScope.Shows ["interfaces", "public", "protocol"] "https"
        ∧ outletScope.Shows ["interfaces", "public", "host"] "outlet.test"
        ∧ outletScope.Shows ["interfaces", "public", "port"] "8080" := by
    decide +kernel
  exact ⟨compileDocument_outlet, hcontext, hpaths, hinterface,
    Interpolation.shows_defaultUrl rfl hcontext hpaths hinterface rfl hprotocol hhost hport⟩

/-! ## Parts that are written alike -/

def dottedScheme : String :=
  "$\x7b\x7b dependencies['acme/edge'].environment.web.scheme \x7d\x7d"

def quotedScheme : String :=
  "$\x7b\x7b dependencies['acme/edge'].environment['web.scheme'] \x7d\x7d"

/-- A shop whose public interface depends on what a platform adds to another
component. -/
def kioskDocument : SourceDocument where
  source := ""
  value := .mapping
    [(.string "name", .string "acme/kiosk"),
      (.string "dependencies", .mapping [(.string "acme/edge", .string "latest")]),
      (.string "interfaces", .mapping
        [(.string "public", .mapping
          [(.string "protocol", .string dottedScheme), (.string "host", .string quotedScheme),
            (.string "port", .int 80)])])]

def kioskInterface : Config.Interface where
  protocol := some dottedScheme
  host := some quotedScheme
  port := some "80"

def kioskConfig : Config.Component where
  name := "acme/kiosk"
  tag := "latest"
  reference := "acme/kiosk:latest"
  dependencies := .ofList [("acme/edge", "latest")]
  interfaces := .ofList [("public", { interface := kioskInterface })]

theorem compileDocument_kiosk :
    compileDocument {} (.only .developer) kioskDocument = .ok kioskConfig := rfl

/-- Here a path through an object and the path with a dot in its last key both lead
to a text. -/
def edgeContext : Context where
  members := [("environment", .object
    [("web", .object [("scheme", .string "https")]), ("web.scheme", .string "cdn")])]

def kioskScope : Scope where
  context := ⟨[("dependencies", .object [("acme/edge", edgeContext.toJson)]),
    ("ingresses", .object [("public", .object
      [("host", .string ""), ("subdomain", .string ""), ("url", .string "")])]),
    ("interfaces", .object [("public", .object
      [("host", .string quotedScheme), ("password", .string ""), ("port", .string "80"),
        ("protocol", .string dottedScheme),
        ("url", .string (dottedScheme ++ "://" ++ quotedScheme ++ ":" ++ "80")),
        ("username", .string "")])]),
    ("parameters", .object []), ("services", .object []), ("tasks", .object [])]⟩

/-- The parts are rendered to `https`, `cdn` and `80`, but in the url the value that is
remembered for the one path is taken for that of the other. -/
theorem not_shows_kioskUrl :
    compileDocument {} (.only .developer) kioskDocument = .ok kioskConfig
      ∧ Context.ofComponent kioskConfig (.ofList [("acme/edge", edgeContext)]) 63 .runtime
        = .ok kioskScope.context
      ∧ kioskConfig.InterfaceAt ["interfaces", "public"] kioskInterface
      ∧ kioskInterface.url = none
      ∧ kioskScope.Shows ["interfaces", "public", "protocol"] "https"
      ∧ kioskScope.Shows ["interfaces", "public", "host"] "cdn"
      ∧ kioskScope.Shows ["interfaces", "public", "port"] "80"
      ∧ ¬ kioskScope.Shows ["interfaces", "public", "url"]
        ("https" ++ "://" ++ "cdn" ++ ":" ++ "80") := by
  refine ⟨compileDocument_kiosk, rfl, .own (i := { interface := kioskInterface }) rfl, rfl, ?_⟩
  decide +kernel

end Compiler

end Manifest
