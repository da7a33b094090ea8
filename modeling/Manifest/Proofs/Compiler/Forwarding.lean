import Manifest.Proofs.Compiler.Context
import Manifest.Proofs.Compiler.Paths
import Manifest.Proofs.Compiler.References
import Manifest.Proofs.Interpolation.Forwarding
import Manifest.Proofs.Normalization.UrlShorthand
/-!
# Forwarded interfaces

An interface of the component that is written as the expression for the url of a
service's interface forwards each field to that interface (`forwards_field`). So the
expression for its field is rendered like the expression for the field of the service's
interface (`render_forwarded`). Where the one leads back to itself so does the other:
whatever else is written like the path of the field leads to an object or nowhere
(`distinguished_field`). Only where the interfaces are ignored, what leads nowhere has a
value all the same, and is then taken for a circle in the one rendering
(`render_quoted_interface`).
-/

namespace Manifest

/-! ## Shorthands in a config -/

namespace Context

variable {field : String}

theorem not_period_interfaceField (h : field ∈ interfaceFields) : '.' ∉ field.toList := by
  intro hmem
  exact absurd ((isBare_interfaceField h).2 _ hmem) (by decide)

end Context

namespace Normalization

open Context (interfaceFields shown)

variable {d : Delimiters} {target field : String}

theorem shown_passedOn (d : Delimiters) (target : String) :
    shown "" (passedOn d target)
      = interfaceFields.map fun name => (name, UrlShorthand.field d target name) := rfl

/-- Each field of an interface that is passed on is the expression for that of its target. -/
theorem find?_shown_passedOn (h : field ∈ interfaceFields) :
    Dict.find? field (shown "" (passedOn d target))
      = some (UrlShorthand.field d target field) := by
  rw [shown_passedOn]
  refine Dict.find?_of_mem ?_ (List.mem_map_of_mem h)
  rw [List.map_map]
  exact (by decide : interfaceFields.Nodup)

theorem get?_interfaces_outline {spec : Spec.Component} {key text : String}
    (h : spec.interfaces.get? key = some (.value (.string text)))
    (htarget : UrlShorthand.target? d text = some target) :
    (outline d spec).interfaces.get? key = some { interface := passedOn d target } := by
  rw [outline, Dict.get?_filterMapValues, h, Option.bind_some, componentInterface?, htarget]
  rfl

end Normalization

namespace Compiler

open Interpolation (Distinguished Forwards Hopeless Rendering Scope writtenPaths)
open ReferencePath (IsBare)

variable {st : Settings} {ps : Perspectives} {doc : SourceDocument} {spec : Spec.Component}
  {c : Config.Component} {dependencies : Context.Dependencies} {maxRefLength : Nat} {mode : Mode}
  {context : Context} {key service name field text : String} {s : Config.Service}
  {i : Config.Interface} {ignored : List String} {mode' : Mode}

theorem isBare_interfaces : IsBare "interfaces" := by decide

theorem isBare_services : IsBare "services" := by decide

/-- The keys on the way to a service's interface are bare. -/
theorem isBare_of_interface (hspec : parseSpec ps doc = .ok spec)
    (hs : (Normalization.outline st.delimiters spec).services.get? service = some s)
    (hi : s.body.extension.interfaces.get? name = some i) :
    ∀ k ∈ ["services", service, "interfaces", name], IsBare k := by
  have hkeys := bareKeys_outline st.delimiters hspec
  simp only [List.forall_mem_cons, List.not_mem_nil, false_implies, implies_true, and_true]
  exact ⟨isBare_services, hkeys.services service (Dict.mem_keys_iff.mpr ⟨s, hs⟩),
    isBare_interfaces, hkeys.serviceInterfaces service s hs name (Dict.mem_keys_iff.mpr ⟨i, hi⟩)⟩

/-- A field of an interface that is written as a shorthand forwards to the field of the
interface that the shorthand is for. -/
theorem forwards_field (hdelimiters : st.delimiters = {}) (hspec : parseSpec ps doc = .ok spec)
    (hcompiled : compileDocument st ps doc = .ok c) (hs : c.services.get? service = some s)
    (hi : s.body.extension.interfaces.get? name = some i)
    (htext : spec.interfaces.get? key = some (.value (.string text)))
    (hshortens : UrlShorthand.Shortens
      (ReferencePath.text ["services", service, "interfaces", name]) text)
    (hcontext : Context.ofComponent c dependencies maxRefLength mode = .ok context)
    (hfield : field ∈ Context.interfaceFields) :
    Forwards { context, ignored, mode := mode' } ["interfaces", key, field]
      ["services", service, "interfaces", name, field] := by
  obtain ⟨read, hread, rfl⟩ := exists_outline hcompiled
  obtain rfl := Except.ok.inj (hspec.symm.trans hread)
  have hbare := isBare_of_interface hspec hs hi
  have htarget := UrlShorthand.target?_of_shortens hshortens
    (ReferencePath.text_ne_nil (hbare _ (List.mem_cons_self ..)) _)
    (ReferencePath.not_blank_text hbare)
  rw [← hdelimiters] at htarget
  have hinterface := Normalization.get?_interfaces_outline htext htarget
  have hfound := Context.lookup?_interface hcontext hinterface
    (Normalization.find?_shown_passedOn hfield)
  have hkeys : ∀ k ∈ "services" :: ([service, "interfaces", name] ++ [field]), IsBare k := by
    rw [← List.cons_append, List.forall_mem_append, List.forall_mem_singleton]
    exact ⟨hbare, Context.isBare_interfaceField hfield⟩
  obtain ⟨e, hread, hpath⟩ := UrlShorthand.read_field hkeys
  rw [hdelimiters] at hfound
  exact ⟨_, e, hfound, hread, hpath⟩

/-- No other path with the same written form stands in the texts of the context. -/
def WrittenAlone (context : Context) (path : List String) : Prop :=
  ∀ other ∈ writtenPaths {} context.toJson,
    ReferencePath.text other = ReferencePath.text path → other = path

instance (context : Context) (path : List String) : Decidable (WrittenAlone context path) :=
  inferInstanceAs (Decidable (∀ other ∈ writtenPaths {} context.toJson,
    ReferencePath.text other = ReferencePath.text path → other = path))

/-- What is written like the path of a field of the component's interfaces has that path,
or is hopeless; where the interfaces are ignored, this has to be assumed. -/
theorem distinguished_field
    (hcontext : Context.ofComponent c dependencies maxRefLength mode = .ok context)
    (hfield : field ∈ Context.interfaceFields)
    (hignored : "interfaces" ∈ ignored → WrittenAlone context ["interfaces", key, field]) :
    Distinguished { context, ignored, mode := mode' } ["interfaces", key, field] := by
  intro text htext e he hdotted
  obtain ⟨rest, hpath, hkey⟩ := exists_path_of_written he
  have hroot : e.root = "interfaces" := by
    by_contra hne
    have hdiffer : ReferencePath.text (e.root :: rest)
        ≠ ReferencePath.text ["interfaces", key, field] :=
      ReferencePath.text_ne_of_first_ne hkey isBare_interfaces.2 hne
    exact hdiffer (hpath ▸ hdotted)
  rw [hroot] at hpath
  by_cases hmem : "interfaces" ∈ ignored
  · exact Or.inl (hignored hmem e.path (Interpolation.mem_writtenPaths htext he) hdotted)
  · cases hfound : context.lookup? e.path with
    | none =>
        refine Or.inr (.missing hfound ?_)
        simp [Scope.passesThrough, hroot, hmem]
    | some value =>
        rw [hpath] at hfound
        rcases Context.object_or_field_of_lookup? hcontext hfound with ⟨members, rfl⟩ | hleaf
        · exact Or.inr (.object (hpath ▸ hfound))
        · obtain ⟨name', field', rfl, hfield'⟩ := hleaf
          have hsame : ReferencePath.text ("interfaces" :: ([name'] ++ [field']))
              = ReferencePath.text ("interfaces" :: ([key] ++ [field])) := by
            rw [List.singleton_append, List.singleton_append, ← hpath]
            exact hdotted
          obtain ⟨hname, rfl⟩ := ReferencePath.text_concat_inj
            (Context.not_period_interfaceField hfield') (Context.not_period_interfaceField hfield)
            hsame
          rw [hpath, ReferencePath.eq_of_text_pair hname]
          exact Or.inl rfl

/-- An expression for a field of an interface that is written as a shorthand is rendered
like one for the field of the interface that the shorthand is for. -/
theorem render_forwarded (hdelimiters : st.delimiters = {}) (hspec : parseSpec ps doc = .ok spec)
    (hcompiled : compileDocument st ps doc = .ok c) (hs : c.services.get? service = some s)
    (hi : s.body.extension.interfaces.get? name = some i)
    (htext : spec.interfaces.get? key = some (.value (.string text)))
    (hshortens : UrlShorthand.Shortens
      (ReferencePath.text ["services", service, "interfaces", name]) text)
    (hcontext : Context.ofComponent c dependencies maxRefLength mode = .ok context)
    (hfield : field ∈ Context.interfaceFields)
    (hignored : "interfaces" ∈ ignored → WrittenAlone context ["interfaces", key, field])
    {own other : String} {e e' : Template.Expression}
    (hread : Template.read {} own = .ok [.expression e])
    (hpath : e.path = ["interfaces", key, field])
    (hread' : Template.read {} other = .ok [.expression e'])
    (hpath' : e'.path = ["services", service, "interfaces", name, field]) :
    Rendering.Agree
      ((Scope.render { context, ignored, mode := mode' } own).run []).1
      ((Scope.render { context, ignored, mode := mode' } other).run []).1 := by
  obtain ⟨host, -, hshown⟩ := Context.lookup?_serviceInterface hcontext hs hi
  obtain ⟨value, hvalue⟩ := Context.exists_shown hfield host i
  have hne : ReferencePath.text ["interfaces", key, field]
      ≠ ReferencePath.text ["services", service, "interfaces", name, field] :=
    ReferencePath.text_ne_of_first_ne isBare_interfaces.2 isBare_services.2 (by decide)
  exact (forwards_field hdelimiters hspec hcompiled hs hi htext hshortens hcontext hfield).render
    (distinguished_field hcontext hfield hignored) hne (hshown field value hvalue) hread hpath
    hread' hpath'

/-! ## An interface that is taken for a circle -/

/-- A shop that passes the interface of its service on, and whose service has an expression
with a quoted key for its host. -/
def storefrontDocument : SourceDocument where
  source := ""
  value := .mapping
    [(.string "name", .string "acme/shop"),
      (.string "services", .mapping
        [(.string "api", .mapping
          [(.string "image", .string "api:1"),
            (.string "interfaces", .mapping
              [(.string "main", .mapping
                [(.string "host", .string "$\x7b\x7b interfaces['public.host'] \x7d\x7d"),
                  (.string "port", .string "80")])])])]),
      (.string "interfaces", .mapping
        [(.string "public", .string "$\x7b\x7b services.api.interfaces.main.url \x7d\x7d")])]

def storefrontInterface : Config.Interface where
  host := some "$\x7b\x7b interfaces['public.host'] \x7d\x7d"
  port := some "80"

def storefrontService : Config.Service where
  body :=
    { identity := ⟨"api", "acme/shop/api:latest", "latest"⟩
      image := some "api:1"
      extension := { interfaces := .ofList [("main", storefrontInterface)] } }
  debug := none

def storefrontConfig : Config.Component where
  name := "acme/shop"
  tag := "latest"
  reference := "acme/shop:latest"
  services := .ofList [("api", storefrontService)]
  interfaces := .ofList
    [("public", { interface := Normalization.passedOn {} "services.api.interfaces.main" })]

/-- The interfaces are ignored. -/
def storefrontSettings : Settings where
  ignoredNamespaces := ["interfaces"]

theorem compileDocument_storefront :
    compileDocument storefrontSettings (.only .developer) storefrontDocument
      = .ok storefrontConfig := rfl

def storefrontContext : Context where
  members :=
    [("dependencies", .object []),
      ("ingresses", .object [("public", .object
        [("host", .string ""), ("subdomain", .string ""), ("url", .string "")])]),
      ("interfaces", .object [("public", .object
        [("host", .string "$\x7b\x7b services.api.interfaces.main.host \x7d\x7d"),
          ("password", .string "$\x7b\x7b services.api.interfaces.main.password \x7d\x7d"),
          ("port", .string "$\x7b\x7b services.api.interfaces.main.port \x7d\x7d"),
          ("protocol", .string "$\x7b\x7b services.api.interfaces.main.protocol \x7d\x7d"),
          ("url", .string "$\x7b\x7b services.api.interfaces.main.url \x7d\x7d"),
          ("username", .string "$\x7b\x7b services.api.interfaces.main.username \x7d\x7d")])]),
      ("parameters", .object []),
      ("services", .object [("api", .object
        [("environment", .object []),
          ("interfaces", .object [("main", .object
            [("host", .string "$\x7b\x7b interfaces['public.host'] \x7d\x7d"),
              ("password", .string ""), ("port", .string "80"), ("protocol", .string "http"),
              ("url", .string "http://$\x7b\x7b interfaces['public.host'] \x7d\x7d:80"),
              ("username", .string "")])])])]),
      ("tasks", .object [])]

theorem ofComponent_storefront :
    Context.ofComponent storefrontConfig {} 63 .runtime = .ok storefrontContext := by
  -- The host of the service is not shown, and so its digest is left alone.
  obtain ⟨context, hcontext⟩ :=
    (named_of_compileDocument compileDocument_storefront).exists_ofComponent
      (by decide : SafeRef.reservedLength < 63) {} .runtime
  obtain ⟨services, hservices, rfl⟩ := Context.exists_of_ofComponent hcontext
  obtain ⟨value, hmem, hvalue⟩ :=
    Context.exists_serviceMember hservices (List.mem_singleton_self _)
  obtain ⟨host, -, rfl⟩ := ok_of_map_eq_ok ((Context.serviceJson_eq ..).symm.trans hvalue)
  have hlength : (services.map Prod.fst).length = 1 :=
    congrArg List.length (Context.names_serviceMembers hservices)
  rw [List.length_map] at hlength
  obtain ⟨member, rfl⟩ := List.length_eq_one_iff.mp hlength
  obtain rfl := List.mem_singleton.mp hmem
  exact hcontext

def storefrontScope : Scope where
  context := storefrontContext
  ignored := storefrontSettings.ignoredNamespaces

/-- The port is written in one way only, and of the two hosts the one that is passed on
fails. -/
theorem storefront_runs :
    WrittenAlone storefrontContext ["interfaces", "public", "port"]
      ∧ ((storefrontScope.render "$\x7b\x7b interfaces.public.host \x7d\x7d").run []).1.faults ≠ []
      ∧ ((storefrontScope.render
          "$\x7b\x7b services.api.interfaces.main.host \x7d\x7d").run []).1.faults = [] := by
  decide +kernel

theorem render_forwarded_port :
    compileDocument storefrontSettings (.only .developer) storefrontDocument
        = .ok storefrontConfig
      ∧ Context.ofComponent storefrontConfig {} 63 .runtime = .ok storefrontContext
      ∧ Rendering.Agree
        ((storefrontScope.render "$\x7b\x7b interfaces.public.port \x7d\x7d").run []).1
        ((storefrontScope.render
          "$\x7b\x7b services.api.interfaces.main.port \x7d\x7d").run []).1 := by
  obtain ⟨spec, hspec, htext⟩ : ∃ spec,
      parseSpec (.only .developer) storefrontDocument = .ok spec
        ∧ spec.interfaces.get? "public"
          = some (.value (.string "$\x7b\x7b services.api.interfaces.main.url \x7d\x7d")) :=
    ⟨_, rfl, rfl⟩
  have hshortens : UrlShorthand.Shortens
      (ReferencePath.text ["services", "api", "interfaces", "main"])
      "$\x7b\x7b services.api.interfaces.main.url \x7d\x7d" :=
    ⟨[], [' '], [' '], [], List.all_eq_true.mp (by decide), by decide⟩
  have hkeys : ∀ k ∈ "interfaces" :: (["public"] ++ ["port"]), IsBare k := by decide
  have hkeys' : ∀ k ∈ "services" :: (["api", "interfaces", "main"] ++ ["port"]), IsBare k := by
    decide
  obtain ⟨e, hread, hpath⟩ := UrlShorthand.read_field hkeys
  obtain ⟨e', hread', hpath'⟩ := UrlShorthand.read_field hkeys'
  obtain ⟨halone, -⟩ := storefront_runs
  exact ⟨compileDocument_storefront, ofComponent_storefront,
    render_forwarded rfl hspec compileDocument_storefront rfl rfl htext hshortens
      ofComponent_storefront (by decide) (fun _ => halone) hread hpath hread' hpath'⟩

/-- The expression with the quoted key leads nowhere and stays as it is; within the value of
the interface that is passed on it is taken for a circle. -/
theorem render_quoted_interface :
    compileDocument storefrontSettings (.only .developer) storefrontDocument
        = .ok storefrontConfig
      ∧ Context.ofComponent storefrontConfig {} 63 .runtime = .ok storefrontContext
      ∧ ¬ Rendering.Agree
        ((storefrontScope.render "$\x7b\x7b interfaces.public.host \x7d\x7d").run []).1
        ((storefrontScope.render
          "$\x7b\x7b services.api.interfaces.main.host \x7d\x7d").run []).1 := by
  obtain ⟨-, hown, hother⟩ := storefront_runs
  refine ⟨compileDocument_storefront, ofComponent_storefront, fun hagree => ?_⟩
  exact hagree.elim (fun h => hown h.1) fun h => h.2 hother

end Compiler

end Manifest
