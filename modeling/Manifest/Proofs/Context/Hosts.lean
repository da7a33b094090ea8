import Manifest.Proofs.Compiler.Context
import Manifest.Proofs.Context.Interfaces
import Manifest.Proofs.SafeRef.Identity
/-!
# Hosts of services

An interface without a host of its own has that of its service, the safe ref of the
service's name (`lookup?_defaultHost`). Services of one component have different keys
and so different names, and no two of them have the same ref where nothing is
cut from it (`Named.defaultHost_ne`).
-/

namespace Manifest

/-! ## Showing a host -/

/-- An interface without a host of its own is shown with that of its service. -/
theorem Context.lookup?_defaultHost {c : Config.Component} {dependencies : Context.Dependencies}
    {maxRefLength : Nat} {mode : Mode} {context : Context}
    (h : Context.ofComponent c dependencies maxRefLength mode = .ok context)
    {key name : String} {s : Config.Service} {i : Config.Interface}
    (hs : c.services.get? key = some s) (hi : s.body.extension.interfaces.get? name = some i)
    (hhost : i.host = none) : ∃ host, Context.defaultHost c.instanceId maxRefLength s = .ok host
      ∧ context.lookup? ["services", key, "interfaces", name, "host"] = some (.string host) := by
  obtain ⟨host, hdefault, hlookup⟩ := Context.lookup?_serviceInterface h hs hi
  refine ⟨host, hdefault, hlookup "host" host ?_⟩
  rw [Context.shown, hhost]
  rfl

/-! ## Services of one component -/

namespace Config.Component

open Slug (SameNames)
open SafeRef (readable reserved reservedLength)

variable {c : Component} {key key' : String} {s s' : Service}

/-- A key is among the names of its resource. -/
theorem key_of_resourceSlug (h : SameNames (c.resourceSlug key) (c.resourceSlug key')) :
    key = key' := by
  unfold resourceSlug at h
  split at h
  · exact Option.some.inj h.service
  · exact Option.some.inj h.component

variable {instanceId : Option String} {maxRefLength : Nat} {host : String}

/-- A host that nothing has been cut from is made of the names of its service. -/
theorem Named.pieces_of_defaultHost (h : c.Named) (hs : c.services.get? key = some s)
    (hshort : (readable (c.resourceSlug key)).length + reservedLength ≤ maxRefLength)
    (hhost : Context.defaultHost instanceId maxRefLength s = .ok host) :
    ∃ found : Slug, found.WellFormed ∧ found.kind ≠ .environment
      ∧ SameNames found (c.resourceSlug key) ∧ found.tag.isSome = true
      ∧ SafeRef.pieces host = SafeRef.segments found (instanceId.bind SafeRef.named?) := by
  obtain ⟨hgateway, found, hdetect, hnames, htag⟩ := h.detect_reference hs
  have hwellFormed := Slug.wellFormed_of_detect hdetect
  have hreserved : reserved found (instanceId.bind SafeRef.named?) = reservedLength :=
    if_pos (Bool.or_eq_true_iff.mpr (Or.inl htag))
  have hreadable : readable found = readable (c.resourceSlug key) := by
    rw [readable, readable, hnames.readableParts_eq]
  rw [Context.defaultHost_eq_derive hgateway hdetect] at hhost
  refine ⟨found, hwellFormed, (Slug.detect_eq_ok_iff.mp hdetect).1, hnames, htag,
    SafeRef.pieces_of_derive hwellFormed (Slug.kind_ne_gateway hdetect hgateway) ?_ hhost⟩
  rwa [hreadable, hreserved]

/-- Services of one component have different hosts, whatever their digests are. -/
theorem Named.defaultHost_ne (h : c.Named) (hne : key ≠ key') (hs : c.services.get? key = some s)
    (hs' : c.services.get? key' = some s')
    (hshort : (readable (c.resourceSlug key)).length + reservedLength ≤ maxRefLength)
    (hshort' : (readable (c.resourceSlug key')).length + reservedLength ≤ maxRefLength)
    (hhost : Context.defaultHost instanceId maxRefLength s = .ok host) :
    Context.defaultHost instanceId maxRefLength s' ≠ .ok host := by
  intro hhost'
  obtain ⟨found, hfound, hkind, hnames, htag, hpieces⟩ := h.pieces_of_defaultHost hs hshort hhost
  obtain ⟨found', hfound', hkind', hnames', htag', hpieces'⟩ :=
    h.pieces_of_defaultHost hs' hshort' hhost'
  have hsame : SameNames found found' := by
    refine SafeRef.sameNames_of_segments hfound hfound' hkind hkind' ?_
      (hpieces.symm.trans hpieces')
    rw [SafeRef.hashed, SafeRef.hashed, htag, htag']
  exact hne (key_of_resourceSlug (hnames.symm.trans (hsame.trans hnames')))

end Config.Component

/-! ## What refs tell -/

namespace SafeRef

open Config (Component Interface Service)
open Slug (SameNames)

/-- Two texts of one ref that nothing has been cut from name the same thing, if both
have a tag or neither has, and without a tag they are the same text. Two interfaces
of different services of one component, neither of which has a host of its own, are
shown with different hosts. -/
theorem ref_tells_names :
    (∀ (text text' : String) (s s' : Slug) (limit : Nat) (ref : String),
      text ≠ "gateway" → text' ≠ "gateway" →
      Slug.detect text = .ok s → Slug.detect text' = .ok s' →
      (s.tag.isSome = s'.tag.isSome ∨ (':' ∈ text.toList ↔ ':' ∈ text'.toList)) →
      (readable s).length + reserved s none ≤ limit →
      (readable s').length + reserved s' none ≤ limit →
      ofText text none limit = .ok ref → ofText text' none limit = .ok ref →
      SameNames s s'
        ∧ (s.tag = none ∨ ':' ∉ text.toList ∧ ':' ∉ text'.toList → text = text'))
    ∧ ∀ (c : Component) (instanceId : Option String) (dependencies : Context.Dependencies)
        (limit : Nat) (mode : Mode) (context : Context),
      c.Named → Context.ofComponent { c with instanceId } dependencies limit mode = .ok context →
      ∀ (key key' name name' : String) (s s' : Service) (i i' : Interface), key ≠ key' →
        c.services.get? key = some s → c.services.get? key' = some s' →
        s.body.extension.interfaces.get? name = some i →
        s'.body.extension.interfaces.get? name' = some i' → i.host = none → i'.host = none →
        (readable (c.resourceSlug key)).length + reservedLength ≤ limit →
        (readable (c.resourceSlug key')).length + reservedLength ≤ limit →
        ∃ host host' : String,
          context.lookup? ["services", key, "interfaces", name, "host"] = some (.string host)
          ∧ context.lookup? ["services", key', "interfaces", name', "host"] = some (.string host')
          ∧ host ≠ host' := by
  constructor
  · intro text text' s s' limit ref hgateway hgateway' hdetect hdetect' htags hshort hshort' href
      href'
    have hnames := sameNames_of_ofText hgateway hgateway' hdetect hdetect' htags hshort hshort'
      href href'
    refine ⟨hnames, fun huntagged => ?_⟩
    rcases huntagged with htag | ⟨hcolon, hcolon'⟩
    · have hcolon := Slug.not_colon_of_detect hdetect htag
      refine hnames.text_eq hdetect hdetect' hgateway hgateway' hcolon ?_
      rcases htags with htags | hiff
      · rw [htag] at htags
        have htag' : s'.tag = none :=
          Option.isNone_iff_eq_none.mp (Option.isSome_eq_false_iff.mp htags.symm)
        exact Slug.not_colon_of_detect hdetect' htag'
      · exact hiff.not.mp hcolon
    · exact hnames.text_eq hdetect hdetect' hgateway hgateway' hcolon hcolon'
  · intro c instanceId dependencies limit mode context hnamed hcontext key key' name name' s s' i i'
      hne hs hs' hi hi' hnone hnone' hshort hshort'
    obtain ⟨host, hhost, hlookup⟩ := Context.lookup?_defaultHost hcontext hs hi hnone
    obtain ⟨host', hhost', hlookup'⟩ := Context.lookup?_defaultHost hcontext hs' hi' hnone'
    refine ⟨host, host', hlookup, hlookup', ?_⟩
    rintro rfl
    exact hnamed.defaultHost_ne hne hs hs' hshort hshort' hhost hhost'

/-- A service of the shop, with an interface of which nothing is said. -/
def shopService (key : String) : Service where
  body :=
    { identity := ⟨key, "acme/shop/" ++ key ++ ":v1", "v1"⟩
      extension := { interfaces := .ofList [("main", {})] } }
  debug := none

def shop : Component where
  name := "acme/shop"
  tag := "v1"
  reference := "acme/shop:v1"
  services := .ofList [("api", shopService "api"), ("api-v1", shopService "api-v1")]

theorem named_shop : shop.Named where
  name := by decide
  tag := Slug.isTagText_iff.mp (by decide)
  reference := by decide
  instanceId := rfl
  instanceName := rfl
  instanceDate := rfl
  serviceKeys := fun key hkey => Slug.isNameText_iff.mp
    (List.all_eq_true.mp (show shop.services.keys.all Slug.isNameText = true by decide) key hkey)
  taskKeys := fun _ hkey => absurd hkey List.not_mem_nil
  stamps := by
    refine ⟨fun key s hs => ?_, fun key t ht => nomatch ht⟩
    have hmem : (key, s) ∈ shop.services.entries := Dict.get?_eq_some_iff.mp hs
    have hentries : shop.services.entries
        = [("api", shopService "api"), ("api-v1", shopService "api-v1")] := rfl
    rw [hentries, List.mem_cons, List.mem_singleton] at hmem
    rcases hmem with hmem | hmem
    · obtain ⟨rfl, rfl⟩ := Prod.mk.inj hmem
      exact ⟨by decide, fun debug hdebug => nomatch hdebug⟩
    · obtain ⟨rfl, rfl⟩ := Prod.mk.inj hmem
      exact ⟨by decide, fun debug hdebug => nomatch hdebug⟩

/-- An instance that is written with and without its default tag has one ref, and the
services of the shop have two hosts. -/
theorem ref_tells_names_of_shop :
    (∃ s ref, Slug.detect "acme/shop/api@acme/prod" = .ok s
      ∧ Slug.detect "acme/shop/api:latest@acme/prod" = .ok s
      ∧ ofText "acme/shop/api@acme/prod" none 40 = .ok ref
      ∧ ofText "acme/shop/api:latest@acme/prod" none 40 = .ok ref ∧ SameNames s s)
    ∧ ∃ context host host', Context.ofComponent shop {} 30 .runtime = .ok context
      ∧ context.lookup? ["services", "api", "interfaces", "main", "host"] = some (.string host)
      ∧ context.lookup? ["services", "api-v1", "interfaces", "main", "host"] = some (.string host')
      ∧ host ≠ host' := by
  constructor
  · let s := Slug.ofServiceInstance (.ofServiceVersion "acme" "shop" "api" "latest")
      (.ofEnvironment "acme" "prod")
    have hplain : Slug.detect "acme/shop/api@acme/prod" = .ok s := by decide
    have htagged : Slug.detect "acme/shop/api:latest@acme/prod" = .ok s := by decide
    have hderive : derive s none none 40 = .ok (String.ofList (written s none none 40)) :=
      (derive_eq_ok_iff SlugKind.noConfusion).mpr ⟨by decide, rfl⟩
    have href := (ofText_eq_derive (by decide) hplain).trans hderive
    have href' := (ofText_eq_derive (by decide) htagged).trans hderive
    obtain ⟨hnames, -⟩ := ref_tells_names.1 _ _ s s 40 _ (by decide) (by decide) hplain htagged
      (Or.inl rfl) (by decide) (by decide) href href'
    exact ⟨s, _, hplain, htagged, href, href', hnames⟩
  · obtain ⟨context, hcontext⟩ := named_shop.exists_ofComponent (by decide : reservedLength < 30)
      {} .runtime
    obtain ⟨host, host', hlookup, hlookup', hne⟩ := ref_tells_names.2 shop none {} 30 .runtime
      context named_shop hcontext "api" "api-v1" "main" "main" _ _ {} {} (by decide) rfl rfl rfl rfl
      rfl rfl (by decide) (by decide)
    exact ⟨context, host, host', hcontext, hlookup, hlookup', hne⟩

end SafeRef

end Manifest
