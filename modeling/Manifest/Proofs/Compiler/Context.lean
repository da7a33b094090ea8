import Manifest.Proofs.Compiler.Naming
import Manifest.Proofs.Context
import Manifest.Proofs.SafeRef.Identity
/-!
# Layered configs have contexts

Whatever is layered from compiled configs has a context in either mode
(`readable_of_composed`): a service is reached at the safe ref of its own ref,
which is detected as a slug with the names of the service
(`Component.Named.detect_reference`), and settings that are read leave room for the
digest (`Settings.usable_of_read`).
-/

namespace Manifest

/-! ## Hosts -/

theorem Context.defaultHost_eq_derive {instanceId : Option String} {maxRefLength : Nat}
    {s : Config.Service} {found : Slug}
    (hgateway : s.body.identity.reference ≠ Slug.gatewayText)
    (hdetect : Slug.detect s.body.identity.reference = .ok found) :
    defaultHost instanceId maxRefLength s
      = SafeRef.derive found none (instanceId.bind SafeRef.named?) maxRefLength := by
  cases instanceId with
  | none => exact SafeRef.ofText_eq_derive hgateway hdetect
  | some id => exact SafeRef.ofInstance_eq_derive hgateway hdetect id

/-! ## Building contexts -/

namespace Config.Component

open Slug (SameNames)

variable {c : Component} {key : String} {s : Service} {maxRefLength : Nat}

theorem kind_resourceSlug (c : Component) (key : String) :
    (c.resourceSlug key).kind ≠ .environment := by
  unfold resourceSlug
  split <;> exact SlugKind.noConfusion

theorem isSome_tag_resourceSlug (c : Component) (key : String) :
    (c.resourceSlug key).tag.isSome = true := by
  unfold resourceSlug
  split <;> rfl

/-- What the ref of a service is detected as has the service's names, and a tag. -/
theorem Named.detect_reference (h : c.Named) (hs : c.services.get? key = some s) :
    s.body.identity.reference ≠ Slug.gatewayText
      ∧ ∃ found, Slug.detect s.body.identity.reference = .ok found
        ∧ SameNames found (c.resourceSlug key) ∧ found.tag.isSome = true := by
  obtain ⟨hkey, hidentity⟩ := (h.identities.services key s hs).body
  obtain ⟨hwellFormed, htext⟩ := h.text_resourceSlug hkey
  have hreference : s.body.identity.reference = (c.resourceSlug key).text := by
    rw [hidentity, ← htext]
    rfl
  have hgateway : (c.resourceSlug key).kind ≠ .gateway := by
    unfold resourceSlug
    split <;> exact SlugKind.noConfusion
  obtain ⟨found, hfound, hnames, htag⟩ :=
    Slug.exists_detect_text hwellFormed (c.kind_resourceSlug key)
  rw [hreference]
  exact ⟨Slug.text_ne_gatewayText hwellFormed hgateway, found, hfound, hnames,
    htag.trans (c.isSome_tag_resourceSlug key)⟩

theorem Named.exists_serviceJson (h : c.Named) (hroom : SafeRef.reservedLength < maxRefLength)
    (hs : c.services.get? key = some s) :
    ∃ value, Context.serviceJson c.instanceId maxRefLength s = .ok value := by
  obtain ⟨hgateway, found, hdetect, -, -⟩ := h.detect_reference hs
  obtain ⟨host, hhost⟩ := (SafeRef.exists_derive_iff (Slug.kind_ne_gateway hdetect hgateway)).mpr
    ((SafeRef.reserved_le ..).trans_lt hroom)
  rw [Context.serviceJson_eq, Context.defaultHost_eq_derive hgateway hdetect, hhost]
  exact ⟨_, rfl⟩

/-- A named component has a context, whatever it depends on. -/
theorem Named.exists_ofComponent (h : c.Named) (hroom : SafeRef.reservedLength < maxRefLength)
    (dependencies : Context.Dependencies) (mode : Mode) :
    ∃ context, Context.ofComponent c dependencies maxRefLength mode = .ok context := by
  have hservices : ∃ services, Context.serviceMembers c maxRefLength = .ok services := by
    refine exists_mapM ?_
    rintro ⟨key, s⟩ hmem
    obtain ⟨value, hvalue⟩ := h.exists_serviceJson hroom (Dict.get?_eq_some_iff.mpr hmem)
    refine ⟨(key, value), ?_⟩
    dsimp only
    rw [hvalue]
    rfl
  obtain ⟨services, hservices⟩ := hservices
  rw [Context.ofComponent_eq, hservices]
  exact ⟨_, rfl⟩

end Config.Component

namespace Compiler

open Config (Component)

/-- Whatever is layered from compiled configs has a context under all settings
that are read, in either mode and whatever it depends on. Where its name has an
account, its own ref is read as the version of that component, and the ref of
every block as the version of the service at the block's key. -/
theorem readable_of_composed {source : String} {s : Settings} {c : Component}
    (hs : Settings.read source = .ok s) (hc : Composed c) :
    (∀ dependencies mode, ∃ context,
        Context.ofComponent c dependencies s.maxRefLength mode = .ok context)
      ∧ ∀ account, c.account? = some account →
        Slug.read .componentVersion c.reference
            = .ok (.ofComponentVersion account c.ownName c.tag)
          ∧ c.Identities fun key i => Slug.read .serviceVersion i.reference
            = .ok (.ofServiceVersion account c.ownName key c.tag) := by
  have hnamed := named_of_composed hc
  have hroom := (Settings.usable_of_read hs).room
  refine ⟨hnamed.exists_ofComponent hroom, fun account haccount => ⟨?_, ?_⟩⟩
  · exact hnamed.read_reference haccount
  · refine hnamed.read_identities.imp fun key i hread => ?_
    rw [Component.resourceSlug, haccount] at hread
    exact hread

/-- Settings of their own, and an operator's fix to a developer's config. -/
theorem readable_gate_fix :
    Settings.read "ignored_namespaces: [vault]" = .ok { ignoredNamespaces := ["vault"] }
      ∧ Composed (gate.merge fix) ∧ (gate.merge fix).account? = some "acme"
      ∧ (∃ context, Context.ofComponent (gate.merge fix) {} 63 .validation = .ok context)
      ∧ Slug.read .componentVersion (gate.merge fix).reference
        = .ok (.ofComponentVersion "acme" "gate" "latest")
      ∧ ((gate.merge fix).services.get? "api").map (fun s => Slug.read .serviceVersion
          s.body.identity.reference)
        = some (.ok (.ofServiceVersion "acme" "gate" "api" "latest")) := by
  have hread : Settings.read "ignored_namespaces: [vault]"
      = .ok { ignoredNamespaces := ["vault"] } := by decide +kernel
  have hcomposed : Composed (gate.merge fix) :=
    .merged (.compiled compileDocument_gate) (.compiled compileDocument_fix)
  obtain ⟨hcontext, hrefs⟩ := readable_of_composed hread hcomposed
  obtain ⟨hreference, hidentities⟩ := hrefs "acme" rfl
  have hapi := hidentities.services "api" _ rfl
  refine ⟨hread, hcomposed, rfl, hcontext {} .validation, hreference, ?_⟩
  exact congrArg some hapi.body

end Compiler

end Manifest
