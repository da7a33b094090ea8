import Manifest.Normalization
import Manifest.Proofs.Layering.Grouping
/-!
# Normalised configs are expanded

Both normalising and expanding write defaults: the implicit build, thresholds and
times of a probe, the unset default of a parameter, and the names of resources.
They agree on all of them, also where the name or the tag is empty, so that
expanding a normalised config leaves it as it is (`expand_of_component`). Only the
ingress of an interface waits for expanding to be enabled.
-/

namespace Manifest.Normalization

open Config (Component Layered)

variable {X Y : Type} {d : Delimiters}

/-! ## Parts -/

theorem expand_parameter (p : Spec.Parameter) : (parameter p).expand = parameter p := by
  cases p with
  | value v => exact Config.Parameter.expand_eq_self_iff.mpr fun _ => rfl
  | definition p =>
      refine Config.Parameter.expand_eq_self_iff.mpr fun hrequired => ?_
      have hoptional : (p.required.bind Scalar.asBool?).getD true = false :=
        Option.some.inj hrequired
      simp only [parameter, hoptional, Bool.false_eq_true, if_false, Option.isSome_or,
        Option.isSome_some, Bool.or_true]

/-- What has no image is given a build. -/
theorem isSome_buildOf (b : Spec.Body X) : b.image.isSome ∨ (buildOf b).isSome := by
  unfold buildOf
  cases b.build with
  | some given => exact Or.inr rfl
  | none =>
      cases b.image with
      | some image => exact Or.inl rfl
      | none => exact Or.inr rfl

/-! ## Resources -/

/-- Extensions come out of normalising with their defaults. -/
def WritesDefaults [Layered Y] (e : Extension X Y) : Prop :=
  ∀ dialect x, Layered.expand (e.config dialect x) = e.config dialect x

theorem writesDefaults_service : WritesDefaults service := by
  intro dialect x
  refine Config.ServiceExtension.expand_eq_self_iff.mpr fun p hp => ?_
  obtain ⟨written, -, rfl⟩ := Option.map_eq_some_iff.mp hp
  rfl

theorem writesDefaults_task : WritesDefaults task := fun _ _ => rfl

section Resources

variable [Layered Y] {e : Extension X Y}

theorem expand_body (he : WritesDefaults e) (i : Config.Identity) (b : Spec.Body X) :
    (body e d i b).expand = body e d i b :=
  Config.Body.expand_eq_self_iff.mpr ⟨isSome_buildOf b, he _ b.extension⟩

theorem expand_resource (he : WritesDefaults e) (i : Config.Identity) (r : Spec.Resource X) :
    (resource e d i r).expand = resource e d i r := by
  refine Config.Resource.expand_eq_self_iff.mpr ⟨expand_body he i r.body, fun debug hdebug => ?_⟩
  obtain ⟨inner, -, rfl⟩ := Option.map_eq_some_iff.mp hdebug
  exact ⟨expand_body he i inner.body, rfl⟩

/-- The identity is the one that a component of the same name and tag stamps. -/
theorem stamped_identity {named c : Component} (hname : c.name = named.name)
    (htag : c.tag = named.tag) (key : String) :
    (identity named key).stamped c key = identity named key := by
  simp only [Config.Identity.stamped, identity, Component.resourceRef, Config.textOver, hname, htag,
    ite_self]

omit [Layered Y] in
theorem stamp_resource {named c : Component} (hname : c.name = named.name)
    (htag : c.tag = named.tag) (key : String) (r : Spec.Resource X) :
    (resource e d (identity named key) r).stamp c key = resource e d (identity named key) r := by
  rw [Config.Resource.stamp_eq]
  show (resource e d (identity named key) r).renamed ((identity named key).stamped c key) = _
  rw [stamped_identity hname htag key]
  obtain ⟨b, debug⟩ := r
  cases debug <;> rfl

/-- Neither names nor defaults are left to write in the resources of a dictionary. -/
theorem expand_resources (he : WritesDefaults e) {named c : Component} (hname : c.name = named.name)
    (htag : c.tag = named.tag) (resources : Dict (Spec.Resource X)) :
    (resources.mapValues fun key r => resource e d (identity named key) r).mapValues
        (fun key r => (r.stamp c key).expand)
      = resources.mapValues fun key r => resource e d (identity named key) r := by
  rw [Dict.mapValues_mapValues]
  refine Dict.mapValues_congr fun key r _ => ?_
  rw [stamp_resource hname htag, expand_resource he]

end Resources

/-! ## Components -/

theorem expand_parameters (parameters : Dict Spec.Parameter) :
    (parameters.mapValues fun _ p => parameter p).mapValues (fun _ p => p.expand)
      = parameters.mapValues fun _ p => parameter p := by
  rw [Dict.mapValues_mapValues]
  exact Dict.mapValues_congr fun _ p _ => expand_parameter p

/-- An ingress becomes enabled unless it is said to be or not to be. -/
theorem expand_interface (i : Config.ComponentInterface) :
    i.expand =
      { i with
        ingress := i.ingress.map fun g => { g with enabled := some (g.enabled.getD true) } } := by
  have hingress : ∀ g : Config.Ingress,
      g.expand = { g with enabled := some (g.enabled.getD true) } := by
    intro g
    obtain ⟨enabled, subdomain⟩ := g
    cases enabled <;> rfl
  rw [Config.ComponentInterface.expand, funext hingress]

/-- Every default that expanding writes into a normalised config is there already,
but for one: an ingress of which it is not said whether it is enabled becomes
enabled. -/
theorem expand_of_component {spec : Spec.Component} {c : Component}
    (h : component d spec = .ok c) :
    c.expand =
      { c with
        interfaces := c.interfaces.mapValues fun _ i =>
          { i with
            ingress := i.ingress.map fun g =>
              { g with enabled := some (g.enabled.getD true) } } } := by
  obtain ⟨-, rfl⟩ := eq_of_unlessInvalid h
  have hreference : (if (outline d spec).name.isEmpty then (outline d spec).reference
      else (outline d spec).ref) = (outline d spec).reference := ite_self _
  have hparameters : (outline d spec).parameters.mapValues (fun _ p => p.expand)
      = (outline d spec).parameters := expand_parameters spec.parameters
  have hservices : (outline d spec).services.mapValues
      (fun key s => (s.stamp (outline d spec) key).expand) = (outline d spec).services :=
    expand_resources writesDefaults_service rfl rfl spec.services
  have htasks : (outline d spec).tasks.mapValues
      (fun key t => (t.stamp (outline d spec) key).expand) = (outline d spec).tasks :=
    expand_resources writesDefaults_task rfl rfl spec.tasks
  simp only [Component.expand, hreference, hparameters, hservices, htasks, expand_interface]

/-- A component without a name, with one of each default. -/
def unnamed : Spec.Component where
  name := ""
  tag := some ""
  parameters := .ofList [("region", .definition { required := some (.bool false) })]
  services := .ofList [("api",
    { body := { extension := { probe := some { path := some "/health" } } }
      debug := some ⟨{ extension := {} }, none⟩ })]
  interfaces := .ofList [("public", .definition {} (some { subdomain := some "www" }))]

theorem expand_of_component_unnamed : ∃ c, component {} unnamed = .ok c
    ∧ c.expand =
      { c with
        interfaces := .ofList [("public", { ingress := some ⟨some true, some "www"⟩ })] } := by
  have h : component {} unnamed = .ok (outline {} unnamed) := rfl
  exact ⟨_, h, expand_of_component h⟩

end Manifest.Normalization
