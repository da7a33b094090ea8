import Manifest.Proofs.Compiler
import Manifest.Proofs.Validation.DependsOn
/-!
# Consistent configs

A config is consistent if its parts go together: no key names both a service
and a task, what a resource depends on is a service, and nothing depends on
itself through others, whether debug blocks are in force or not. Normalising
keeps keys and lists as they are, so a config that was compiled is consistent
because its spec is valid.
-/

namespace Manifest

namespace Config

variable {X : Type}

/-- What a resource depends on: its own list, or in the debug view the list of
its debug block if that has one. -/
def Resource.dependencies (r : Resource X) (v : View) : List String :=
  match v, r.debug with
  | .debug, some debug => listOver r.body.dependsOn debug.body.dependsOn
  | _, _ => r.body.dependsOn

/-- The dictionary has a resource at the first key that depends on the second. -/
def Lists (resources : Dict (Resource X)) (v : View) (x y : String) : Prop :=
  ∃ r ∈ resources.get? x, y ∈ r.dependencies v

instance (resources : Dict (Resource X)) (v : View) (x y : String) :
    Decidable (Lists resources v x y) :=
  inferInstanceAs (Decidable (∃ r ∈ resources.get? x, y ∈ r.dependencies v))

namespace Component

/-- A service or a task of that name depends on another resource. -/
def Needs (c : Component) (v : View) (x y : String) : Prop :=
  Lists c.services v x y ∨ Lists c.tasks v x y

instance (c : Component) (v : View) (x y : String) : Decidable (c.Needs v x y) :=
  inferInstanceAs (Decidable (Lists c.services v x y ∨ Lists c.tasks v x y))

structure Consistent (c : Component) : Prop where
  apart : ∀ key ∈ c.services.keys, key ∉ c.tasks.keys
  services : ∀ v x y, c.Needs v x y → y ∈ c.services.keys ∧ y ∉ c.tasks.keys
  acyclic : ∀ v, Acyclic (c.Needs v)

end Component

end Config

/-! ## Normalised specs -/

namespace Normalization

open Validation.DependsOn (listIn debugList)

variable {X Y : Type} {e : Extension X Y} {d : Delimiters} {c : Spec.Component} {v : View}
  {x y : String}

theorem dependencies_resource (group name : String) (i : Config.Identity) (r : Spec.Resource X) :
    (resource e d i r).dependencies v = (listIn v group name r).services := by
  cases v with
  | declared => rfl
  | debug =>
      show (resource e d i r).dependencies .debug = (debugList group name r).services
      unfold Config.Resource.dependencies resource debugList
      cases r.debug with
      | none => rfl
      | some debug =>
          dsimp only [Option.map_some, Config.listOver, body]
          by_cases hempty : debug.body.dependsOn.isEmpty
          · rw [if_pos hempty, if_pos hempty]
            rfl
          · rw [if_neg hempty, if_neg hempty]

/-- The lists of a normalised resource are those of its spec. -/
theorem exists_of_lists {resources : Dict (Spec.Resource X)} {identity : String → Config.Identity}
    (group : String)
    (h : Config.Lists (resources.mapValues fun key r => resource e d (identity key) r) v x y) :
    ∃ r, resources.get? x = some r ∧ y ∈ (listIn v group x r).services := by
  obtain ⟨config, hconfig, hy⟩ := h
  rw [Option.mem_def, Dict.get?_mapValues] at hconfig
  obtain ⟨r, hr, rfl⟩ := Option.map_eq_some_iff.mp hconfig
  exact ⟨r, hr, dependencies_resource group x (identity x) r ▸ hy⟩

theorem needs_of_outline (h : (outline d c).Needs v x y) : Validation.DependsOn.Needs c v x y := by
  rcases h with h | h
  · obtain ⟨s, hs, hy⟩ := exists_of_lists "services" h
    exact .of_services hs hy
  · obtain ⟨t, ht, hy⟩ := exists_of_lists "tasks" h
    exact .of_tasks ht hy

theorem keys_services_outline : (outline d c).services.keys = c.services.keys :=
  Dict.keys_mapValues ..

theorem keys_tasks_outline : (outline d c).tasks.keys = c.tasks.keys := Dict.keys_mapValues ..

end Normalization

namespace Compiler

open Normalization (outline)

theorem apart_of_validate {ps : Perspectives} {c : Spec.Component}
    (h : Validation.validate ps c = []) : ∀ key ∈ c.services.keys, key ∉ c.tasks.keys := by
  intro key hservice htask
  obtain ⟨hobjects, -⟩ := List.append_eq_nil_iff.mp h
  obtain ⟨-, hcollisions⟩ := List.append_eq_nil_iff.mp hobjects
  have hnone := List.filter_eq_nil_iff.mp (List.map_eq_nil_iff.mp hcollisions) key htask
  exact hnone (Dict.contains_iff.mpr hservice)

/-- A compiled config is consistent. -/
theorem consistent_of_compileDocument {s : Settings} {ps : Perspectives} {d : SourceDocument}
    {c : Config.Component} (h : compileDocument s ps d = .ok c) : c.Consistent := by
  obtain ⟨spec, hspec, rfl⟩ := exists_outline h
  obtain ⟨-, hvalid⟩ := parseSpec_ok hspec
  obtain ⟨-, hdepends⟩ := List.append_eq_nil_iff.mp hvalid
  refine ⟨?_, ?_, ?_⟩
  · rw [Normalization.keys_services_outline, Normalization.keys_tasks_outline]
    exact apart_of_validate hvalid
  · intro v x y hneeds
    rw [Normalization.keys_services_outline, Normalization.keys_tasks_outline]
    have hspecNeeds := Normalization.needs_of_outline hneeds
    exact Validation.DependsOn.isService_of_check hdepends hspecNeeds
  · intro v
    have hacyclic := Validation.DependsOn.acyclic_of_check hdepends v
    exact hacyclic.of_le fun x y hneeds => Normalization.needs_of_outline hneeds

end Compiler

end Manifest
