import Manifest.Proofs.Compiler
import Manifest.Proofs.Layering.Blocks
/-!
# What compiled resources come from

The blocks of a compiled config, of its services and tasks and of their debug
blocks, come from blocks of a spec in which neither the rules nor the
normalisation found a problem (`Compiler.accepted_resources`). Debug blocks are
looked at from the perspective of debugging as well.
-/

namespace Manifest

/-! ## Rules that nothing objects to -/

namespace Validation

variable {α : Type} {rules : List (Rule α)} {ps : Perspectives} {path : String} {target : α}

theorem objection_eq_none (h : applyRules rules ps path target = []) {r : Rule α} (hr : r ∈ rules)
    (happlies : r.applies ps = true) : r.objection target = none := by
  have hcheck := List.filterMap_eq_nil_iff.mp h r hr
  rw [Rule.check, if_pos happlies] at hcheck
  exact Option.map_eq_none_iff.mp hcheck

theorem eq_false_of_objectIf {bad : Bool} {message : String} (h : objectIf bad message = none) :
    bad = false := by
  cases bad with
  | false => rfl
  | true => cases h

/-! ## Blocks of a spec without problems -/

open PropertyPath (join)

/-- The rules object to no part of the body. -/
structure ValidBody {X : Type} (check : ExtensionCheck X) (ps : Perspectives) (path : String)
    (r : Spec.Resource X) : Prop where
  rules : applyRules resourceRules ps path r = []
  extension : check ps path r = []
  volumes : ∀ key v, r.body.volumes.get? key = some v →
    applyRules volumeRules (volumePerspectives ps) (join (join path "volumes") key) v = []

theorem validBody_of_checkBody {X : Type} {check : ExtensionCheck X} {ps : Perspectives}
    {path : String} {r : Spec.Resource X} (h : checkBody check ps path r = []) :
    ValidBody check ps path r := by
  obtain ⟨hown, hvolumes⟩ := List.append_eq_nil_iff.mp h
  obtain ⟨hrules, hextension⟩ := List.append_eq_nil_iff.mp hown
  refine ⟨hrules, hextension, fun key v hv => ?_⟩
  exact List.flatMap_eq_nil_iff.mp hvolumes (key, v) (Dict.get?_eq_some_iff.mp hv)

end Validation

namespace Normalization

open Validation (ExtensionCheck checkBody checkResource)
open PropertyPath (join)

variable {X Y : Type}

/-- The body is what a body of a spec without problems normalises to. -/
inductive Accepted (check : ExtensionCheck X) (e : Extension X Y) (ps : Perspectives)
    (d : Delimiters) : Config.Body Y → Prop
  | intro (path : String) (i : Config.Identity) (r : Spec.Resource X)
    (valid : checkBody check ps path r = []) (normal : bodyProblems e d path r.body = []) :
    Accepted check e ps d (body e d i r.body)

/-- The body of the resource is accepted, and that of its debug block from one
more perspective. -/
structure AcceptedResource (check : ExtensionCheck X) (e : Extension X Y) (ps : Perspectives)
    (d : Delimiters) (r : Config.Resource Y) : Prop where
  body : Accepted check e ps d r.body
  debug : ∀ debug, r.debug = some debug →
    Accepted check e (ps.insert .debug) d debug.body ∧ debug.debug = none

variable {check : ExtensionCheck X} {e : Extension X Y} {ps : Perspectives} {d : Delimiters}

theorem acceptedResource {path : String} {r : Spec.Resource X}
    (hvalid : checkResource check ps path r = []) (hnormal : resourceProblems e d path r = [])
    (i : Config.Identity) : AcceptedResource check e ps d (resource e d i r) := by
  obtain ⟨hbody, hdebug⟩ := List.append_eq_nil_iff.mp hvalid
  obtain ⟨hbodyNormal, hdebugNormal⟩ := List.append_eq_nil_iff.mp hnormal
  refine ⟨.intro path i r hbody hbodyNormal, fun debug hsome => ?_⟩
  obtain ⟨inner, hinner, rfl⟩ := Option.map_eq_some_iff.mp hsome
  rw [hinner] at hdebug hdebugNormal
  exact ⟨.intro (join path "debug") i inner hdebug hdebugNormal, rfl⟩

/-- Of a dictionary in which neither the rules nor the normalisation found a
problem, each resource is accepted. -/
theorem acceptedResource_of_get? {group : String} {resources : Dict (Spec.Resource X)}
    (hvalid : Validation.checkResources check ps group resources = [])
    (hnormal : (resources.entries.flatMap fun (key, r) =>
      resourceProblems e d (join group key) r) = [])
    {identity : String → Config.Identity} {key : String} {r : Config.Resource Y}
    (h : (resources.mapValues fun key r => resource e d (identity key) r).get? key = some r) :
    AcceptedResource check e ps d r := by
  rw [Dict.get?_mapValues] at h
  obtain ⟨given, hgiven, rfl⟩ := Option.map_eq_some_iff.mp h
  have hmem := Dict.get?_eq_some_iff.mp hgiven
  exact acceptedResource (List.flatMap_eq_nil_iff.mp hvalid _ hmem)
    (List.flatMap_eq_nil_iff.mp hnormal _ hmem) _

end Normalization

/-! ## Blocks of a compiled config -/

namespace Compiler

open Normalization (AcceptedResource)

theorem accepted_resources {s : Settings} {ps : Perspectives} {d : SourceDocument}
    {c : Config.Component} (h : compileDocument s ps d = .ok c) :
    (∀ key r, c.services.get? key = some r →
      AcceptedResource Validation.checkService Normalization.service ps s.delimiters r)
    ∧ ∀ key t, c.tasks.get? key = some t →
      AcceptedResource Validation.checkTask Normalization.task ps s.delimiters t := by
  obtain ⟨spec, hspec, hnormal, rfl⟩ := exists_normalized h
  obtain ⟨-, hvalid⟩ := parseSpec_ok hspec
  simp only [Validation.validate, Normalization.problems, List.append_eq_nil_iff] at hvalid hnormal
  obtain ⟨⟨⟨⟨-, hservices⟩, htasks⟩, -⟩, -⟩ := hvalid
  obtain ⟨⟨hservicesNormal, htasksNormal⟩, -⟩ := hnormal
  refine ⟨fun key r hr => ?_, fun key t ht => ?_⟩
  · exact Normalization.acceptedResource_of_get? hservices hservicesNormal hr
  · exact Normalization.acceptedResource_of_get? htasks htasksNormal ht

end Compiler

end Manifest
