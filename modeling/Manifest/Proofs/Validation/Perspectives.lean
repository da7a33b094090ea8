import Mathlib.Data.List.Basic
import Mathlib.Data.List.Flatten
import Manifest.Validation
/-!
# More perspectives

Whoever looks at a document from more perspectives sees at least the same problems, in the
same order. For a single table of rules that is plain (`applyRules_sublist`). It fails for
volumes where debugging is added: from then on only the rules of debugging hold there
(`volumePerspectives`). So the sets that are compared agree on debugging, which
a debug block then keeps, since it adds debugging to both.
-/

namespace Manifest

open List (Sublist)

namespace Perspectives

variable {ps qs : Perspectives}

instance : HasSubset Perspectives := ⟨fun ps qs => ∀ p, ps.contains p → qs.contains p⟩

theorem subset_refl (ps : Perspectives) : ps ⊆ ps := fun _ h => h

theorem intersects_mono (h : ps ⊆ qs) {listed : List Perspective}
    (hlisted : ps.intersects listed) : qs.intersects listed := by
  rw [intersects, List.any_eq_true] at *
  obtain ⟨p, hp, hcontains⟩ := hlisted
  exact ⟨p, hp, h p hcontains⟩

theorem insert_mono (h : ps ⊆ qs) (p : Perspective) : ps.insert p ⊆ qs.insert p := by
  intro q hq
  rw [contains_insert, Bool.or_eq_true] at *
  exact hq.imp_right (h q)

end Perspectives

namespace Validation

variable {α X : Type} {ps qs : Perspectives}

theorem Rule.applies_mono (h : ps ⊆ qs) {r : Rule α} (hr : r.applies ps) : r.applies qs := by
  rw [Rule.applies, Bool.or_eq_true] at *
  exact hr.imp_right (Perspectives.intersects_mono h)

/-- What a rule that holds objects to. -/
def Rule.report (path : String) (target : α) (r : Rule α) : Option Diagnostic :=
  (r.objection target).map fun message =>
    { kind := r.kind, path := PropertyPath.join path r.field, constraint := r.constraint, message }

/-- A table of rules is applied by those of its rules that hold. -/
theorem applyRules_eq (rules : List (Rule α)) (ps : Perspectives) (path : String) (target : α) :
    applyRules rules ps path target
      = (rules.filter (Rule.applies ps)).filterMap (Rule.report path target) := by
  rw [applyRules, List.filterMap_filter]
  rfl

theorem applyRules_sublist (h : ps ⊆ qs) (rules : List (Rule α)) (path : String) (target : α) :
    (applyRules rules ps path target).Sublist (applyRules rules qs path target) := by
  rw [applyRules_eq, applyRules_eq]
  exact (List.monotone_filter_right rules fun r hr => Rule.applies_mono h hr).filterMap _

/-! ## Resources -/

/-- With more perspectives, the check of what only some resources have finds no less. -/
def ExtensionCheck.Monotone (extension : ExtensionCheck X) : Prop :=
  ∀ ⦃ps qs : Perspectives⦄, ps ⊆ qs → ∀ path r,
    (extension ps path r).Sublist (extension qs path r)

theorem monotone_checkService : ExtensionCheck.Monotone checkService := by
  intro ps qs h path s
  refine ((applyRules_sublist h serviceRules path s).append ?_).append ?_
  · cases s.body.extension.probe with
    | none => exact .slnil
    | some probe => exact applyRules_sublist h probeRules _ probe
  · cases s.body.extension.scaling with
    | none => exact .slnil
    | some scaling => exact applyRules_sublist h scalingRules _ scaling

theorem monotone_checkTask : ExtensionCheck.Monotone checkTask := fun _ _ _ _ _ => .slnil

section

variable (h : ps ⊆ qs) (hdebug : ps.debug = qs.debug)
include h hdebug

/-- From the perspective of debugging both sets come down to that one. -/
theorem volumePerspectives_mono : volumePerspectives ps ⊆ volumePerspectives qs := by
  rw [volumePerspectives, volumePerspectives, hdebug]
  split
  · exact Perspectives.subset_refl _
  · exact h

theorem checkBody_sublist {extension : ExtensionCheck X} (hextension : extension.Monotone)
    (path : String) (r : Spec.Resource X) :
    (checkBody extension ps path r).Sublist (checkBody extension qs path r) := by
  refine ((applyRules_sublist h resourceRules path r).append (hextension h path r)).append ?_
  refine List.Sublist.flatMap_right _ fun volume _ => ?_
  exact applyRules_sublist (volumePerspectives_mono h hdebug) volumeRules _ volume.2

theorem checkResource_sublist {extension : ExtensionCheck X} (hextension : extension.Monotone)
    (path : String) (r : Spec.Resource X) :
    (checkResource extension ps path r).Sublist (checkResource extension qs path r) := by
  refine (checkBody_sublist h hdebug hextension path r).append ?_
  cases r.debug with
  | none => exact .slnil
  | some debug => exact checkBody_sublist (Perspectives.insert_mono h .debug) rfl hextension _ debug

theorem checkResources_sublist {extension : ExtensionCheck X} (hextension : extension.Monotone)
    (path : String) (resources : Dict (Spec.Resource X)) :
    (checkResources extension ps path resources).Sublist
      (checkResources extension qs path resources) :=
  List.Sublist.flatMap_right _ fun entry _ =>
    checkResource_sublist h hdebug hextension _ entry.2

end

/-- Where debugging is added, the objection to a host path goes away. -/
theorem not_sublist_insert_debug {volume : Spec.Volume} {hostPath : String}
    (hpath : volume.hostPath? = some hostPath) (hkey : volume.key? = none)
    (hdebug : ps.debug = false) (hheld : ps.developer ∨ ps.operator) (path : String) :
    ¬ (applyRules volumeRules (volumePerspectives ps) path volume).Sublist
        (applyRules volumeRules (volumePerspectives (ps.insert .debug)) path volume) := by
  have hsilent : applyRules volumeRules (volumePerspectives (ps.insert .debug)) path volume = [] := by
    have honly : volumePerspectives (ps.insert .debug) = .only .debug := if_pos rfl
    have hforbidden : (Perspectives.only .debug).intersects [.developer, .operator] = false := by
      decide
    rw [honly, applyRules]
    simp [volumeRules, Rule.check, Rule.applies, objectIf, hforbidden, hpath, hkey]
  rw [hsilent, List.sublist_nil]
  have hsame : volumePerspectives ps = ps := if_neg (by rw [hdebug]; exact Bool.false_ne_true)
  have hholds : ps.intersects [.developer, .operator] = true := by
    simpa [Perspectives.intersects, Perspectives.contains] using hheld
  rw [hsame, applyRules, volumeRules, List.filterMap_cons]
  simp [Rule.check, Rule.applies, hholds, hpath]

/-! ## Specs -/

theorem checkParameter_sublist (h : ps ⊆ qs) (key : String) (p : Spec.Parameter) :
    (checkParameter ps key p).Sublist (checkParameter qs key p) := by
  cases p with
  | definition d => exact applyRules_sublist h parameterRules _ d
  | value v => exact .slnil

/-- With more perspectives no problem of a spec is hidden, nor any of a resource, its
volumes or its debug block, as long as debugging is not one of those that are added. -/
theorem validate_sublist (h : ps ⊆ qs) (hdebug : ps.debug = qs.debug) (c : Spec.Component) :
    (validate ps c).Sublist (validate qs c)
      ∧ (∀ path service, (checkResource checkService ps path service).Sublist
          (checkResource checkService qs path service))
      ∧ (∀ path task, (checkResource checkTask ps path task).Sublist
          (checkResource checkTask qs path task))
      ∧ ∀ path volume, (applyRules volumeRules (volumePerspectives ps) path volume).Sublist
          (applyRules volumeRules (volumePerspectives qs) path volume) := by
  refine ⟨?_, checkResource_sublist h hdebug monotone_checkService,
    checkResource_sublist h hdebug monotone_checkTask,
    applyRules_sublist (volumePerspectives_mono h hdebug) volumeRules⟩
  unfold validate
  refine ((((((applyRules_sublist h componentRules "" c).append ?parameters).append
    ?dependencies).append ?services).append ?tasks).append (.refl _)).append (.refl _)
  case parameters =>
    exact List.Sublist.flatMap_right _ fun entry _ => checkParameter_sublist h entry.1 entry.2
  case dependencies =>
    exact List.Sublist.flatMap_right _ fun entry _ =>
      applyRules_sublist h dependencyRules _ entry.2
  case services => exact checkResources_sublist h hdebug monotone_checkService _ c.services
  case tasks => exact checkResources_sublist h hdebug monotone_checkTask _ c.tasks

/-- A developer objects to the name and to the replicas as well, and still to the host path
of the volume and to its absence in the debug block. -/
theorem validate_sublist_shop :
    let debug : Spec.Service :=
      { body := { volumes := .ofList [("cache", .definition {})], extension := {} }, debug := none }
    let api : Spec.Service :=
      { body := { volumes := .ofList [("data", .hostPath "./data")],
                  extension := { replicas := some (.int 2) } },
        debug := some debug }
    let shop : Spec.Component := { name := "shop", services := .ofList [("api", api)] }
    Perspectives.only .operator ⊆ (Perspectives.only .operator).insert .developer
      ∧ (Perspectives.only .operator).debug
        = ((Perspectives.only .operator).insert .developer).debug
      ∧ (validate (.only .operator) shop).Sublist
        (validate ((Perspectives.only .operator).insert .developer) shop) := by
  intro debug api shop
  have hmore : Perspectives.only .operator ⊆ (Perspectives.only .operator).insert .developer := by
    intro p hp
    rw [Perspectives.contains_insert, hp, Bool.or_true]
  exact ⟨hmore, rfl, (validate_sublist hmore rfl shop).1⟩

end Validation

end Manifest
