import Manifest.Compiler
import Manifest.Proofs.Outcome
/-!
# What a compiled config comes from

A document is compiled in two steps, and each fails if it finds a problem. So
a config that was compiled is the outline of a spec in which neither the check
of its shape nor the rules found any.
-/

namespace Manifest.Compiler

variable {s : Settings} {ps : Perspectives} {d : SourceDocument} {spec : Spec.Component}
  {c : Config.Component}

theorem annotate_eq_nil {source : String} {ds : List Diagnostic}
    (h : SourceMap.annotate source ds = []) : ds = [] :=
  List.map_eq_nil_iff.mp h

/-- A spec is read only from a document without problems. -/
theorem parseSpec_ok (h : parseSpec ps d = .ok spec) :
    Schema.check d.value = [] ∧ Validation.validate ps spec = [] := by
  unfold parseSpec at h
  dsimp only at h
  split at h
  · obtain ⟨hannotated, rfl⟩ := eq_of_unlessInvalid h
    exact List.append_eq_nil_iff.mp (annotate_eq_nil hannotated)
  · split at h <;> cases h

/-- A malformed document has a shape that is right, and cannot be read. -/
theorem parseSpec_malformed (h : parseSpec ps d = .error .malformedDocument) :
    Schema.check d.value = [] ∧ Spec.Reader.component? d.value = none := by
  unfold parseSpec at h
  dsimp only at h
  split at h
  · unfold unlessInvalid at h
    split at h <;> cases h
  · rename_i hnone
    split at h
    · rename_i hempty
      exact ⟨List.isEmpty_iff.mp hempty, hnone⟩
    · cases h

/-- The outline leaves nothing out, since there are no problems. -/
theorem exists_normalized (h : compileDocument s ps d = .ok c) : ∃ spec,
    parseSpec ps d = .ok spec ∧ Normalization.problems s.delimiters spec = []
      ∧ Normalization.outline s.delimiters spec = c := by
  obtain ⟨spec, hspec, hconfig⟩ := ok_of_bind_eq_ok h
  cases hcomponent : Normalization.component s.delimiters spec with
  | error f => rw [hcomponent] at hconfig; cases hconfig
  | ok config =>
      rw [hcomponent] at hconfig
      obtain rfl := Except.ok.inj hconfig
      obtain ⟨hnone, houtline⟩ := eq_of_unlessInvalid hcomponent
      exact ⟨spec, hspec, hnone, houtline⟩

theorem exists_outline (h : compileDocument s ps d = .ok c) : ∃ spec,
    parseSpec ps d = .ok spec ∧ Normalization.outline s.delimiters spec = c := by
  obtain ⟨spec, hspec, -, houtline⟩ := exists_normalized h
  exact ⟨spec, hspec, houtline⟩

end Manifest.Compiler
