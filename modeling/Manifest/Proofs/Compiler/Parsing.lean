import Manifest.Proofs.Compiler
import Manifest.Proofs.Spec.Reader
import Manifest.Proofs.SourceDocument
/-!
# A document that passes the check can be read

The tables that a document is checked with and the readers of a spec are
written apart from each other. On values with string keys and without tags
they agree: nothing that the check lets through is malformed for a reader. So
it takes a tag or another key for a document to be malformed and not invalid.
-/

namespace Manifest.Compiler

open Spec.Reader (tagFree)

/-- Whatever plain value passes the check can be read, so a document that is
malformed has a tag or a key that is no string. That each key stands once in
its mapping is part of what a mapping is, and holds of every document that is
read. -/
theorem readable_of_checked :
    (∀ value : Yaml, value.keysDistinct → value.stringKeyed → tagFree value →
      Schema.check value = [] → ∃ spec, Spec.Reader.component? value = some spec)
      ∧ (∀ (ps : Perspectives) (d : SourceDocument), d.value.keysDistinct →
        parseSpec ps d = .error .malformedDocument →
          d.value.stringKeyed = false ∨ tagFree d.value = false)
      ∧ ∀ d : SourceDocument, d.Obtained → d.value.keysDistinct := by
  have hreadable : ∀ value : Yaml, value.keysDistinct → value.stringKeyed → tagFree value →
      Schema.check value = [] → ∃ spec, Spec.Reader.component? value = some spec := by
    intro value hdistinct hkeyed hfree hcheck
    have hplain : value.Plain := ⟨hdistinct, hkeyed, hfree⟩
    exact Option.isSome_iff_exists.mp (Spec.Reader.isSome_component? hplain hcheck)
  refine ⟨hreadable, ?_, ?_⟩
  · intro ps d hdistinct hmalformed
    obtain ⟨hcheck, hnone⟩ := parseSpec_malformed hmalformed
    by_cases hkeyed : d.value.stringKeyed
    · by_cases hfree : tagFree d.value
      · obtain ⟨spec, hspec⟩ := hreadable d.value hdistinct hkeyed hfree hcheck
        rw [hnone] at hspec
        cases hspec
      · exact Or.inr (Bool.eq_false_iff.mpr hfree)
    · exact Or.inl (Bool.eq_false_iff.mpr hkeyed)
  · intro d hobtained
    exact hobtained.keysDistinct

/-! ## A tag where only the reader minds it -/

def sweepValue (schedule : Yaml) : Yaml :=
  .mapping
    [(.string "name", .string "a/b"),
      (.string "tasks", .mapping
        [(.string "sweep", .mapping
          [(.string "schedule", schedule),
            (.string "debug", .mapping
              [(.string "environment", .mapping [(.string "DRY_RUN", .null)])])])])]

/-- The check looks through the tag of the schedule and the reader does not. -/
def taggedSweep : SourceDocument where
  source := "name: a/b\n"
  value := sweepValue (.tagged "cron" (.string "@daily"))

theorem parse_name : SourceDocument.parse "name: a/b\n"
    = .ok ⟨none, "name: a/b\n", .mapping [(.string "name", .string "a/b")]⟩ := by decide +kernel

theorem readable_sweep :
    (∃ spec, Spec.Reader.component? (sweepValue (.string "@daily")) = some spec)
      ∧ (taggedSweep.value.stringKeyed = false ∨ tagFree taggedSweep.value = false)
      ∧ (Yaml.mapping [(.string "name", .string "a/b")]).keysDistinct := by
  have hchecked : Schema.check (sweepValue (.string "@daily")) = [] := rfl
  have hdistinct : (sweepValue (.string "@daily")).keysDistinct := by decide
  have hkeyed : (sweepValue (.string "@daily")).stringKeyed := by decide
  have hfree : tagFree (sweepValue (.string "@daily")) := by decide
  have htagged : taggedSweep.value.keysDistinct := by decide
  have hmalformed : parseSpec {} taggedSweep = .error .malformedDocument := rfl
  obtain ⟨hvalues, hdocuments, hobtained⟩ := readable_of_checked
  exact ⟨hvalues _ hdistinct hkeyed hfree hchecked,
    hdocuments {} taggedSweep htagged hmalformed, hobtained _ (.parse parse_name)⟩

end Manifest.Compiler
