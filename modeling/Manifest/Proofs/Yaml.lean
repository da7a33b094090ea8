import Manifest.Spec.Reader
import Mathlib.Data.List.Nodup
/-!
# Plain values

A mapping holds each key once: that is so of every value that is read, and
everything below rests on it. A value is plain if, besides, every key in it is
a string and nothing in it has a tag. A mapping in a plain value is a list of
fields with names of their own, and the fields are plain again.
-/

namespace Manifest.Yaml

open Spec.Reader (tagFree tagFreeItems tagFreeEntries)

mutual

/-- Does no mapping in the value hold a key twice? -/
def keysDistinct : Yaml → Bool
  | .sequence items => keysDistinctItems items
  | .mapping entries =>
    decide ((entries.map Prod.fst).Pairwise fun a b => same b a = false)
      && keysDistinctEntries entries
  | .tagged _ value => keysDistinct value
  | _ => true

def keysDistinctItems : List Yaml → Bool
  | [] => true
  | item :: rest => keysDistinct item && keysDistinctItems rest

def keysDistinctEntries : Entries → Bool
  | [] => true
  | (k, v) :: rest => keysDistinct k && keysDistinct v && keysDistinctEntries rest

end

mutual

/-- Is every key of every mapping in the value a string? -/
def stringKeyed : Yaml → Bool
  | .sequence items => stringKeyedItems items
  | .mapping entries => stringKeyedEntries entries
  | .tagged _ value => stringKeyed value
  | _ => true

def stringKeyedItems : List Yaml → Bool
  | [] => true
  | item :: rest => stringKeyed item && stringKeyedItems rest

def stringKeyedEntries : Entries → Bool
  | [] => true
  | (.string _, v) :: rest => stringKeyed v && stringKeyedEntries rest
  | _ => false

end

structure Plain (value : Yaml) : Prop where
  keysDistinct : value.keysDistinct
  stringKeyed : value.stringKeyed
  tagFree : tagFree value

/-! ## Lists of parts -/

theorem keysDistinctItems_iff {items : List Yaml} :
    keysDistinctItems items ↔ ∀ item ∈ items, item.keysDistinct := by
  induction items with
  | nil => simp [keysDistinctItems]
  | cons item items ih => simp [keysDistinctItems, ih]

theorem keysDistinctEntries_iff {entries : Entries} :
    keysDistinctEntries entries ↔ ∀ e ∈ entries, e.1.keysDistinct ∧ e.2.keysDistinct := by
  induction entries with
  | nil => simp [keysDistinctEntries]
  | cons e entries ih => simp [keysDistinctEntries, ih]

theorem keysDistinct_mapping {entries : Entries} :
    (Yaml.mapping entries).keysDistinct ↔
      (entries.map Prod.fst).Pairwise (fun a b => same b a = false) ∧
        ∀ e ∈ entries, e.1.keysDistinct ∧ e.2.keysDistinct := by
  rw [keysDistinct, Bool.and_eq_true, decide_eq_true_iff, keysDistinctEntries_iff]

/-- A new key keeps the keys of a mapping distinct. -/
theorem keysDistinct_append {entries : Entries} {k v : Yaml}
    (hentries : (Yaml.mapping entries).keysDistinct)
    (hnew : ∀ e ∈ entries, same k e.1 = false) (hk : k.keysDistinct) (hv : v.keysDistinct) :
    (Yaml.mapping (entries ++ [(k, v)])).keysDistinct := by
  obtain ⟨hkeys, hparts⟩ := keysDistinct_mapping.mp hentries
  refine keysDistinct_mapping.mpr ⟨?_, ?_⟩
  · rw [List.map_append, List.pairwise_append]
    refine ⟨hkeys, List.pairwise_singleton .., fun a ha b hb => ?_⟩
    obtain rfl : b = k := by simpa using hb
    obtain ⟨e, he, rfl⟩ := List.mem_map.mp ha
    exact hnew e he
  · intro e he
    rcases List.mem_append.mp he with he | he
    · exact hparts e he
    · obtain rfl : e = (k, v) := by simpa using he
      exact ⟨hk, hv⟩

/-! ## Plain values -/

theorem Plain.untagged {value : Yaml} (h : value.Plain) : value.untagged = value := by
  cases value with
  | tagged tag value => cases h.tagFree
  | null | bool | int | float | string | sequence | mapping => rfl

theorem Plain.eq_null {value : Yaml} (h : value.Plain) (hnull : value.isNull) :
    value = .null := by
  unfold isNull at hnull
  rw [h.untagged] at hnull
  cases value with
  | null => rfl
  | bool | int | float | string | sequence | mapping | tagged => cases hnull

/-! ## Fields -/

/-- The entries of a mapping with these fields. -/
def entriesOf (fields : List (String × Yaml)) : Entries :=
  fields.map fun (name, value) => (.string name, value)

theorem exists_entriesOf : ∀ {entries : Entries}, stringKeyedEntries entries →
    tagFreeEntries entries → ∃ fields, entries = entriesOf fields ∧
      ∀ field ∈ fields, field.2.stringKeyed ∧ tagFree field.2
  | [], _, _ => ⟨[], rfl, fun _ hfield => by cases hfield⟩
  | (.string name, value) :: rest, hkeyed, htags => by
      simp only [stringKeyedEntries, tagFreeEntries, Bool.and_eq_true] at hkeyed htags
      obtain ⟨fields, rfl, hfields⟩ := exists_entriesOf hkeyed.2 htags.2
      refine ⟨(name, value) :: fields, rfl, fun field hmem => ?_⟩
      rcases List.mem_cons.mp hmem with rfl | hmem
      · exact ⟨hkeyed.1, htags.1.2⟩
      · exact hfields field hmem

theorem nodup_names {fields : List (String × Yaml)}
    (h : ((entriesOf fields).map Prod.fst).Pairwise fun a b => same b a = false) :
    (fields.map Prod.fst).Nodup := by
  rw [entriesOf, List.pairwise_map, List.pairwise_map] at h
  rw [List.nodup_iff_pairwise_ne, List.pairwise_map]
  exact h.imp fun hne heq => by simp [same, heq] at hne

/-- A mapping in a plain value is made of plain fields, each with a name of
its own. -/
theorem Plain.exists_fields {entries : Entries} (h : (Yaml.mapping entries).Plain) :
    ∃ fields, entries = entriesOf fields ∧ (fields.map Prod.fst).Nodup ∧
      ∀ field ∈ fields, field.2.Plain := by
  obtain ⟨hkeys, hparts⟩ := keysDistinct_mapping.mp h.keysDistinct
  obtain ⟨fields, rfl, hfields⟩ := exists_entriesOf h.stringKeyed h.tagFree
  refine ⟨fields, rfl, nodup_names hkeys, fun field hmem => ?_⟩
  have hentry : (Yaml.string field.1, field.2) ∈ entriesOf fields := List.mem_map_of_mem hmem
  exact ⟨(hparts _ hentry).2, (hfields field hmem).1, (hfields field hmem).2⟩

theorem entry?_entriesOf (name : String) (fields : List (String × Yaml)) :
    entry? name (entriesOf fields) = fields.lookup name := by
  induction fields with
  | nil => rfl
  | cons field fields ih =>
      obtain ⟨k, value⟩ := field
      rw [entriesOf, List.map_cons, ← entriesOf, entry?, ih, List.lookup_cons]
      by_cases hk : k = name
      · simp [hk]
      · simp [hk, beq_eq_false_iff_ne.mpr (Ne.symm hk)]

end Manifest.Yaml
