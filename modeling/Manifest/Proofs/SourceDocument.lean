import Manifest.CommandLine
import Manifest.Proofs.Outcome
import Manifest.Proofs.Yaml.Reader
/-!
# Documents hold each key once

Replacing references to files changes strings below the keys and no key, and
a tag is added to a layer only where there is none. So no mapping in a
document holds a key twice, however the document came about.
-/

namespace Manifest.SourceDocument

variable {files : Files} {base : String}

/-- The values at this key are left as they are. -/
def isExtends (k : Yaml) : Bool := k.asString? = some "extends"

theorem isExtends_iff {k : Yaml} : k.asString?.getD "" = "extends" ↔ isExtends k = true := by
  rw [isExtends, decide_eq_true_iff]
  cases k.asString? with
  | none => simp
  | some key => simp

/-- An entry keeps its key, and its value is kept or replaced in turn. -/
theorem ok_of_substituteEntries_cons {path : String} {k v : Yaml} {rest given : Yaml.Entries}
    {ds : List Diagnostic}
    (h : substituteEntries files base path ((k, v) :: rest) = .ok (given, ds)) :
    ∃ v' here rest' later, given = (k, v') :: rest' ∧ ds = here ++ later
      ∧ substituteEntries files base path rest = .ok (rest', later)
      ∧ if isExtends k then v' = v ∧ here = []
        else substitute files base (PropertyPath.join path (k.asString?.getD "")) v
          = .ok (v', here) := by
  rw [substituteEntries] at h
  dsimp only at h
  by_cases hkey : k.asString?.getD "" = "extends"
  · rw [if_pos hkey] at h
    obtain ⟨⟨v', here⟩, hvalue, h⟩ := ok_of_bind_eq_ok h
    obtain ⟨⟨rest', later⟩, hrest, hpair⟩ := ok_of_bind_eq_ok h
    cases hvalue
    cases hpair
    refine ⟨v, [], rest', later, rfl, rfl, hrest, ?_⟩
    rw [if_pos (isExtends_iff.mp hkey)]
    exact ⟨rfl, rfl⟩
  · rw [if_neg hkey] at h
    obtain ⟨⟨v', here⟩, hvalue, h⟩ := ok_of_bind_eq_ok h
    obtain ⟨⟨rest', later⟩, hrest, hpair⟩ := ok_of_bind_eq_ok h
    cases hpair
    refine ⟨v', here, rest', later, rfl, rfl, hrest, ?_⟩
    rw [if_neg (mt isExtends_iff.mpr hkey)]
    exact hvalue

mutual

theorem keysDistinct_substitute : ∀ {path : String} {value given : Yaml} {ds : List Diagnostic},
    substitute files base path value = .ok (given, ds) → value.keysDistinct → given.keysDistinct
  | path, .string text, given, ds, h, _ => by
      rw [substitute] at h
      obtain ⟨⟨text, problems⟩, -, hpair⟩ := ok_of_bind_eq_ok h
      cases hpair
      rfl
  | path, .mapping entries, given, ds, h, hvalue => by
      rw [substitute] at h
      obtain ⟨⟨entries', problems⟩, hentries, hpair⟩ := ok_of_bind_eq_ok h
      obtain ⟨hkeys, hparts⟩ := keysDistinct_substituteEntries hentries
      cases hpair
      rw [Yaml.keysDistinct, Bool.and_eq_true] at hvalue ⊢
      rw [hkeys]
      exact ⟨hvalue.1, hparts hvalue.2⟩
  | path, .sequence items, given, ds, h, hvalue => by
      rw [substitute] at h
      obtain ⟨⟨items', problems⟩, hitems, hpair⟩ := ok_of_bind_eq_ok h
      cases hpair
      exact keysDistinct_substituteItems hitems hvalue
  | path, .tagged tag value, given, ds, h, hvalue => by
      rw [substitute] at h
      obtain ⟨⟨inner, problems⟩, hinner, hpair⟩ := ok_of_bind_eq_ok h
      cases hpair
      have hinside : inner.keysDistinct := keysDistinct_substitute hinner hvalue
      exact hinside
  | path, .null, given, ds, h, _ => by cases h; rfl
  | path, .bool _, given, ds, h, _ => by cases h; rfl
  | path, .int _, given, ds, h, _ => by cases h; rfl
  | path, .float _, given, ds, h, _ => by cases h; rfl

theorem keysDistinct_substituteEntries : ∀ {path : String} {entries given : Yaml.Entries}
    {ds : List Diagnostic}, substituteEntries files base path entries = .ok (given, ds) →
      given.map Prod.fst = entries.map Prod.fst ∧
        (Yaml.keysDistinctEntries entries → Yaml.keysDistinctEntries given)
  | path, [], given, ds, h => by
      cases h
      exact ⟨rfl, id⟩
  | path, (k, v) :: rest, given, ds, h => by
      obtain ⟨v', here, rest', later, rfl, -, hrest, hv⟩ := ok_of_substituteEntries_cons h
      obtain ⟨hkeys, hrest⟩ := keysDistinct_substituteEntries hrest
      refine ⟨congrArg (k :: ·) hkeys, fun hentries => ?_⟩
      simp only [Yaml.keysDistinctEntries, Bool.and_eq_true] at hentries ⊢
      refine ⟨⟨hentries.1.1, ?_⟩, hrest hentries.2⟩
      split at hv
      · obtain ⟨rfl, -⟩ := hv
        exact hentries.1.2
      · exact keysDistinct_substitute hv hentries.1.2

theorem keysDistinct_substituteItems : ∀ {path : String} {index : Nat} {items given : List Yaml}
    {ds : List Diagnostic}, substituteItems files base path index items = .ok (given, ds) →
      Yaml.keysDistinctItems items → Yaml.keysDistinctItems given
  | path, index, [], given, ds, h, _ => by
      cases h
      rfl
  | path, index, item :: rest, given, ds, h, hitems => by
      rw [substituteItems] at h
      obtain ⟨⟨item', here⟩, hitem, h⟩ := ok_of_bind_eq_ok h
      obtain ⟨⟨rest', later⟩, hrest, hpair⟩ := ok_of_bind_eq_ok h
      cases hpair
      simp only [Yaml.keysDistinctItems, Bool.and_eq_true] at hitems ⊢
      exact ⟨keysDistinct_substitute hitem hitems.1, keysDistinct_substituteItems hrest hitems.2⟩

end

/-! ## Documents -/

/-- A document that was read from a text or from a file, and may have got a
tag since. -/
inductive Obtained : SourceDocument → Prop where
  | parse {source : String} {d : SourceDocument} (h : parse source = .ok d) : Obtained d
  | parseAt {files : Files} {source path : String} {d : SourceDocument}
    (h : parseAt files source path = .ok d) : Obtained d
  | withTag {d : SourceDocument} (tag : String) (h : Obtained d) :
    Obtained (CommandLine.withTag tag d)

theorem keysDistinct_of_parseValue {source : String} {value : Yaml}
    (h : parseValue source = .ok value) : value.keysDistinct := by
  unfold parseValue at h
  split at h
  · rename_i hread
    cases h
    exact Yaml.keysDistinct_of_read? hread
  · cases h

theorem keysDistinct_of_parse {source : String} {d : SourceDocument} (h : parse source = .ok d) :
    d.value.keysDistinct := by
  obtain ⟨value, hvalue, hd⟩ := ok_of_bind_eq_ok h
  cases hd
  exact keysDistinct_of_parseValue hvalue

theorem keysDistinct_of_parseAt {source path : String} {d : SourceDocument}
    (h : parseAt files source path = .ok d) : d.value.keysDistinct := by
  obtain ⟨value, hvalue, h⟩ := ok_of_bind_eq_ok h
  obtain ⟨⟨value', problems⟩, hsubstitute, h⟩ := ok_of_bind_eq_ok h
  obtain ⟨-, rfl⟩ := eq_of_unlessInvalid h
  exact keysDistinct_substitute hsubstitute (keysDistinct_of_parseValue hvalue)

theorem same_string_eq_false {name : String} : ∀ {entries : Yaml.Entries},
    Yaml.entry? name entries = none → ∀ e ∈ entries, Yaml.same (.string name) e.1 = false
  | (k, v) :: rest, h, e, he => by
      rcases List.mem_cons.mp he with rfl | he
      · cases k with
        | string key =>
            rw [Yaml.entry?] at h
            split at h
            · cases h
            · rename_i hne
              exact decide_eq_false (Ne.symm hne)
        | null | bool | int | float | sequence | mapping | tagged => rfl
      · refine same_string_eq_false ?_ e he
        cases k with
        | string key =>
            rw [Yaml.entry?] at h
            split at h
            · cases h
            · exact h
        | null | bool | int | float | sequence | mapping | tagged => exact h

theorem keysDistinct_withTag {d : SourceDocument} (tag : String) (h : d.value.keysDistinct) :
    (CommandLine.withTag tag d).value.keysDistinct := by
  unfold CommandLine.withTag
  split
  · rename_i entries hvalue
    split
    · exact h
    · rename_i hsome
      have hnone : Yaml.entry? "tag" entries = none := Option.not_isSome_iff_eq_none.mp hsome
      rw [hvalue] at h
      exact Yaml.keysDistinct_append h (same_string_eq_false hnone) rfl rfl
  · exact h

theorem Obtained.keysDistinct {d : SourceDocument} (h : Obtained d) : d.value.keysDistinct := by
  induction h with
  | parse h => exact keysDistinct_of_parse h
  | parseAt h => exact keysDistinct_of_parseAt h
  | withTag tag _ ih => exact keysDistinct_withTag tag ih

end Manifest.SourceDocument
