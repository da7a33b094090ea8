import Manifest.Schema.Check
import Manifest.Proofs.Yaml
/-!
# What a checked value looks like

A value with which the check finds nothing wrong has the form that its shape
names, down to its fields: a list holds what the shape says, an object is a
mapping whose fields are all in its table, and each of them fills its place
there.
-/

namespace Manifest.Schema

open Yaml (entriesOf)

/-- The check finds nothing wrong with the value, wherever it stands. -/
def Accepts (shape : Shape) (value : Yaml) : Prop := ∃ path, checkShape path shape value = []

/-- The value may stand in a place of this shape, null only if it is
nullable. -/
def Fills (shape : Shape) (nullable : Bool) (value : Yaml) : Prop :=
  if value.isNull then nullable = true else Accepts shape value

/-- Plain fields of an object, each of which fills its place in the table. -/
structure Fitting (o : ObjectName) (fields : List (String × Yaml)) : Prop where
  names : (fields.map Prod.fst).Nodup
  plain : ∀ e ∈ fields, e.2.Plain
  fills : ∀ e ∈ fields, ∃ f, field? o e.1 = some f ∧
    Fills f.shape (f.required || f.shape.acceptsNull) e.2

theorem Fills.of_check {shape : Shape} {nullable : Bool} {path : String} {value : Yaml}
    (h : (if value.isNull then if nullable then [] else wrongType path shape
      else checkShape path shape value) = []) : Fills shape nullable value := by
  unfold Fills
  split at h
  · rename_i hnull
    rw [if_pos hnull]
    split at h
    · assumption
    · cases h
  · rename_i hnull
    rw [if_neg hnull]
    exact ⟨path, h⟩

theorem mem_fieldsOf {o : ObjectName} {name : String} {f : Field} (h : field? o name = some f) :
    f ∈ fieldsOf o ∧ f.name = name :=
  ⟨List.mem_of_find?_eq_some h, by simpa using List.find?_some h⟩

theorem Fitting.of_lookup {o : ObjectName} {fs : List (String × Yaml)}
    {name : String} {f : Field} {value : Yaml} (hfs : Fitting o fs)
    (hf : field? o name = some f) (h : fs.lookup name = some value) :
    value.Plain ∧ Fills f.shape (f.required || f.shape.acceptsNull) value := by
  obtain ⟨before, after, rfl, -⟩ := List.lookup_eq_some_iff.mp h
  have hmem : (name, value) ∈ before ++ (name, value) :: after := by simp
  obtain ⟨found, hfound, hfills⟩ := hfs.fills _ hmem
  obtain rfl : found = f := Option.some.inj (hfound.symm.trans hf)
  exact ⟨hfs.plain _ hmem, hfills⟩

theorem Fitting.filter {o : ObjectName} {fs : List (String × Yaml)} (hfs : Fitting o fs)
    (p : String × Yaml → Bool) :
    Fitting o (fs.filter p) where
  names := hfs.names.sublist (List.filter_sublist.map Prod.fst)
  plain := fun e he => hfs.plain e (List.mem_of_mem_filter he)
  fills := fun e he => hfs.fills e (List.mem_of_mem_filter he)

/-! ## What the check of each form says -/

section Forms

variable (path : String) (o : ObjectName) (entries : Yaml.Entries)

theorem checkShape_text (value : Yaml) :
    checkShape path .text value = if value.isString then [] else wrongType path .text := by
  cases value <;> rfl

theorem checkShape_scalar (value : Yaml) :
    checkShape path .scalar value = if value.isScalar then [] else wrongType path .scalar := by
  cases value <;> rfl

theorem checkShape_object : checkShape path (.object o) (.mapping entries)
    = checkFields path o entries ++ missingFields o path entries := rfl

/-- The fields of an object with a key that is a string. -/
theorem checkFields_cons (key : String) (value : Yaml) :
    checkFields path o ((.string key, value) :: entries)
      = (match field? o key with
        | none => [unknownKey o (PropertyPath.join path key) key]
        | some f =>
          if value.isNull then
            if f.required || f.shape.acceptsNull then []
            else wrongType (PropertyPath.join path key) f.shape
          else checkShape (PropertyPath.join path key) f.shape value)
        ++ checkFields path o entries := rfl

theorem checkEntries_cons (keys : KeyGrammar) (values : Shape) (nullable : Bool) (key : String)
    (value : Yaml) :
    checkEntries path keys values nullable ((.string key, value) :: entries)
      = badKey keys (PropertyPath.join path key) key
        ++ (if value.isNull then
            if nullable then [] else wrongType (PropertyPath.join path key) values
          else checkShape (PropertyPath.join path key) values value)
        ++ checkEntries path keys values nullable entries := rfl

end Forms

/-- Where a problem is found unless a condition holds, no problem is the
condition. -/
theorem of_unless {p : Prop} [Decidable p] {ds : List Diagnostic}
    (h : (if p then [] else ds) = []) (hds : ds ≠ []) : p := by
  split at h
  · assumption
  · exact absurd h hds

theorem wrongType_ne_nil (path : String) (shape : Shape) : wrongType path shape ≠ [] :=
  List.cons_ne_nil _ _

/-! ## Scalars and lists -/

theorem Accepts.isString {value : Yaml} (h : Accepts .text value) : value.isString := by
  obtain ⟨path, h⟩ := h
  rw [checkShape_text] at h
  exact of_unless h (wrongType_ne_nil path .text)

theorem Accepts.isScalar {value : Yaml} (h : Accepts .scalar value) : value.isScalar := by
  obtain ⟨path, h⟩ := h
  rw [checkShape_scalar] at h
  exact of_unless h (wrongType_ne_nil path .scalar)

theorem Accepts.of_isString {value : Yaml} (h : value.isString) : Accepts .text value := by
  refine ⟨"", ?_⟩
  rw [checkShape_text, if_pos h]

theorem Accepts.of_isScalar {value : Yaml} (h : value.isScalar) : Accepts .scalar value := by
  refine ⟨"", ?_⟩
  rw [checkShape_scalar, if_pos h]

theorem all_of_badItems {path : String} {ok : Yaml → Bool} {items : List Yaml}
    (h : badItems path ok items = []) : ∀ item ∈ items, ok item := by
  intro item hitem
  obtain ⟨index, hindex⟩ := List.mem_iff_getElem?.mp hitem
  have hmem : (item, index) ∈ items.zipIdx := List.mk_mem_zipIdx_iff_getElem?.mpr hindex
  have hbad := List.filter_eq_nil_iff.mp (List.map_eq_nil_iff.mp h) (item, index) hmem
  simpa using hbad

theorem Accepts.textList {value : Yaml} (h : Accepts .textList value) :
    ∃ items, value = .sequence items ∧ ∀ item ∈ items, item.isString := by
  obtain ⟨path, h⟩ := h
  cases value with
  | sequence items =>
      have hitems : badItems path Yaml.isString items = [] := h
      exact ⟨items, rfl, all_of_badItems hitems⟩
  | null | bool | int | float | string | mapping | tagged => cases h

theorem Accepts.command {value : Yaml} (h : Accepts .command value) :
    value.isString ∨ ∃ items, value = .sequence items ∧ ∀ item ∈ items, item.isScalar := by
  obtain ⟨path, h⟩ := h
  cases value with
  | sequence items =>
      have hitems : badItems path Yaml.isScalar items = [] := h
      exact Or.inr ⟨items, rfl, all_of_badItems hitems⟩
  | null | bool | int | float | string | mapping | tagged =>
      exact Or.inl (of_unless h (wrongType_ne_nil path .command))

/-! ## Objects -/

theorem Accepts.textOr {o : ObjectName} {value : Yaml} (h : Accepts (.textOr o) value) :
    value.isString ∨ Accepts (.object o) value := by
  obtain ⟨path, h⟩ := h
  cases value with
  | mapping entries => exact Or.inr ⟨path, h⟩
  | string => exact Or.inl rfl
  | tagged => exact Or.inl (of_unless h (List.cons_ne_nil _ _))
  | null | bool | int | float | sequence => cases h

theorem Accepts.scalarOr {o : ObjectName} {value : Yaml} (h : Accepts (.scalarOr o) value) :
    value.isScalar ∨ Accepts (.object o) value := by
  obtain ⟨path, h⟩ := h
  cases value with
  | mapping entries => exact Or.inr ⟨path, h⟩
  | bool | int | float | string => exact Or.inl rfl
  | null | sequence | tagged => cases h

theorem fills_of_checkFields {o : ObjectName} {path : String} : ∀ {fields : List (String × Yaml)},
    checkFields path o (entriesOf fields) = [] → ∀ e ∈ fields, ∃ f, field? o e.1 = some f ∧
      Fills f.shape (f.required || f.shape.acceptsNull) e.2
  | (key, value) :: rest, h, e, he => by
      rw [entriesOf, List.map_cons, ← entriesOf, checkFields_cons, List.append_eq_nil_iff] at h
      obtain ⟨hfirst, hrest⟩ := h
      rcases List.mem_cons.mp he with rfl | he
      · split at hfirst
        · cases hfirst
        · rename_i f hf
          exact ⟨f, hf, .of_check hfirst⟩
      · exact fills_of_checkFields hrest e he

/-- The fields of an object that passed the check; no required one is missing. -/
theorem Accepts.object {o : ObjectName} {value : Yaml} (hplain : value.Plain)
    (h : Accepts (.object o) value) : ∃ fields, value = .mapping (entriesOf fields) ∧
      Fitting o fields ∧ ∀ f ∈ fieldsOf o, f.required →
        ∃ v, fields.lookup f.name = some v ∧ v.isNull = false := by
  obtain ⟨path, h⟩ := h
  cases value with
  | mapping entries =>
      obtain ⟨fields, rfl, hnames, hparts⟩ := hplain.exists_fields
      rw [checkShape_object, List.append_eq_nil_iff] at h
      obtain ⟨hchecked, hmissing⟩ := h
      refine ⟨fields, rfl, ⟨hnames, hparts, fills_of_checkFields hchecked⟩, fun f hf hreq => ?_⟩
      have hthere := List.filter_eq_nil_iff.mp (List.map_eq_nil_iff.mp hmissing) f hf
      rw [Yaml.entry?_entriesOf] at hthere
      cases hlookup : fields.lookup f.name with
      | none => simp [hlookup, hreq] at hthere
      | some v => exact ⟨v, rfl, by simpa [hlookup, hreq] using hthere⟩
  | null | bool | int | float | string | sequence | tagged => cases h

/-! ## Dictionaries -/

theorem fills_of_checkEntries {keys : KeyGrammar} {values : Shape} {nullable : Bool}
    {path : String} : ∀ {fields : List (String × Yaml)},
      checkEntries path keys values nullable (entriesOf fields) = [] →
        ∀ e ∈ fields, Fills values nullable e.2
  | (key, value) :: rest, h, e, he => by
      rw [entriesOf, List.map_cons, ← entriesOf, checkEntries_cons, List.append_eq_nil_iff] at h
      obtain ⟨hfirst, hrest⟩ := h
      rcases List.mem_cons.mp he with rfl | he
      · obtain ⟨-, hvalue⟩ := List.append_eq_nil_iff.mp hfirst
        exact .of_check hvalue
      · exact fills_of_checkEntries hrest e he

theorem Accepts.dict {keys : KeyGrammar} {values : Shape} {nullable : Bool} {value : Yaml}
    (hplain : value.Plain) (h : Accepts (.dict keys values nullable) value) :
    ∃ fields, value = .mapping (entriesOf fields) ∧
      ∀ e ∈ fields, e.2.Plain ∧ Fills values nullable e.2 := by
  obtain ⟨path, h⟩ := h
  cases value with
  | mapping entries =>
      obtain ⟨fields, rfl, -, hparts⟩ := hplain.exists_fields
      have hentries : checkEntries path keys values nullable (entriesOf fields) = [] := h
      exact ⟨fields, rfl, fun e he => ⟨hparts e he, fills_of_checkEntries hentries e he⟩⟩
  | null | bool | int | float | string | sequence | tagged => cases h

end Manifest.Schema
