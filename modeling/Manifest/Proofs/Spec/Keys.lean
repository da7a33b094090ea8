import Manifest.Proofs.Compiler
import Manifest.Proofs.Dict
import Manifest.Proofs.Schema.Check
/-!
# Keys of checked documents

A document of which the check and a reader both approve has plain keys, also
where its values have tags: the check lets no key with a tag pass, and to a
reader a key is a string. So the root of the document is a list of named
fields, and the keys of its dictionaries keep to their grammars: those of
services, of tasks and of a service's interfaces are names, and those of an
environment are names of variables (`Filled.accepts_keys`).
-/

namespace Manifest

/-! ## Dictionaries of entries -/

namespace Dict

variable {α : Type} {key : String}

theorem mem_of_get?_foldl_insert {l : List (String × α)} {d : Dict α} {value : α}
    (h : (l.foldl (fun d e => d.insert e.1 e.2) d).get? key = some value) :
    d.get? key = some value ∨ (key, value) ∈ l := by
  induction l generalizing d with
  | nil => exact Or.inl h
  | cons e l ih =>
      obtain ⟨k, v⟩ := e
      rcases ih h with h | h
      · by_cases hk : k = key
        · subst hk
          rw [get?_insert_self] at h
          obtain rfl := Option.some.inj h
          exact Or.inr (List.mem_cons_self ..)
        · rw [get?_insert_of_ne d v hk] at h
          exact Or.inl h
      · exact Or.inr (List.mem_cons_of_mem _ h)

/-- A dictionary has no other entries than those that it is made of. -/
theorem mem_of_get?_ofList {l : List (String × α)} {value : α}
    (h : (ofList l).get? key = some value) : (key, value) ∈ l :=
  (mem_of_get?_foldl_insert h).resolve_left fun hempty => nomatch hempty

theorem mem_of_mem_keys_ofList {l : List (String × α)} (h : key ∈ (ofList l).keys) :
    key ∈ l.map Prod.fst := by
  obtain ⟨value, hvalue⟩ := mem_keys_iff.mp h
  exact List.mem_map_of_mem (mem_of_get?_ofList hvalue)

end Dict

/-! ## Plain keys -/

namespace Schema

variable {path : String} {o : ObjectName} {keys : KeyGrammar} {values : Shape} {nullable : Bool}

theorem isSome_keyText?_of_checkFields {entries : Yaml.Entries}
    (h : checkFields path o entries = []) : ∀ e ∈ entries, e.1.keyText?.isSome := by
  induction entries with
  | nil => exact fun _ he => absurd he List.not_mem_nil
  | cons entry rest ih =>
      obtain ⟨k, v⟩ := entry
      rw [checkFields, List.append_eq_nil_iff] at h
      obtain ⟨hfirst, hrest⟩ := h
      refine List.forall_mem_cons.mpr ⟨?_, ih hrest⟩
      cases hkey : k.keyText? with
      | none => rw [hkey] at hfirst; cases hfirst
      | some key => rfl

theorem isSome_keyText?_of_checkEntries {entries : Yaml.Entries}
    (h : checkEntries path keys values nullable entries = []) :
    ∀ e ∈ entries, e.1.keyText?.isSome := by
  induction entries with
  | nil => exact fun _ he => absurd he List.not_mem_nil
  | cons entry rest ih =>
      obtain ⟨k, v⟩ := entry
      rw [checkEntries, List.append_eq_nil_iff] at h
      obtain ⟨hfirst, hrest⟩ := h
      refine List.forall_mem_cons.mpr ⟨?_, ih hrest⟩
      cases hkey : k.keyText? with
      | none => rw [hkey] at hfirst; cases hfirst
      | some key => rfl

theorem accepts_of_checkEntries {fields : List (String × Yaml)}
    (h : checkEntries path keys values nullable (Yaml.entriesOf fields) = []) :
    ∀ e ∈ fields, keys.accepts e.1 := by
  induction fields with
  | nil => exact fun _ he => absurd he List.not_mem_nil
  | cons field rest ih =>
      obtain ⟨key, value⟩ := field
      rw [Yaml.entriesOf, List.map_cons, ← Yaml.entriesOf, checkEntries_cons,
        List.append_eq_nil_iff, List.append_eq_nil_iff] at h
      obtain ⟨⟨hkey, -⟩, hrest⟩ := h
      exact List.forall_mem_cons.mpr ⟨of_unless hkey (List.cons_ne_nil _ _), ih hrest⟩

end Schema

namespace Spec.Reader

open Yaml (entriesOf)

variable {α : Type} {fs : List (String × Yaml)}

theorem eq_string_of_key {k : Yaml} {s : String} (htext : k.keyText?.isSome)
    (hstring : k.asString? = some s) : k = .string s := by
  cases k with
  | string s' => exact congrArg Yaml.string (Option.some.inj hstring)
  | bool | int | float => cases hstring
  | null | sequence | mapping | tagged => cases htext

/-- Where no key has a tag, the named fields are all there is. -/
theorem entriesOf_of_named? {entries : Yaml.Entries} (h : named? entries = some fs)
    (hkeys : ∀ e ∈ entries, e.1.keyText?.isSome) : entries = entriesOf fs := by
  induction entries generalizing fs with
  | nil =>
      obtain rfl := Option.some.inj h
      rfl
  | cons entry rest ih =>
      obtain ⟨k, v⟩ := entry
      rw [named?, List.mapM_cons] at h
      simp only [Option.bind_eq_bind, Option.bind_eq_some_iff] at h
      obtain ⟨first, hfirst, others, hothers, h⟩ := h
      obtain rfl := Option.some.inj h
      obtain ⟨s, hs, rfl⟩ := Option.map_eq_some_iff.mp hfirst
      obtain ⟨hkey, hrest⟩ := List.forall_mem_cons.mp hkeys
      obtain rfl := eq_string_of_key hkey hs
      rw [ih hothers hrest]
      rfl

theorem map_fst_of_mapM {read : Yaml → Option α} {l : List (String × α)}
    (h : (fs.mapM fun e => (read e.2).map (e.1, ·)) = some l) :
    l.map Prod.fst = fs.map Prod.fst := by
  induction fs generalizing l with
  | nil =>
      obtain rfl := Option.some.inj h
      rfl
  | cons field rest ih =>
      rw [List.mapM_cons] at h
      simp only [Option.bind_eq_bind, Option.bind_eq_some_iff] at h
      obtain ⟨first, hfirst, others, hothers, h⟩ := h
      obtain rfl := Option.some.inj h
      obtain ⟨a, -, rfl⟩ := Option.map_eq_some_iff.mp hfirst
      rw [List.map_cons, List.map_cons, ih hothers]

/-- A dictionary that was checked is made of the entries of a mapping with plain keys. -/
theorem exists_entries_of_dict? {read : Yaml → Option α} {keys : Schema.KeyGrammar}
    {values : Schema.Shape} {nullable : Bool} {value : Yaml} {d : Dict α}
    (hchecked : Schema.Accepts (.dict keys values nullable) value)
    (hread : dict? read value = some d) : ∃ path fs l,
      Schema.checkEntries path keys values nullable (entriesOf fs) = []
        ∧ (fs.mapM fun e => (read e.2).map (e.1, ·)) = some l ∧ d = .ofList l := by
  obtain ⟨path, hcheck⟩ := hchecked
  cases value with
  | mapping entries =>
      rw [dict?, Option.bind_eq_bind, Option.bind_eq_some_iff] at hread
      obtain ⟨fs, hfs, hdict⟩ := hread
      rw [dictOf?, Option.bind_eq_bind, Option.bind_eq_some_iff] at hdict
      obtain ⟨l, hl, hdict⟩ := hdict
      have hentries : Schema.checkEntries path keys values nullable entries = [] := hcheck
      obtain rfl := entriesOf_of_named? hfs (Schema.isSome_keyText?_of_checkEntries hentries)
      exact ⟨path, fs, l, hentries, hl, (Option.some.inj hdict).symm⟩
  | null | bool | int | float | string | sequence | tagged => cases hcheck

/-- The keys of a dictionary that was checked and read keep to their grammar. -/
theorem accepts_of_dict? {read : Yaml → Option α} {keys : Schema.KeyGrammar} {values : Schema.Shape}
    {nullable : Bool} {value : Yaml} {d : Dict α}
    (hchecked : Schema.Accepts (.dict keys values nullable) value)
    (hread : dict? read value = some d) : ∀ key ∈ d.keys, keys.accepts key := by
  obtain ⟨path, fs, l, hentries, hl, rfl⟩ := exists_entries_of_dict? hchecked hread
  intro key hkey
  have hmem := Dict.mem_of_mem_keys_ofList hkey
  rw [map_fst_of_mapM hl] at hmem
  obtain ⟨e, he, rfl⟩ := List.mem_map.mp hmem
  exact Schema.accepts_of_checkEntries hentries e he

theorem exists_of_mem_mapM {read : Yaml → Option α} {l : List (String × α)} {key : String} {a : α}
    (h : (fs.mapM fun e => (read e.2).map (e.1, ·)) = some l) (ha : (key, a) ∈ l) :
    ∃ value, (key, value) ∈ fs ∧ read value = some a := by
  induction fs generalizing l with
  | nil =>
      obtain rfl := Option.some.inj h
      cases ha
  | cons field rest ih =>
      rw [List.mapM_cons] at h
      simp only [Option.bind_eq_bind, Option.bind_eq_some_iff] at h
      obtain ⟨first, hfirst, others, hothers, h⟩ := h
      obtain rfl := Option.some.inj h
      obtain ⟨b, hb, rfl⟩ := Option.map_eq_some_iff.mp hfirst
      rcases List.mem_cons.mp ha with heq | ha
      · obtain ⟨rfl, rfl⟩ := Prod.mk.inj heq
        exact ⟨field.2, List.mem_cons_self .., hb⟩
      · obtain ⟨value, hvalue, hread⟩ := ih hothers ha
        exact ⟨value, List.mem_cons_of_mem _ hvalue, hread⟩

/-- What a dictionary that was checked has at a key was checked by itself. -/
theorem exists_value_of_dict? {read : Yaml → Option α} {keys : Schema.KeyGrammar}
    {values : Schema.Shape} {value : Yaml} {d : Dict α} {key : String} {a : α}
    (hchecked : Schema.Accepts (.dict keys values false) value) (hread : dict? read value = some d)
    (ha : d.get? key = some a) : ∃ v, Schema.Accepts values v ∧ read v = some a := by
  obtain ⟨path, fs, l, hentries, hl, rfl⟩ := exists_entries_of_dict? hchecked hread
  obtain ⟨v, hv, hreadv⟩ := exists_of_mem_mapM hl (Dict.mem_of_get?_ofList ha)
  have hfills := Schema.fills_of_checkEntries hentries _ hv
  unfold Schema.Fills at hfills
  split at hfills
  · cases hfills
  · exact ⟨v, hfills, hreadv⟩

theorem accepts_of_looseEntries {read : Yaml → Option α} {path : String} {keys : Schema.KeyGrammar}
    {values : Schema.Shape} {nullable : Bool} {entries : Yaml.Entries} {l : List (String × α)}
    (hentries : Schema.checkEntries path keys values nullable entries = [])
    (h : (entries.mapM fun e => do pure (← Loose.text? e.1, ← read e.2)) = some l) :
    ∀ e ∈ l, keys.accepts e.1 := by
  induction entries generalizing l with
  | nil =>
      obtain rfl := Option.some.inj h
      exact fun _ he => absurd he List.not_mem_nil
  | cons entry rest ih =>
      obtain ⟨k, v⟩ := entry
      rw [List.mapM_cons] at h
      simp only [Option.bind_eq_bind, Option.bind_eq_some_iff] at h
      obtain ⟨first, ⟨key, hkey, a, -, hfirst⟩, others, hothers, h⟩ := h
      obtain rfl := Option.some.inj h
      obtain rfl := Option.some.inj hfirst
      obtain rfl : k = .string key := by
        cases k with
        | string other => exact congrArg Yaml.string (Option.some.inj hkey)
        | null | bool | int | float | sequence | mapping | tagged => cases hkey
      rw [Schema.checkEntries_cons, List.append_eq_nil_iff, List.append_eq_nil_iff] at hentries
      obtain ⟨⟨haccepts, -⟩, hrest⟩ := hentries
      exact List.forall_mem_cons.mpr
        ⟨Schema.of_unless haccepts (List.cons_ne_nil _ _), ih hrest hothers⟩

theorem accepts_of_looseDict? {read : Yaml → Option α} {keys : Schema.KeyGrammar}
    {values : Schema.Shape} {nullable : Bool} {value : Yaml} {d : Dict α}
    (hchecked : Schema.Accepts (.dict keys values nullable) value)
    (hread : Loose.dict? read value = some d) : ∀ key ∈ d.keys, keys.accepts key := by
  obtain ⟨path, hcheck⟩ := hchecked
  cases value with
  | mapping entries =>
      rw [Loose.dict?, Option.bind_eq_bind, Option.bind_eq_some_iff] at hread
      obtain ⟨l, hl, hdict⟩ := hread
      obtain rfl := Option.some.inj hdict
      intro key hkey
      obtain ⟨e, he, rfl⟩ := List.mem_map.mp (Dict.mem_of_mem_keys_ofList hkey)
      exact accepts_of_looseEntries hcheck hl e he
  | null | bool | int | float | string | sequence | tagged => cases hcheck

/-- Each field is in the table of its object and fills its place there. -/
def Filled (o : Schema.ObjectName) (fs : List (String × Yaml)) : Prop :=
  ∀ e ∈ fs, ∃ f, Schema.field? o e.1 = some f ∧
    Schema.Fills f.shape (f.required || f.shape.acceptsNull) e.2

/-- A dictionary among the fields of an object is read of a value that was checked, unless
it is left out. -/
theorem Filled.exists_dict {o : Schema.ObjectName} (h : Filled o fs) {name : String}
    {keys : Schema.KeyGrammar} {values : Schema.Shape} {nullable : Bool}
    {read : Yaml → Option (Dict α)} {d : Dict α}
    (hf : Schema.field? o name = some ⟨name, .dict keys values nullable, false⟩)
    (hread : fieldOr fs name {} read = some d) :
    d = {} ∨ ∃ value, Schema.Accepts (.dict keys values nullable) value ∧ read value = some d := by
  unfold fieldOr at hread
  cases hlookup : fs.lookup name with
  | none =>
      rw [hlookup] at hread
      exact Or.inl (Option.some.inj hread).symm
  | some value =>
      rw [hlookup] at hread
      obtain ⟨before, after, rfl, -⟩ := List.lookup_eq_some_iff.mp hlookup
      obtain ⟨f, hfound, hfills⟩ := h (name, value) (by simp)
      obtain rfl : f = _ := Option.some.inj (hfound.symm.trans hf)
      unfold Schema.Fills at hfills
      split at hfills
      · cases hfills
      · exact Or.inr ⟨value, hfills, hread⟩

/-- The keys of a dictionary among the fields of an object keep to their grammar. -/
theorem Filled.accepts_keys {o : Schema.ObjectName} (h : Filled o fs) {read : Yaml → Option α}
    {name : String} {keys : Schema.KeyGrammar} {values : Schema.Shape} {nullable : Bool}
    {d : Dict α} (hf : Schema.field? o name = some ⟨name, .dict keys values nullable, false⟩)
    (hread : fieldOr fs name {} (dict? read) = some d) : ∀ key ∈ d.keys, keys.accepts key := by
  rcases h.exists_dict hf hread with rfl | ⟨value, hchecked, hread⟩
  · exact fun _ hkey => absurd hkey List.not_mem_nil
  · exact accepts_of_dict? hchecked hread

/-- What a dictionary among the fields of an object has at a key was checked by itself. -/
theorem Filled.exists_value {o : Schema.ObjectName} (h : Filled o fs) {read : Yaml → Option α}
    {name : String} {keys : Schema.KeyGrammar} {values : Schema.Shape} {d : Dict α} {key : String}
    {a : α} (hf : Schema.field? o name = some ⟨name, .dict keys values false, false⟩)
    (hread : fieldOr fs name {} (dict? read) = some d) (ha : d.get? key = some a) :
    ∃ v, Schema.Accepts values v ∧ read v = some a := by
  rcases h.exists_dict hf hread with rfl | ⟨value, hchecked, hread⟩
  · cases ha
  · exact exists_value_of_dict? hchecked hread ha

/-! ## The root -/

/-- The fields of the root, and what was read of them that a config is named
after or has keys from. -/
structure Rooted (fs : List (String × Yaml)) (c : Component) : Prop where
  fills : Filled .component fs
  tag : field? fs "tag" text? = some c.tag
  parameters : fieldOr fs "parameters" {} (dict? parameter?) = some c.parameters
  services : fieldOr fs "services" {} (dict? service?) = some c.services
  tasks : fieldOr fs "tasks" {} (dict? task?) = some c.tasks
  dependencies : fieldOr fs "dependencies" {} (dict? scalar?) = some c.dependencies
  interfaces : fieldOr fs "interfaces" {} (dict? componentInterface?) = some c.interfaces

theorem rooted_of_component? {value : Yaml} {c : Component} (hcheck : Schema.check value = [])
    (hread : component? value = some c) : ∃ fs, value = .mapping (entriesOf fs) ∧ Rooted fs c := by
  cases value with
  | mapping entries =>
      obtain ⟨fs, hfs, hread⟩ := Option.bind_eq_some_iff.mp hread
      obtain ⟨name, -, hread⟩ := Option.bind_eq_some_iff.mp hread
      obtain ⟨tag, htag, hread⟩ := Option.bind_eq_some_iff.mp hread
      -- What the component extends, and what is told of it.
      iterate 5 obtain ⟨_, -, hread⟩ := Option.bind_eq_some_iff.mp hread
      obtain ⟨parameters, hparameters, hread⟩ := Option.bind_eq_some_iff.mp hread
      obtain ⟨services, hservices, hread⟩ := Option.bind_eq_some_iff.mp hread
      obtain ⟨tasks, htasks, hread⟩ := Option.bind_eq_some_iff.mp hread
      obtain ⟨dependencies, hdependencies, hread⟩ := Option.bind_eq_some_iff.mp hread
      obtain ⟨interfaces, hinterfaces, hread⟩ := Option.bind_eq_some_iff.mp hread
      obtain rfl := Option.some.inj hread
      obtain ⟨hfields, -⟩ := List.append_eq_nil_iff.mp hcheck
      obtain rfl := entriesOf_of_named? hfs (Schema.isSome_keyText?_of_checkFields hfields)
      exact ⟨fs, rfl, Schema.fills_of_checkFields hfields, htag, hparameters, hservices, htasks,
        hdependencies, hinterfaces⟩
  | null | bool | int | float | string | sequence | tagged => cases hcheck

theorem Rooted.isName_services {c : Component} (h : Rooted fs c) :
    ∀ key ∈ c.services.keys, Slug.isNameText key := by
  have hkeys : ∀ key ∈ c.services.keys, Schema.KeyGrammar.name.accepts key :=
    h.fills.accepts_keys rfl h.services
  exact hkeys

theorem Rooted.isName_tasks {c : Component} (h : Rooted fs c) :
    ∀ key ∈ c.tasks.keys, Slug.isNameText key := by
  have hkeys : ∀ key ∈ c.tasks.keys, Schema.KeyGrammar.name.accepts key :=
    h.fills.accepts_keys rfl h.tasks
  exact hkeys

section Resources

variable {X : Type} {extension? : List (String × Yaml) → Option X} {o : Schema.ObjectName}
  {value : Yaml} {r : Resource X}

/-- The body of a resource is read of fields that were checked. -/
theorem exists_body_of_resource? (hchecked : Schema.Accepts (.object o) value)
    (hread : resource? extension? value = some r) :
    ∃ fs, Filled o fs ∧ body? extension? fs = some r.body := by
  obtain ⟨path, hcheck⟩ := hchecked
  cases value with
  | mapping entries =>
      obtain ⟨hfields, -⟩ := List.append_eq_nil_iff.mp hcheck
      rw [resource?] at hread
      obtain ⟨fs, hfs, hread⟩ := Option.bind_eq_some_iff.mp hread
      obtain ⟨body, hbody, hread⟩ := Option.bind_eq_some_iff.mp hread
      obtain ⟨debug, -, hread⟩ := Option.bind_eq_some_iff.mp hread
      obtain rfl := Option.some.inj hread
      obtain rfl := entriesOf_of_named? hfs (Schema.isSome_keyText?_of_checkFields hfields)
      exact ⟨fs, Schema.fills_of_checkFields hfields, hbody⟩
  | null | bool | int | float | string | sequence | tagged => cases hcheck

theorem accepts_environment (hchecked : Schema.Accepts (.object o) value)
    (hread : resource? extension? value = some r)
    (hf : Schema.field? o "environment"
      = some ⟨"environment", .dict .environmentKey .scalar true, false⟩) :
    ∀ key ∈ r.body.environment.keys, Schema.KeyGrammar.environmentKey.accepts key := by
  obtain ⟨fs, hfills, hbody⟩ := exists_body_of_resource? hchecked hread
  rw [body?] at hbody
  split at hbody
  · cases hbody
  · -- What the resource is built from, and how it is started.
    iterate 5 obtain ⟨_, -, hbody⟩ := Option.bind_eq_some_iff.mp hbody
    obtain ⟨environment, henvironment, hbody⟩ := Option.bind_eq_some_iff.mp hbody
    -- What comes behind the environment.
    iterate 6 obtain ⟨_, -, hbody⟩ := Option.bind_eq_some_iff.mp hbody
    rw [← Option.some.inj hbody]
    exact hfills.accepts_keys hf henvironment

end Resources

/-- What only services have is read of fields that were checked. -/
theorem exists_extension_of_service? {value : Yaml} {service : Service}
    (hchecked : Schema.Accepts (.object .service) value) (hread : service? value = some service) :
    ∃ fs, Filled .service fs ∧ serviceExtension? fs = some service.body.extension := by
  obtain ⟨fs, hfills, hbody⟩ := exists_body_of_resource? hchecked hread
  rw [body?] at hbody
  split at hbody
  · cases hbody
  · -- What all resources have, and then the extension.
    iterate 11 obtain ⟨_, -, hbody⟩ := Option.bind_eq_some_iff.mp hbody
    obtain ⟨extension, hextension, hbody⟩ := Option.bind_eq_some_iff.mp hbody
    rw [← Option.some.inj hbody]
    exact ⟨_, fun e he => hfills e (List.mem_of_mem_filter he), hextension⟩

theorem isName_interfaces_of_service? {value : Yaml} {service : Service}
    (hchecked : Schema.Accepts (.object .service) value) (hread : service? value = some service) :
    ∀ key ∈ service.body.extension.interfaces.keys, Slug.isNameText key := by
  obtain ⟨fs, hfills, hextension⟩ := exists_extension_of_service? hchecked hread
  obtain ⟨interfaces, hinterfaces, hextension⟩ := Option.bind_eq_some_iff.mp hextension
  -- The probe, the replicas and the scaling.
  iterate 3 obtain ⟨_, -, hextension⟩ := Option.bind_eq_some_iff.mp hextension
  rw [← Option.some.inj hextension]
  rcases hfills.exists_dict rfl hinterfaces with rfl | ⟨value, hchecked, hread⟩
  · exact fun _ hkey => absurd hkey List.not_mem_nil
  · exact accepts_of_looseDict? hchecked hread

section Rooted

variable {c : Component} {key : String}

theorem Rooted.isName_interfaces (h : Rooted fs c) {service : Service}
    (hs : c.services.get? key = some service) :
    ∀ name ∈ service.body.extension.interfaces.keys, Slug.isNameText name := by
  obtain ⟨v, hv, hservice⟩ := h.fills.exists_value rfl h.services hs
  exact isName_interfaces_of_service? hv hservice

theorem Rooted.accepts_serviceEnvironment (h : Rooted fs c) {service : Service}
    (hs : c.services.get? key = some service) :
    ∀ name ∈ service.body.environment.keys, Schema.KeyGrammar.environmentKey.accepts name := by
  obtain ⟨v, hv, hservice⟩ := h.fills.exists_value rfl h.services hs
  exact accepts_environment hv hservice rfl

theorem Rooted.accepts_taskEnvironment (h : Rooted fs c) {task : Task}
    (ht : c.tasks.get? key = some task) :
    ∀ name ∈ task.body.environment.keys, Schema.KeyGrammar.environmentKey.accepts name := by
  obtain ⟨v, hv, htask⟩ := h.fills.exists_value rfl h.tasks ht
  exact accepts_environment hv htask rfl

end Rooted

end Spec.Reader

namespace Compiler

/-- A spec is read from a mapping with plain keys. -/
theorem rooted_of_parseSpec {ps : Perspectives} {d : SourceDocument} {spec : Spec.Component}
    (h : parseSpec ps d = .ok spec) :
    ∃ fs, d.value = .mapping (Yaml.entriesOf fs) ∧ Spec.Reader.Rooted fs spec := by
  obtain ⟨hcheck, -⟩ := parseSpec_ok h
  unfold parseSpec at h
  dsimp only at h
  split at h
  · rename_i read hread
    obtain ⟨-, rfl⟩ := eq_of_unlessInvalid h
    exact Spec.Reader.rooted_of_component? hcheck hread
  · split at h <;> cases h

end Compiler

end Manifest
