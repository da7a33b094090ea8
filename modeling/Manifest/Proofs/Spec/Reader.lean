import Manifest.Proofs.Outcome
import Manifest.Proofs.Schema.Check
/-!
# A checked value can be read

The tables of the check and the readers describe the same documents. A reader
takes a shape if it succeeds on every plain value of that shape; each reader
does so for the shape of its field because the readers of its parts do. An
object comes down to its fields: a field that may be null is read as one that
may be left out, and a field that has a default is never null.
-/

namespace Manifest.Spec.Reader

open Schema (Shape ObjectName Field Accepts Fills Fitting)
open Yaml (entriesOf)

variable {α β : Type} {shape : Shape} {o : ObjectName} {fs : List (String × Yaml)}

/-- The reader succeeds on every plain value, null apart, that the check of
the shape accepts. -/
def Takes (shape : Shape) (read : Yaml → Option α) : Prop :=
  ∀ value : Yaml, value.Plain → value.isNull = false → Accepts shape value → (read value).isSome

/-! ## Values of one form -/

theorem exists_string {value : Yaml} (hplain : value.Plain) (h : value.isString) :
    ∃ s, value = .string s := by
  cases value with
  | string s => exact ⟨s, rfl⟩
  | tagged tag value => cases hplain.tagFree
  | null | bool | int | float | sequence | mapping => cases h

theorem isSome_optional {read : Yaml → Option α} {value : Yaml} (h : (read value).isSome) :
    (optional read value).isSome := by
  cases value with
  | null => rfl
  | bool | int | float | string | sequence | mapping | tagged =>
      rw [optional, Option.isSome_map]
      · exact h
      · simp

theorem Takes.optional {read : Yaml → Option α} (h : Takes shape read) :
    Takes shape (optional read) :=
  fun value hplain hnull haccepts => isSome_optional (h value hplain hnull haccepts)

theorem Takes.map {read : Yaml → Option α} (h : Takes shape read) (g : α → β) :
    Takes shape fun value => (read value).map g := by
  intro value hplain hnull haccepts
  rw [Option.isSome_map]
  exact h value hplain hnull haccepts

theorem Takes.loosely {read : Yaml → Option α} (h : Takes shape read) :
    Takes shape (loosely read) := by
  intro value hplain hnull haccepts
  rw [Reader.loosely, if_pos hplain.tagFree]
  exact h value hplain hnull haccepts

theorem takes_text : Takes .text text? := fun _ _ _ haccepts => haccepts.isString

theorem takes_looseText : Takes .text Loose.text? := by
  intro value hplain _ haccepts
  obtain ⟨s, rfl⟩ := exists_string hplain haccepts.isString
  rfl

theorem isSome_looseScalar {value : Yaml} (h : value.isScalar) : (Loose.scalar? value).isSome := by
  cases value with
  | bool | int | float | string => rfl
  | null | sequence | mapping | tagged => cases h

theorem takes_looseScalar : Takes .scalar Loose.scalar? :=
  fun _ _ _ haccepts => isSome_looseScalar haccepts.isScalar

theorem takes_scalar : Takes .scalar scalar? := takes_looseScalar.loosely

theorem takes_texts : Takes .textList (list? text?) := by
  intro value _ _ haccepts
  obtain ⟨items, rfl, hitems⟩ := haccepts.textList
  exact isSome_mapM hitems

theorem takes_looseCommand : Takes .command looseCommand? := by
  intro value hplain _ haccepts
  rw [looseCommand?, Option.isSome_or, Option.isSome_map, Option.isSome_map, Bool.or_eq_true]
  rcases haccepts.command with hstring | ⟨items, rfl, hitems⟩
  · obtain ⟨s, rfl⟩ := exists_string hplain hstring
    exact Or.inr rfl
  · exact Or.inl (isSome_mapM fun item hitem => isSome_looseScalar (hitems item hitem))

theorem takes_command : Takes .command command? := takes_looseCommand.loosely

/-! ## Values of two forms -/

theorem Takes.textOr {first second : Yaml → Option α} (hobject : Takes (.object o) first)
    (htext : Takes .text second) :
    Takes (.textOr o) fun value => (first value).or (second value) := by
  intro value hplain hnull haccepts
  rw [Option.isSome_or, Bool.or_eq_true]
  rcases haccepts.textOr with hstring | haccepts
  · exact Or.inr (htext value hplain hnull (.of_isString hstring))
  · exact Or.inl (hobject value hplain hnull haccepts)

theorem Takes.scalarOr {first second : Yaml → Option α} (hobject : Takes (.object o) first)
    (hscalar : Takes .scalar second) :
    Takes (.scalarOr o) fun value => (first value).or (second value) := by
  intro value hplain hnull haccepts
  rw [Option.isSome_or, Bool.or_eq_true]
  rcases haccepts.scalarOr with hisScalar | haccepts
  · exact Or.inr (hscalar value hplain hnull (.of_isScalar hisScalar))
  · exact Or.inl (hobject value hplain hnull haccepts)

/-! ## Mappings -/

theorem mapM_entriesOf {f : Yaml × Yaml → Option β} {g : String × Yaml → β} :
    ∀ {fs : List (String × Yaml)}, (∀ e ∈ fs, f (.string e.1, e.2) = some (g e)) →
      (entriesOf fs).mapM f = some (fs.map g)
  | [], _ => rfl
  | e :: rest, h => by
      have hrest := mapM_entriesOf fun other hother => h other (List.mem_cons_of_mem e hother)
      rw [entriesOf, List.map_cons, ← entriesOf, List.mapM_cons, h e (List.mem_cons_self ..), hrest]
      rfl

theorem named?_entriesOf (fs : List (String × Yaml)) : named? (entriesOf fs) = some fs := by
  have hnamed : named? (entriesOf fs) = some (fs.map id) := mapM_entriesOf fun _ _ => rfl
  rw [hnamed, List.map_id]

theorem fields?_entriesOf (fs : List (String × Yaml)) :
    fields? (.mapping (entriesOf fs)) = some fs :=
  named?_entriesOf fs

theorem filterMap_map_some (fs : List (String × Yaml)) : (fs.map some).filterMap id = fs := by
  rw [List.filterMap_map, Function.id_comp, List.filterMap_some]

theorem openFields?_entriesOf (fs : List (String × Yaml)) :
    openFields? (.mapping (entriesOf fs)) = some fs := by
  rw [openFields?, mapM_entriesOf (g := some) fun _ _ => rfl]
  exact congrArg some (filterMap_map_some fs)

/-- The fields of an object are all known to a reader whose names are those of
the table. -/
theorem object?_entriesOf {names : List String} (hfs : Fitting o fs)
    (hnames : (Schema.fieldsOf o).all fun f => names.contains f.name) :
    Loose.object? names (.mapping (entriesOf fs)) = some fs := by
  have hknown : ∀ e ∈ fs, names.contains e.1 := by
    intro e he
    obtain ⟨f, hf, -⟩ := hfs.fills e he
    obtain ⟨hmem, hname⟩ := Schema.mem_fieldsOf hf
    rw [← hname]
    exact List.all_eq_true.mp hnames f hmem
  rw [Loose.object?, mapM_entriesOf (g := some) fun e he => ?_]
  · show (if ((fs.map some).filterMap id |>.map Prod.fst).Nodup then _ else none) = some fs
    rw [filterMap_map_some, if_pos hfs.names]
  · show (Loose.keyName? names (.string e.1)).bind (fun name => some (name.map (·, e.2)))
      = some (some e)
    rw [Loose.keyName?, if_pos (hknown e he)]
    rfl

/-! ## Places

A reader is good for a place if it also takes the null that may stand there. -/

theorem Takes.isSome_of_fills {read : Yaml → Option α} {value : Yaml} {nullable : Bool}
    (h : Takes shape read) (hnullable : nullable = true → (read .null).isSome)
    (hplain : value.Plain) (hfills : Fills shape nullable value) : (read value).isSome := by
  unfold Fills at hfills
  split at hfills
  · rename_i hnull
    rw [hplain.eq_null hnull]
    exact hnullable hfills
  · rename_i hnull
    exact h value hplain (Bool.eq_false_iff.mpr hnull) hfills

theorem Takes.fieldOr {read : Yaml → Option α} (h : Takes shape read) (hfs : Fitting o fs)
    {name : String} (hf : Schema.field? o name = some ⟨name, shape, false⟩)
    (hnullable : shape.acceptsNull = true → (read .null).isSome) (default : α) :
    (fieldOr fs name default read).isSome := by
  unfold Reader.fieldOr
  cases hlookup : fs.lookup name with
  | none => rfl
  | some value =>
      obtain ⟨hplain, hfills⟩ := hfs.of_lookup hf hlookup
      exact h.isSome_of_fills hnullable hplain hfills

theorem Takes.field {read : Yaml → Option α} (h : Takes shape read) (hfs : Fitting o fs)
    {name : String} (hf : Schema.field? o name = some ⟨name, shape, false⟩) :
    (field? fs name read).isSome :=
  h.optional.fieldOr hfs hf (fun _ => rfl) none

theorem Takes.dict {keys : Schema.KeyGrammar} {nullable : Bool} {read : Yaml → Option α}
    (h : Takes shape read) (hnullable : nullable = true → (read .null).isSome) :
    Takes (.dict keys shape nullable) (dict? read) := by
  intro value hplain _ haccepts
  obtain ⟨fs, rfl, hfs⟩ := haccepts.dict hplain
  have hentries : (fs.mapM fun e => (read e.2).map (e.1, ·)).isSome := by
    refine isSome_mapM fun e he => ?_
    rw [Option.isSome_map]
    exact h.isSome_of_fills hnullable (hfs e he).1 (hfs e he).2
  have hdict : (dictOf? read fs).isSome := isSome_bind hentries fun _ => rfl
  rwa [dict?, fields?_entriesOf]

theorem Takes.looseDict {keys : Schema.KeyGrammar} {read : Yaml → Option α} (h : Takes shape read) :
    Takes (.dict keys shape false) (Loose.dict? read) := by
  intro value hplain _ haccepts
  obtain ⟨fs, rfl, hfs⟩ := haccepts.dict hplain
  rw [Loose.dict?]
  refine isSome_bind (isSome_mapM fun entry hentry => ?_) fun _ => rfl
  obtain ⟨e, he, rfl⟩ := List.mem_map.mp hentry
  have hvalue := h.isSome_of_fills (by simp) (hfs e he).1 (hfs e he).2
  exact isSome_bind rfl fun _ => isSome_bind hvalue fun _ => rfl

/-! ## Objects -/

/-- An object is read if its fields are. -/
theorem takes_object {names : List String} {ofFields : List (String × Yaml) → Option α}
    (hnames : (Schema.fieldsOf o).all fun f => names.contains f.name)
    (h : ∀ fs, Fitting o fs → (ofFields fs).isSome) :
    Takes (.object o) fun value => Loose.object? names value >>= ofFields := by
  intro value hplain _ haccepts
  obtain ⟨fs, rfl, hfs, -⟩ := haccepts.object hplain
  dsimp only
  rw [object?_entriesOf hfs hnames]
  exact h fs hfs

theorem takes_parameter : Takes (.scalarOr .parameter) parameter? := by
  refine Takes.loosely (Takes.scalarOr (Takes.map ?_ _) (takes_looseScalar.optional.map _))
  exact takes_object rfl fun _ hfs =>
    isSome_bind (takes_looseScalar.field hfs rfl) fun _ =>
    isSome_bind (takes_looseText.field hfs rfl) fun _ =>
    isSome_bind ((takes_looseScalar.optional.map some).fieldOr hfs rfl (fun _ => rfl) none)
      fun _ => rfl

theorem takes_volume : Takes (.textOr .volume) volume? := by
  refine Takes.loosely (Takes.textOr (Takes.map ?_ _) (takes_looseText.map _))
  exact takes_object rfl fun _ hfs =>
    isSome_bind (takes_looseText.field hfs rfl) fun _ =>
    isSome_bind (takes_looseText.field hfs rfl) fun _ =>
    isSome_bind (takes_looseText.field hfs rfl) fun _ =>
    isSome_bind (takes_looseText.field hfs rfl) fun _ =>
    isSome_bind (takes_looseScalar.field hfs rfl) fun _ => rfl

theorem takes_ingress : Takes (.object .ingress) ingress? :=
  takes_object rfl fun _ hfs =>
    isSome_bind (takes_looseScalar.field hfs rfl) fun _ =>
    isSome_bind (takes_looseText.field hfs rfl) fun _ => rfl

theorem takes_probe : Takes (.object .livenessProbe) probe? :=
  takes_object rfl fun _ hfs =>
    isSome_bind (takes_looseScalar.field hfs rfl) fun _ =>
    isSome_bind (takes_looseScalar.field hfs rfl) fun _ =>
    isSome_bind (takes_looseText.field hfs rfl) fun _ =>
    isSome_bind (takes_looseText.field hfs rfl) fun _ =>
    isSome_bind (takes_looseText.field hfs rfl) fun _ =>
    isSome_bind (takes_looseText.field hfs rfl) fun _ =>
    isSome_bind (takes_looseScalar.field hfs rfl) fun _ =>
    isSome_bind (takes_looseCommand.field hfs rfl) fun _ => rfl

theorem takes_metrics : Takes (.object .metrics) metrics? :=
  takes_object rfl fun _ hfs =>
    isSome_bind (takes_looseScalar.field hfs rfl) fun _ =>
    isSome_bind (takes_looseScalar.field hfs rfl) fun _ => rfl

theorem takes_scaling : Takes (.object .scaling) scaling? :=
  takes_object rfl fun _ hfs =>
    isSome_bind (takes_looseScalar.field hfs rfl) fun _ =>
    isSome_bind (takes_looseScalar.field hfs rfl) fun _ =>
    isSome_bind (takes_metrics.field hfs rfl) fun _ => rfl

/-! ## Shared fields -/

/-- The fields stand in the table of the object, perhaps among others. -/
def Shares (o : ObjectName) (fields : List Field) : Prop :=
  ∀ ⦃name : String⦄ ⦃f : Field⦄, fields.find? (fun f => f.name = name) = some f →
    Schema.field? o name = some f

theorem shares_append {fields more : List Field} (h : Schema.fieldsOf o = fields ++ more) :
    Shares o fields := by
  intro name f hf
  rw [Schema.field?, h, List.find?_append, hf]
  rfl

theorem isSome_interfaceOf? (ho : Shares o Schema.interfaceFields) (hfs : Fitting o fs) :
    (interfaceOf? fs).isSome :=
  isSome_bind (takes_looseText.field hfs (ho rfl)) fun _ =>
  isSome_bind (takes_looseText.field hfs (ho rfl)) fun _ =>
  isSome_bind (takes_looseScalar.field hfs (ho rfl)) fun _ =>
  isSome_bind (takes_looseText.field hfs (ho rfl)) fun _ =>
  isSome_bind (takes_looseText.field hfs (ho rfl)) fun _ =>
  isSome_bind (takes_looseText.field hfs (ho rfl)) fun _ =>
  isSome_bind (takes_looseText.field hfs (ho rfl)) fun _ =>
  isSome_bind (takes_looseScalar.field hfs (ho rfl)) fun _ => rfl

theorem takes_interface : Takes (.scalarOr .interface) interface? := by
  refine Takes.scalarOr (Takes.map ?_ _) (takes_looseScalar.map _)
  exact takes_object rfl fun _ hfs =>
    isSome_interfaceOf? (shares_append (List.append_nil _).symm) hfs

theorem takes_componentInterface : Takes (.scalarOr .componentInterface) componentInterface? := by
  refine Takes.loosely (Takes.scalarOr ?_ (takes_looseScalar.map _))
  intro value hplain _ haccepts
  obtain ⟨fs, rfl, hfs, -⟩ := haccepts.object hplain
  dsimp only
  rw [openFields?_entriesOf, Option.bind_eq_bind, Option.bind_some]
  exact isSome_bind (takes_ingress.field hfs rfl) fun _ =>
    isSome_bind (isSome_interfaceOf? (shares_append rfl) hfs) fun _ => rfl

/-! ## Resources -/

theorem isSome_serviceExtension? (hfs : Fitting .service fs) : (serviceExtension? fs).isSome :=
  isSome_bind (takes_interface.looseDict.fieldOr hfs rfl nofun {}) fun _ =>
  isSome_bind (takes_probe.field hfs rfl) fun _ =>
  isSome_bind (takes_looseScalar.field hfs rfl) fun _ =>
  isSome_bind (takes_scaling.field hfs rfl) fun _ => rfl

theorem isSome_taskExtension? (hfs : Fitting .task fs) : (taskExtension? fs).isSome :=
  isSome_bind (takes_looseText.field hfs rfl) fun _ => rfl

theorem takes_build : Takes (.object .build) build? := by
  intro value hplain _ haccepts
  obtain ⟨fs, rfl, hfs, -⟩ := haccepts.object hplain
  rw [build?, fields?_entriesOf, Option.bind_eq_bind, Option.bind_some]
  exact isSome_bind (takes_text.field hfs rfl) fun _ =>
    isSome_bind (takes_text.field hfs rfl) fun _ =>
    isSome_bind (takes_text.field hfs rfl) fun _ =>
    isSome_bind ((takes_scalar.optional.dict fun _ => rfl).fieldOr hfs rfl nofun {}) fun _ => rfl

variable {X : Type} {extension? : List (String × Yaml) → Option X}

theorem isSome_body? (ho : Shares o Schema.resourceFields)
    (hextension : ∀ fs, Fitting o fs → (extension? fs).isSome) (hfs : Fitting o fs) :
    (body? extension? fs).isSome := by
  unfold body?
  dsimp only
  split
  · next htagged =>
      rw [Bool.not_eq_true', List.all_eq_false] at htagged
      obtain ⟨e, he, htag⟩ := htagged
      exact absurd ((hfs.filter _).plain e he).tagFree htag
  · exact isSome_bind (takes_text.field hfs (ho rfl)) fun _ =>
      isSome_bind (takes_text.field hfs (ho rfl)) fun _ =>
      isSome_bind (takes_build.field hfs (ho rfl)) fun _ =>
      isSome_bind (takes_command.field hfs (ho rfl)) fun _ =>
      isSome_bind (takes_command.field hfs (ho rfl)) fun _ =>
      isSome_bind ((takes_scalar.optional.dict fun _ => rfl).fieldOr hfs (ho rfl) nofun {}) fun _ =>
      isSome_bind ((takes_volume.dict (by nofun)).fieldOr hfs (ho rfl) nofun {}) fun _ =>
      isSome_bind (takes_scalar.field hfs (ho rfl)) fun _ =>
      isSome_bind (takes_scalar.field hfs (ho rfl)) fun _ =>
      isSome_bind (takes_texts.fieldOr hfs (ho rfl) nofun []) fun _ =>
      isSome_bind ((takes_text.dict (by nofun)).fieldOr hfs (ho rfl) nofun {}) fun _ =>
      isSome_bind (hextension _ (hfs.filter _)) fun _ => rfl

/-- What stands at the key `debug` of a resource is null or a resource of the
same kind. -/
theorem debug_of_fitting {entries : Yaml.Entries} (hentries : entries = entriesOf fs)
    (hfs : Fitting o fs) (hdebug : Schema.field? o "debug" = some ⟨"debug", .object o, false⟩) :
    ∀ e ∈ entries, e.1.asString? = some "debug" → e.2.Plain ∧ Fills (.object o) true e.2 := by
  intro e he hkey
  rw [hentries] at he
  obtain ⟨⟨name, value⟩, hmem, rfl⟩ := List.mem_map.mp he
  obtain rfl : name = "debug" := Option.some.inj hkey
  obtain ⟨f, hf, hfills⟩ := hfs.fills _ hmem
  obtain rfl : f = ⟨"debug", .object o, false⟩ := Option.some.inj (hf.symm.trans hdebug)
  exact ⟨hfs.plain _ hmem, hfills⟩

mutual

/-- By recursion along the debug blocks of a resource. -/
theorem isSome_resource? (ho : Shares o Schema.resourceFields)
    (hdebug : Schema.field? o "debug" = some ⟨"debug", .object o, false⟩)
    (hextension : ∀ fs, Fitting o fs → (extension? fs).isSome) : ∀ value : Yaml, value.Plain →
      value.isNull = false → Accepts (.object o) value → (resource? extension? value).isSome
  | .mapping entries, hplain, _, haccepts => by
      obtain ⟨fs, heq, hfs, -⟩ := haccepts.object hplain
      have hentries : entries = entriesOf fs := Yaml.mapping.inj heq
      have hnamed : named? entries = some fs := by rw [hentries, named?_entriesOf]
      have hblock := isSome_debugOf? ho hdebug hextension entries
        (debug_of_fitting hentries hfs hdebug)
      rw [resource?, hnamed, Option.bind_eq_bind, Option.bind_some]
      exact isSome_bind (isSome_body? ho hextension hfs) fun _ => isSome_bind hblock fun _ => rfl
  | .tagged _ _, hplain, _, _ => by cases hplain.tagFree
  | .null, _, hnull, _ => by cases hnull
  | .bool _, _, _, haccepts => by obtain ⟨path, h⟩ := haccepts; cases h
  | .int _, _, _, haccepts => by obtain ⟨path, h⟩ := haccepts; cases h
  | .float _, _, _, haccepts => by obtain ⟨path, h⟩ := haccepts; cases h
  | .string _, _, _, haccepts => by obtain ⟨path, h⟩ := haccepts; cases h
  | .sequence _, _, _, haccepts => by obtain ⟨path, h⟩ := haccepts; cases h

theorem isSome_debugOf? (ho : Shares o Schema.resourceFields)
    (hdebug : Schema.field? o "debug" = some ⟨"debug", .object o, false⟩)
    (hextension : ∀ fs, Fitting o fs → (extension? fs).isSome) : ∀ entries : Yaml.Entries,
      (∀ e ∈ entries, e.1.asString? = some "debug" → e.2.Plain ∧ Fills (.object o) true e.2) →
        (debugOf? extension? entries).isSome
  | [], _ => rfl
  | (k, v) :: rest, h => by
      have hvalue := isSome_resource? ho hdebug hextension v
      have hrest := isSome_debugOf? ho hdebug hextension rest
        fun e he => h e (List.mem_cons_of_mem _ he)
      unfold debugOf?
      by_cases hkey : k.asString? = some "debug"
      · obtain ⟨hplain, hfills⟩ : v.Plain ∧ Fills (.object o) true v :=
          h (k, v) (List.mem_cons_self ..) hkey
        rw [if_pos hkey]
        unfold Fills at hfills
        split at hfills
        · rename_i hnull
          rw [hplain.eq_null hnull]
          rfl
        · rename_i hnull
          have hread := hvalue hplain (Bool.eq_false_iff.mpr hnull) hfills
          cases v with
          | null => rfl
          | bool | int | float | string | sequence | mapping | tagged =>
              exact (Option.isSome_map ..).trans hread
      · rw [if_neg hkey]
        exact hrest

end

theorem takes_service : Takes (.object .service) service? :=
  isSome_resource? (shares_append rfl) rfl fun _ => isSome_serviceExtension?

theorem takes_task : Takes (.object .task) task? :=
  isSome_resource? (shares_append rfl) rfl fun _ => isSome_taskExtension?

/-! ## Components -/

/-- A document with which the check finds nothing wrong can be read. -/
theorem isSome_component? {value : Yaml} (hplain : value.Plain)
    (hcheck : Schema.check value = []) : (component? value).isSome := by
  obtain ⟨fs, rfl, hfs, hrequired⟩ := Accepts.object hplain ⟨"", hcheck⟩
  have hname : ((fs.lookup "name").bind text?).isSome := by
    obtain ⟨v, hv, hnull⟩ := hrequired ⟨"name", .text, true⟩ (List.mem_cons_self ..) rfl
    obtain ⟨hv', hfills⟩ := hfs.of_lookup rfl hv
    have haccepts : Accepts .text v := by simpa [Fills, hnull] using hfills
    rw [hv]
    exact haccepts.isString
  rw [component?, fields?_entriesOf, Option.bind_eq_bind, Option.bind_some]
  exact isSome_bind hname fun _ =>
    isSome_bind (takes_text.field hfs rfl) fun _ =>
    isSome_bind (takes_text.field hfs rfl) fun _ =>
    isSome_bind (takes_text.field hfs rfl) fun _ =>
    isSome_bind (takes_texts.fieldOr hfs rfl nofun []) fun _ =>
    isSome_bind (takes_text.field hfs rfl) fun _ =>
    isSome_bind (takes_text.field hfs rfl) fun _ =>
    isSome_bind ((takes_parameter.dict fun _ => rfl).fieldOr hfs rfl nofun {}) fun _ =>
    isSome_bind ((takes_service.dict (by nofun)).fieldOr hfs rfl nofun {}) fun _ =>
    isSome_bind ((takes_task.dict (by nofun)).fieldOr hfs rfl nofun {}) fun _ =>
    isSome_bind ((takes_scalar.dict (by nofun)).fieldOr hfs rfl nofun {}) fun _ =>
    isSome_bind ((takes_componentInterface.dict (by nofun)).fieldOr hfs rfl nofun {}) fun _ => rfl

end Manifest.Spec.Reader
