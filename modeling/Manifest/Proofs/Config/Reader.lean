import Manifest.Config.Reader
import Manifest.Proofs.Json
/-!
# Reading configs does not look into texts

Whether a value can be read as a config depends on what is around its texts
and not on the texts themselves, with the date of an instance as the one
exception. A reader is `Blind` if that is so, and a reader of fields
`FieldsBlind`; each reader is blind because the readers of its fields are.
-/

namespace Manifest.Config.Reader

open Json (mapTexts mapItemTexts mapMemberTexts member? Members)

variable {α β : Type} {f : String → String}

/-! ## Blind readers -/

/-- The reader succeeds on a value exactly if it does with other texts in the
value. -/
def Blind (read : Json → Option α) : Prop :=
  ∀ (f : String → String) (value : Json), (read (mapTexts f value)).isSome = (read value).isSome

def FieldsBlind (read : Members → Option α) : Prop :=
  ∀ (f : String → String) (fs : Members), (read (mapMemberTexts f fs)).isSome = (read fs).isSome

/-- Two sequences of steps succeed alike if their first steps do, and what
follows does whatever the first steps give. -/
theorem isSome_bind_congr {x y : Option α} {next next' : α → Option β}
    (hfirst : x.isSome = y.isSome) (hnext : ∀ a b, (next a).isSome = (next' b).isSome) :
    (x >>= next).isSome = (y >>= next').isSome := by
  cases x with
  | none =>
      have hnone : y = none := by simpa using hfirst.symm
      rw [hnone]
      rfl
  | some a =>
      obtain ⟨b, rfl⟩ := Option.isSome_iff_exists.mp hfirst.symm
      exact hnext a b

theorem isSome_map_congr {x y : Option α} (g : α → β) (h : x.isSome = y.isSome) :
    (x.map g).isSome = (y.map g).isSome := by
  rw [Option.isSome_map, Option.isSome_map, h]

/-! ## Members with other texts -/

theorem member?_mapMemberTexts (name : String) : ∀ members : Members,
    member? name (mapMemberTexts f members) = (member? name members).map (mapTexts f)
  | [] => rfl
  | (k, _) :: rest => by
      rw [mapMemberTexts, member?, member?]
      split
      · rfl
      · exact member?_mapMemberTexts name rest

theorem mapMemberTexts_filter (p : String → Bool) : ∀ members : Members,
    (mapMemberTexts f members).filter (fun (k, _) => p k)
      = mapMemberTexts f (members.filter fun (k, _) => p k)
  | [] => rfl
  | (k, _) :: rest => by
      simp only [mapMemberTexts, List.filter_cons, mapMemberTexts_filter p rest]
      split <;> rfl

theorem map_fst_mapMemberTexts : ∀ members : Members,
    (mapMemberTexts f members).map Prod.fst = members.map Prod.fst
  | [] => rfl
  | (k, _) :: rest => congrArg (k :: ·) (map_fst_mapMemberTexts rest)

theorem mapItemTexts_eq_map : ∀ items : List Json, mapItemTexts f items = items.map (mapTexts f)
  | [] => rfl
  | item :: rest => congrArg (mapTexts f item :: ·) (mapItemTexts_eq_map rest)

theorem zip_mapItemTexts : ∀ (names : List String) (items : List Json),
    names.zip (mapItemTexts f items) = mapMemberTexts f (names.zip items)
  | [], _ => rfl
  | _ :: _, [] => rfl
  | name :: names, item :: items =>
      congrArg ((name, mapTexts f item) :: ·) (zip_mapItemTexts names items)

theorem known?_mapMemberTexts (names : List String) (members : Members) :
    known? names (mapMemberTexts f members) = (known? names members).map (mapMemberTexts f) := by
  simp only [known?, mapMemberTexts_filter names.contains, map_fst_mapMemberTexts]
  split <;> rfl

theorem fields?_mapTexts (names : List String) (value : Json) :
    fields? names (mapTexts f value) = (fields? names value).map (mapMemberTexts f) := by
  cases value with
  | object members => exact known?_mapMemberTexts names members
  | array items =>
      rw [mapTexts, fields?, fields?, mapItemTexts_eq_map, List.length_map, ← mapItemTexts_eq_map,
        zip_mapItemTexts]
      split <;> rfl
  | null | bool | int | float | string => rfl

theorem members?_mapTexts (value : Json) :
    (mapTexts f value).members? = value.members?.map (mapMemberTexts f) := by
  cases value <;> rfl

theorem items?_mapTexts (value : Json) :
    (mapTexts f value).items? = value.items?.map (List.map (mapTexts f)) := by
  cases value with
  | array items => exact congrArg some (mapItemTexts_eq_map items)
  | null | bool | int | float | string | object => rfl

theorem isSome_bind_map_congr {x : Option α} {g : α → α} {next next' : α → Option β}
    (h : ∀ a, (next (g a)).isSome = (next' a).isSome) :
    (x.map g >>= next).isSome = (x >>= next').isSome := by
  cases x with
  | none => rfl
  | some a => exact h a

/-! ## Readers of values -/

theorem blind_text : Blind Json.asString? := fun _ value => by cases value <;> rfl

theorem blind_bool : Blind bool? := fun _ value => by cases value <;> rfl

theorem blind_scalar : Blind scalar? := fun _ value => by cases value <;> rfl

theorem Blind.optional {read : Json → Option α} (h : Blind read) : Blind (optional read) := by
  intro f value
  cases value with
  | null => rfl
  | bool | int | float | string | array | object => exact isSome_map_congr some (h f _)

theorem Blind.map {read : Json → Option α} (h : Blind read) (g : α → β) :
    Blind fun value => (read value).map g :=
  fun f value => isSome_map_congr g (h f value)

theorem Blind.list {read : Json → Option α} (h : Blind read) : Blind (list? read) := by
  intro f value
  unfold list?
  rw [items?_mapTexts]
  refine isSome_bind_map_congr fun items => ?_
  induction items with
  | nil => rfl
  | cons item items ih =>
      rw [List.map_cons, List.mapM_cons, List.mapM_cons]
      exact isSome_bind_congr (h f item) fun _ _ => isSome_bind_congr ih fun _ _ => rfl

theorem blind_texts : Blind texts? := blind_text.list

theorem Blind.dict {read : Json → Option α} (h : Blind read) : Blind (dict? read) := by
  intro f value
  unfold dict?
  rw [members?_mapTexts]
  refine isSome_bind_map_congr fun members => isSome_bind_congr ?_ fun _ _ => rfl
  induction members with
  | nil => rfl
  | cons member members ih =>
      obtain ⟨k, v⟩ := member
      rw [mapMemberTexts, List.mapM_cons, List.mapM_cons]
      exact isSome_bind_congr (isSome_map_congr (k, ·) (h f v)) fun _ _ =>
        isSome_bind_congr ih fun _ _ => rfl

/-! ## Readers of fields -/

variable {fs : Members}

theorem Blind.required {read : Json → Option α} (h : Blind read) (name : String) :
    (required? (mapMemberTexts f fs) name read).isSome = (required? fs name read).isSome := by
  unfold required?
  rw [member?_mapMemberTexts]
  cases member? name fs with
  | none => rfl
  | some value => exact h f value

theorem Blind.fieldOr {read : Json → Option α} (h : Blind read) (name : String) (default : α) :
    (fieldOr? (mapMemberTexts f fs) name default read).isSome
      = (fieldOr? fs name default read).isSome := by
  unfold fieldOr?
  rw [member?_mapMemberTexts]
  cases member? name fs with
  | none => rfl
  | some value => exact h f value

theorem Blind.field {read : Json → Option α} (h : Blind read) (name : String) :
    (field? (mapMemberTexts f fs) name read).isSome = (field? fs name read).isSome :=
  h.optional.fieldOr name none

theorem blind_textField (name : String) :
    (text? (mapMemberTexts f fs) name).isSome = (text? fs name).isSome :=
  blind_text.field name

/-! ## Parts of a resource -/

theorem blind_parameter : Blind parameter? := by
  intro f value
  unfold parameter?
  rw [fields?_mapTexts]
  exact isSome_bind_map_congr fun fs =>
    isSome_bind_congr (blind_bool.field "required") fun _ _ =>
    isSome_bind_congr (blind_textField "description") fun _ _ =>
    isSome_bind_congr ((blind_scalar.optional.map some).fieldOr "default" none) fun _ _ => rfl

theorem blind_build : Blind build? := by
  intro f value
  unfold build?
  rw [fields?_mapTexts]
  exact isSome_bind_map_congr fun fs =>
    isSome_bind_congr (blind_textField "context") fun _ _ =>
    isSome_bind_congr (blind_textField "dockerfile") fun _ _ =>
    isSome_bind_congr (blind_textField "target") fun _ _ =>
    isSome_bind_congr (blind_text.dict.fieldOr "args" {}) fun _ _ => rfl

theorem blind_volume : Blind volume? := by
  intro f value
  unfold volume?
  rw [fields?_mapTexts]
  exact isSome_bind_map_congr fun fs =>
    isSome_bind_congr (blind_textField "mount_path") fun _ _ =>
    isSome_bind_congr (blind_textField "host_path") fun _ _ =>
    isSome_bind_congr (blind_textField "key") fun _ _ =>
    isSome_bind_congr (blind_textField "description") fun _ _ =>
    isSome_bind_congr (blind_textField "readonly") fun _ _ => rfl

theorem blind_interfaceOf : FieldsBlind interfaceOf? := fun _ _ =>
  isSome_bind_congr (blind_textField "description") fun _ _ =>
  isSome_bind_congr (blind_textField "host") fun _ _ =>
  isSome_bind_congr (blind_textField "port") fun _ _ =>
  isSome_bind_congr (blind_textField "protocol") fun _ _ =>
  isSome_bind_congr (blind_textField "username") fun _ _ =>
  isSome_bind_congr (blind_textField "password") fun _ _ =>
  isSome_bind_congr (blind_textField "url") fun _ _ =>
  isSome_bind_congr (blind_textField "sticky") fun _ _ => rfl

theorem blind_interface : Blind interface? := by
  intro f value
  unfold interface?
  rw [fields?_mapTexts]
  exact isSome_bind_map_congr (blind_interfaceOf f)

theorem blind_ingress : Blind ingress? := by
  intro f value
  unfold ingress?
  rw [fields?_mapTexts]
  exact isSome_bind_map_congr fun fs =>
    isSome_bind_congr (blind_bool.field "enabled") fun _ _ =>
    isSome_bind_congr (blind_textField "subdomain") fun _ _ => rfl

theorem blind_componentInterface : Blind componentInterface? := by
  intro f value
  unfold componentInterface?
  rw [members?_mapTexts]
  refine isSome_bind_map_congr fun members => ?_
  rw [known?_mapMemberTexts]
  exact isSome_bind_map_congr fun fs =>
    isSome_bind_congr (blind_interfaceOf f fs) fun _ _ =>
    isSome_bind_congr (blind_ingress.field "ingress") fun _ _ => rfl

theorem blind_probe : Blind probe? := by
  intro f value
  unfold probe?
  rw [fields?_mapTexts]
  exact isSome_bind_map_congr fun fs =>
    isSome_bind_congr (blind_textField "success_threshold") fun _ _ =>
    isSome_bind_congr (blind_textField "failure_threshold") fun _ _ =>
    isSome_bind_congr (blind_textField "timeout") fun _ _ =>
    isSome_bind_congr (blind_textField "interval") fun _ _ =>
    isSome_bind_congr (blind_textField "initial_delay") fun _ _ =>
    isSome_bind_congr (blind_textField "path") fun _ _ =>
    isSome_bind_congr (blind_textField "port") fun _ _ =>
    isSome_bind_congr (blind_texts.field "command") fun _ _ => rfl

theorem blind_metrics : Blind metrics? := by
  intro f value
  unfold metrics?
  rw [fields?_mapTexts]
  exact isSome_bind_map_congr fun fs =>
    isSome_bind_congr (blind_textField "cpu") fun _ _ =>
    isSome_bind_congr (blind_textField "memory") fun _ _ => rfl

theorem blind_scaling : Blind scaling? := by
  intro f value
  unfold scaling?
  rw [fields?_mapTexts]
  exact isSome_bind_map_congr fun fs =>
    isSome_bind_congr (blind_textField "min_replicas") fun _ _ =>
    isSome_bind_congr (blind_textField "max_replicas") fun _ _ =>
    isSome_bind_congr (blind_metrics.fieldOr "metrics" {}) fun _ _ => rfl

theorem blind_serviceExtension : FieldsBlind serviceExtension.read? := fun _ _ =>
  isSome_bind_congr (blind_interface.dict.fieldOr "interfaces" {}) fun _ _ =>
  isSome_bind_congr (blind_probe.field "liveness_probe") fun _ _ =>
  isSome_bind_congr (blind_textField "replicas") fun _ _ =>
  isSome_bind_congr (blind_scaling.field "scaling") fun _ _ => rfl

theorem blind_taskExtension : FieldsBlind taskExtension.read? := fun _ _ =>
  isSome_bind_congr (blind_textField "schedule") fun _ _ => rfl

/-! ## Resources -/

variable {X : Type} {extension : ExtensionReader X}

theorem blind_body (h : FieldsBlind extension.read?) : FieldsBlind (body? extension) := by
  intro f members
  unfold body?
  rw [known?_mapMemberTexts]
  exact isSome_bind_map_congr fun fs =>
    isSome_bind_congr (blind_text.required "name") fun _ _ =>
    isSome_bind_congr (blind_text.required "ref") fun _ _ =>
    isSome_bind_congr (blind_text.required "tag") fun _ _ =>
    isSome_bind_congr (blind_textField "description") fun _ _ =>
    isSome_bind_congr (blind_textField "image") fun _ _ =>
    isSome_bind_congr (blind_build.field "build") fun _ _ =>
    isSome_bind_congr (blind_texts.field "command") fun _ _ =>
    isSome_bind_congr (blind_texts.field "entrypoint") fun _ _ =>
    isSome_bind_congr (blind_text.dict.fieldOr "environment" {}) fun _ _ =>
    isSome_bind_congr (blind_volume.dict.fieldOr "volumes" {}) fun _ _ =>
    isSome_bind_congr (blind_textField "cpu") fun _ _ =>
    isSome_bind_congr (blind_textField "memory") fun _ _ =>
    isSome_bind_congr (blind_texts.fieldOr "depends_on" []) fun _ _ =>
    isSome_bind_congr (blind_text.dict.fieldOr "labels" {}) fun _ _ =>
    isSome_bind_congr (h f fs) fun _ _ => rfl

mutual

theorem isSome_resource? (h : FieldsBlind extension.read?) : ∀ value : Json,
    (resource? extension (mapTexts f value)).isSome = (resource? extension value).isSome
  | .object members => by
      rw [mapTexts, resource?, resource?]
      exact isSome_bind_congr (blind_body h f members) fun _ _ =>
        isSome_bind_congr (isSome_debugOf? h members) fun _ _ => rfl
  | .null => rfl
  | .bool _ => rfl
  | .int _ => rfl
  | .float _ => rfl
  | .string _ => rfl
  | .array _ => rfl

theorem isSome_debugOf? (h : FieldsBlind extension.read?) : ∀ members : Members,
    (debugOf? extension (mapMemberTexts f members)).isSome = (debugOf? extension members).isSome
  | [] => rfl
  | (k, v) :: rest => by
      have hdebug := isSome_map_congr some (isSome_resource? h v)
      have hrest := isSome_debugOf? h rest
      unfold debugOf? mapMemberTexts
      by_cases hk : k = "debug"
      · simp only [if_pos hk]
        cases v with
        | null => rfl
        | bool | int | float | string | array | object => exact hdebug
      · simp only [if_neg hk]
        exact hrest

end

theorem blind_service : Blind service? := fun _ => isSome_resource? blind_serviceExtension

theorem blind_task : Blind task? := fun _ => isSome_resource? blind_taskExtension

/-! ## Components -/

theorem member?_filter_eq_none {name : String} {p : String → Bool} : ∀ {members : Members},
    member? name members = none → member? name (members.filter fun (k, _) => p k) = none
  | [], _ => rfl
  | (k, v) :: rest, h => by
      rw [member?] at h
      split at h
      · cases h
      · next hne =>
          simp only [List.filter_cons]
          split
          · rw [member?, if_neg hne]
            exact member?_filter_eq_none h
          · exact member?_filter_eq_none h

theorem member?_eq_none_of_known? {name : String} {names : List String} {members : Members}
    (h : member? name members = none) (hknown : known? names members = some fs) :
    member? name fs = none := by
  simp only [known?] at hknown
  split at hknown
  · rw [← Option.some.inj hknown]
    exact member?_filter_eq_none h
  · cases hknown

/-- What is left out is left out also with other texts around it. -/
theorem isSome_field?_of_missing {name : String} {read : Json → Option α}
    (h : member? name fs = none) :
    (field? (mapMemberTexts f fs) name read).isSome = (field? fs name read).isSome := by
  unfold field? fieldOr?
  rw [member?_mapMemberTexts, h]
  rfl

/-- Whether a component without a date can be read does not depend on its
texts. -/
theorem isSome_component? {members : Members} (hdate : member? "instance_date" members = none) :
    (component? (.object (mapMemberTexts f members))).isSome
      = (component? (.object members)).isSome := by
  unfold component?
  rw [fields?, known?_mapMemberTexts, fields?]
  cases hknown : known? _ members with
  | none => rfl
  | some fs =>
      rw [Option.map_some, Option.bind_eq_bind, Option.bind_eq_bind, Option.bind_some,
        Option.bind_some]
      exact isSome_bind_congr (blind_text.required "name") fun _ _ =>
        isSome_bind_congr (blind_text.required "tag") fun _ _ =>
        isSome_bind_congr (blind_text.required "ref") fun _ _ =>
        isSome_bind_congr (blind_textField "instance_id") fun _ _ =>
        isSome_bind_congr (blind_textField "instance_name") fun _ _ =>
        isSome_bind_congr
          (isSome_field?_of_missing (member?_eq_none_of_known? hdate hknown)) fun _ _ =>
        isSome_bind_congr (blind_textField "extends") fun _ _ =>
        isSome_bind_congr (blind_textField "local_path") fun _ _ =>
        isSome_bind_congr (blind_textField "description") fun _ _ =>
        isSome_bind_congr (blind_texts.fieldOr "keywords" []) fun _ _ =>
        isSome_bind_congr (blind_textField "author") fun _ _ =>
        isSome_bind_congr (blind_textField "homepage") fun _ _ =>
        isSome_bind_congr (blind_parameter.dict.fieldOr "parameters" {}) fun _ _ =>
        isSome_bind_congr (blind_service.dict.fieldOr "services" {}) fun _ _ =>
        isSome_bind_congr (blind_task.dict.fieldOr "tasks" {}) fun _ _ =>
        isSome_bind_congr (blind_text.dict.fieldOr "dependencies" {}) fun _ _ =>
        isSome_bind_congr (blind_componentInterface.dict.fieldOr "interfaces" {}) fun _ _ => rfl

end Manifest.Config.Reader
