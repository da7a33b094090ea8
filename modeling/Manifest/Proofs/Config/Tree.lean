import Manifest.Config.Tree
import Manifest.Config.Reader
import Manifest.Proofs.Json.Sorted
/-!
# The JSON of a config

No object in the JSON of a config has a member twice: each is made of fields
with names of their own (`Fields`), or of the entries of a dictionary. What is
written in a part of a config is among the texts of the whole.
-/

namespace Manifest.Config

open Json (Members Distinct MembersDistinct distinct_string distinct_bool memberTexts
  mem_memberTexts memberTexts_append)

/-! ## Fields -/

/-- Members with some of the names, in their order, and with no name twice
further down. -/
structure Fields (names : List String) (members : Members) : Prop where
  names : (members.map Prod.fst).Sublist names
  distinct : MembersDistinct members

namespace Fields

variable {names more : List String} {members others : Members}

theorem nil : Fields [] [] := ⟨List.Sublist.refl _, trivial⟩

theorem cons (name : String) {value : Json} (hvalue : Distinct value) (h : Fields names members) :
    Fields (name :: names) ((name, value) :: members) :=
  ⟨h.names.cons_cons name, hvalue, h.distinct⟩

theorem one (name : String) {value : Json} (h : Distinct value) : Fields [name] [(name, value)] :=
  .cons name h .nil

theorem none (name : String) : Fields [name] [] := ⟨List.nil_sublist _, trivial⟩

theorem append (h : Fields names members) (h' : Fields more others) :
    Fields (names ++ more) (members ++ others) where
  names := by
    rw [List.map_append]
    exact h.names.append h'.names
  distinct := by
    rw [Json.membersDistinct_iff, List.forall_mem_append]
    exact ⟨Json.membersDistinct_iff.mp h.distinct, Json.membersDistinct_iff.mp h'.distinct⟩

theorem object (h : Fields names members) (hnames : names.Nodup) : Distinct (.object members) :=
  ⟨h.names.nodup hnames, h.distinct⟩

end Fields

/-- The value is an object of such members. -/
def Record (names : List String) (value : Json) : Prop :=
  ∃ members, value = .object members ∧ Fields names members

theorem Fields.record {names : List String} {members : Members} (h : Fields names members) :
    Record names (.object members) := ⟨members, rfl, h⟩

theorem Record.distinct {names : List String} {value : Json} (h : Record names value)
    (hnames : names.Nodup) : Distinct value := by
  obtain ⟨members, rfl, hfields⟩ := h
  exact hfields.object hnames

variable {α : Type}

theorem fields_optional {encode : α → Json} (h : ∀ value, Distinct (encode value)) (name : String)
    (value : Option α) : Fields [name] (optional name encode value) := by
  cases value with
  | none => exact .none name
  | some value => exact .one name (h value)

theorem fields_text (name : String) (value : Option String) :
    Fields [name] (optionalText name value) :=
  fields_optional distinct_string name value

theorem distinct_ofTexts : ∀ texts : List String, Distinct (.ofTexts texts)
  | [] => trivial
  | _ :: rest => ⟨trivial, distinct_ofTexts rest⟩

theorem distinct_dictJson {encode : α → Json} (h : ∀ value, Distinct (encode value))
    (d : Dict α) : Distinct (dictJson encode d) := by
  refine ⟨?_, Json.membersDistinct_iff.mpr fun member hmem => ?_⟩
  · simpa [List.map_map, Function.comp_def] using d.nodup
  · obtain ⟨entry, -, rfl⟩ := List.mem_map.mp hmem
    exact h entry.2

theorem distinct_textDict (d : Dict String) : Distinct (dictJson .string d) :=
  distinct_dictJson distinct_string d

theorem fields_textsUnlessEmpty (name : String) (texts : List String) :
    Fields [name] (textsUnlessEmpty name texts) := by
  unfold textsUnlessEmpty
  split
  · exact .none name
  · exact .one name (distinct_ofTexts texts)

theorem fields_dictUnlessEmpty (name : String) (d : Dict String) :
    Fields [name] (dictUnlessEmpty name d) := by
  unfold dictUnlessEmpty
  split
  · exact .none name
  · exact .one name (distinct_textDict d)

/-! ## No member twice -/

theorem distinct_scalar (value : Scalar) : Distinct value.toJson := by
  cases value <;> trivial

theorem Parameter.record_toJson (p : Parameter) : Record
    ["required", "description", "default"] p.toJson := by
  have hdefault : ∀ value : Option Scalar, Distinct ((value.map Scalar.toJson).getD .null) := by
    intro value
    cases value with
    | none => trivial
    | some value => exact distinct_scalar value
  have hfields := fields_optional distinct_bool "required" p.required
    |>.append (fields_text "description" p.description)
    |>.append (fields_optional hdefault "default" p.default)
  exact hfields.record

theorem Parameter.distinct_toJson (p : Parameter) : Distinct p.toJson :=
  p.record_toJson.distinct (by decide)

theorem Build.record_toJson (b : Build) : Record
    ["context", "dockerfile", "target", "args"] b.toJson := by
  have hfields := fields_text "context" b.context
    |>.append (fields_text "dockerfile" b.dockerfile)
    |>.append (fields_text "target" b.target)
    |>.append (fields_dictUnlessEmpty "args" b.args)
  exact hfields.record

theorem Build.distinct_toJson (b : Build) : Distinct b.toJson :=
  b.record_toJson.distinct (by decide)

theorem Volume.record_toJson (v : Volume) : Record
    ["mount_path", "host_path", "key", "description", "readonly"] v.toJson := by
  have hfields := fields_text "mount_path" v.mountPath
    |>.append (fields_text "host_path" v.hostPath)
    |>.append (fields_text "key" v.key)
    |>.append (fields_text "description" v.description)
    |>.append (fields_text "readonly" v.readonly)
  exact hfields.record

theorem Volume.distinct_toJson (v : Volume) : Distinct v.toJson :=
  v.record_toJson.distinct (by decide)

theorem Interface.fields_members (i : Interface) : Fields Reader.interfaceNames i.members :=
  fields_text "description" i.description
    |>.append (fields_text "host" i.host)
    |>.append (fields_text "port" i.port)
    |>.append (fields_text "protocol" i.protocol)
    |>.append (fields_text "username" i.username)
    |>.append (fields_text "password" i.password)
    |>.append (fields_text "url" i.url)
    |>.append (fields_text "sticky" i.sticky)

theorem Interface.record_toJson (i : Interface) : Record Reader.interfaceNames i.toJson :=
  i.fields_members.record

theorem Interface.distinct_toJson (i : Interface) : Distinct i.toJson :=
  i.record_toJson.distinct (by decide)

theorem Ingress.record_toJson (i : Ingress) : Record ["enabled", "subdomain"] i.toJson := by
  have hfields := fields_optional distinct_bool "enabled" i.enabled
    |>.append (fields_text "subdomain" i.subdomain)
  exact hfields.record

theorem Ingress.distinct_toJson (i : Ingress) : Distinct i.toJson :=
  i.record_toJson.distinct (by decide)

theorem ComponentInterface.record_toJson (i : ComponentInterface) :
    Record (Reader.interfaceNames ++ ["ingress"]) i.toJson := by
  have hfields := i.interface.fields_members
    |>.append (fields_optional Ingress.distinct_toJson "ingress" i.ingress)
  exact hfields.record

theorem ComponentInterface.distinct_toJson (i : ComponentInterface) : Distinct i.toJson :=
  i.record_toJson.distinct (by decide)

theorem Probe.record_toJson (p : Probe) : Record
    ["success_threshold", "failure_threshold", "timeout", "interval",
    "initial_delay", "path", "port", "command"] p.toJson := by
  have hfields := fields_text "success_threshold" p.successThreshold
    |>.append (fields_text "failure_threshold" p.failureThreshold)
    |>.append (fields_text "timeout" p.timeout)
    |>.append (fields_text "interval" p.interval)
    |>.append (fields_text "initial_delay" p.initialDelay)
    |>.append (fields_text "path" p.path)
    |>.append (fields_text "port" p.port)
    |>.append (fields_optional distinct_ofTexts "command" p.command)
  exact hfields.record

theorem Probe.distinct_toJson (p : Probe) : Distinct p.toJson :=
  p.record_toJson.distinct (by decide)

theorem Metrics.record_toJson (m : Metrics) : Record ["cpu", "memory"] m.toJson := by
  have hfields := fields_text "cpu" m.cpu
    |>.append (fields_text "memory" m.memory)
  exact hfields.record

theorem Metrics.distinct_toJson (m : Metrics) : Distinct m.toJson :=
  m.record_toJson.distinct (by decide)

theorem Scaling.record_toJson (s : Scaling) : Record
    ["min_replicas", "max_replicas", "metrics"] s.toJson := by
  have hfields := fields_text "min_replicas" s.minReplicas
    |>.append (fields_text "max_replicas" s.maxReplicas)
    |>.append (.one "metrics" s.metrics.distinct_toJson)
  exact hfields.record

theorem Scaling.distinct_toJson (s : Scaling) : Distinct s.toJson :=
  s.record_toJson.distinct (by decide)

/-- The names of the fields of a resource before its debug block. -/
def bodyNames : List String :=
  ["name", "ref", "tag", "description", "image", "build", "command", "entrypoint", "environment",
    "volumes", "cpu", "memory", "depends_on", "labels"]

theorem Body.fields_members {X : Type} (b : Body X) : Fields bodyNames b.members := by
  have hidentity : Fields ["name", "ref", "tag"]
      [("name", .string b.identity.name), ("ref", .string b.identity.reference),
        ("tag", .string b.identity.tag)] :=
    .cons "name" (distinct_string _) (.cons "ref" (distinct_string _)
      (.one "tag" (distinct_string _)))
  have hdicts : Fields ["environment", "volumes"]
      [("environment", dictJson .string b.environment),
        ("volumes", dictJson Volume.toJson b.volumes)] :=
    .cons "environment" (distinct_textDict b.environment)
      (.one "volumes" (distinct_dictJson Volume.distinct_toJson b.volumes))
  exact hidentity
    |>.append (fields_text "description" b.description)
    |>.append (fields_text "image" b.image)
    |>.append (fields_optional Build.distinct_toJson "build" b.build)
    |>.append (fields_optional distinct_ofTexts "command" b.command)
    |>.append (fields_optional distinct_ofTexts "entrypoint" b.entrypoint)
    |>.append hdicts
    |>.append (fields_text "cpu" b.cpu)
    |>.append (fields_text "memory" b.memory)
    |>.append (fields_textsUnlessEmpty "depends_on" b.dependsOn)
    |>.append (fields_dictUnlessEmpty "labels" b.labels)

theorem ServiceExtension.fields_members (x : ServiceExtension) :
    Fields Reader.serviceExtension.names x.members :=
  Fields.one "interfaces" (distinct_dictJson Interface.distinct_toJson x.interfaces)
    |>.append (fields_optional Probe.distinct_toJson "liveness_probe" x.probe)
    |>.append (fields_text "replicas" x.replicas)
    |>.append (fields_optional Scaling.distinct_toJson "scaling" x.scaling)

theorem TaskExtension.fields_members (x : TaskExtension) :
    Fields Reader.taskExtension.names x.members :=
  fields_text "schedule" x.schedule

section Resources

variable {X : Type} {extension : X → Members} {names : List String}

theorem Resource.record_of_debug (h : ∀ x, Fields names (extension x)) (r : Resource X)
    (hdebug : ∀ debug, r.debug = some debug → Distinct (debug.toJson extension)) :
    Record (bodyNames ++ ["debug"] ++ names) (r.toJson extension) := by
  rcases r with ⟨body, _ | debug⟩
  · have hfields := body.fields_members.append (.none "debug") |>.append (h body.extension)
    rw [List.append_nil] at hfields
    exact hfields.record
  · have hfields := body.fields_members.append (.one "debug" (hdebug debug rfl))
      |>.append (h body.extension)
    exact hfields.record

theorem Resource.distinct_toJson (h : ∀ x, Fields names (extension x))
    (hnames : (bodyNames ++ ["debug"] ++ names).Nodup) :
    ∀ r : Resource X, Distinct (r.toJson extension)
  | ⟨body, none⟩ =>
      (Resource.record_of_debug h ⟨body, none⟩ fun _ hdebug => by cases hdebug).distinct hnames
  | ⟨body, some debug⟩ => by
      have hdebug := Resource.distinct_toJson h hnames debug
      refine (Resource.record_of_debug h ⟨body, some debug⟩ fun other hother => ?_).distinct hnames
      obtain rfl := Option.some.inj hother
      exact hdebug

theorem Resource.record_toJson (h : ∀ x, Fields names (extension x))
    (hnames : (bodyNames ++ ["debug"] ++ names).Nodup) (r : Resource X) :
    Record (bodyNames ++ ["debug"] ++ names) (r.toJson extension) :=
  r.record_of_debug h fun debug _ => debug.distinct_toJson h hnames

end Resources

/-- The dictionaries of a config. -/
def Component.dictMembers (c : Component) : Members :=
  [("parameters", dictJson Parameter.toJson c.parameters),
    ("services", dictJson serviceJson c.services), ("tasks", dictJson taskJson c.tasks),
    ("dependencies", dictJson .string c.dependencies),
    ("interfaces", dictJson ComponentInterface.toJson c.interfaces)]

/-- The names of the fields of a config; a date is there only if it is set. -/
def Component.fieldNames (c : Component) : List String :=
  ["name", "tag", "ref", "instance_id", "instance_name"]
    ++ (if c.instanceDate.isSome then ["instance_date"] else [])
    ++ ["extends", "local_path", "description", "keywords", "author", "homepage", "parameters",
      "services", "tasks", "dependencies", "interfaces"]

theorem Component.exists_fields (c : Component) :
    ∃ members, c.toJson = .object members ∧ Fields c.fieldNames members := by
  have hservice : ∀ s : Service, Distinct (serviceJson s) :=
    Resource.distinct_toJson ServiceExtension.fields_members (by decide)
  have htask : ∀ t : Task, Distinct (taskJson t) :=
    Resource.distinct_toJson TaskExtension.fields_members (by decide)
  have hdate : Fields (if c.instanceDate.isSome then ["instance_date"] else [])
      (optional "instance_date" (fun t => .string t.text) c.instanceDate) := by
    cases c.instanceDate with
    | none => exact .nil
    | some t => exact .one "instance_date" (distinct_string t.text)
  have hdicts : Fields ["parameters", "services", "tasks", "dependencies", "interfaces"]
      c.dictMembers :=
    .cons _ (distinct_dictJson Parameter.distinct_toJson c.parameters)
      (.cons _ (distinct_dictJson hservice c.services)
        (.cons _ (distinct_dictJson htask c.tasks)
          (.cons _ (distinct_textDict c.dependencies)
            (.one _ (distinct_dictJson ComponentInterface.distinct_toJson c.interfaces)))))
  have hnamed := Fields.cons "name" (distinct_string c.name) (.cons "tag" (distinct_string c.tag)
    (.one "ref" (distinct_string c.reference)))
  have hfields := hnamed
    |>.append (fields_text "instance_id" c.instanceId)
    |>.append (fields_text "instance_name" c.instanceName)
    |>.append hdate
    |>.append (fields_text "extends" c.parent)
    |>.append (fields_text "local_path" c.localParent)
    |>.append (fields_text "description" c.description)
    |>.append (fields_textsUnlessEmpty "keywords" c.keywords)
    |>.append (fields_text "author" c.author)
    |>.append (fields_text "homepage" c.homepage)
    |>.append hdicts
  refine ⟨_, rfl, hfields.names.trans ?_, hfields.distinct⟩
  simp [fieldNames]

/-- No object in the JSON of a config has two members of one name. -/
theorem Component.distinct_toJson (c : Component) : Distinct c.toJson := by
  obtain ⟨members, heq, hfields⟩ := c.exists_fields
  rw [heq]
  refine hfields.object ?_
  rw [fieldNames]
  cases c.instanceDate.isSome <;> decide

/-- A config without a date has none in its JSON. -/
theorem Component.field?_instanceDate {c : Component} (h : c.instanceDate = none) :
    c.toJson.field? "instance_date" = none := by
  obtain ⟨members, heq, hfields⟩ := c.exists_fields
  rw [heq]
  refine Json.member?_eq_none_iff.mpr fun hmem => ?_
  have hname := hfields.names.subset hmem
  rw [fieldNames, h] at hname
  revert hname
  decide

/-! ## Where texts come from -/

theorem texts_subset_of_mem {members : Members} {name : String} {value : Json}
    (h : (name, value) ∈ members) : value.texts ⊆ memberTexts members :=
  fun _ htext => mem_memberTexts.mpr ⟨name, value, h, htext⟩

theorem texts_subset_dictJson {encode : α → Json} {d : Dict α} {key : String} {value : α}
    (h : (key, value) ∈ d.entries) : (encode value).texts ⊆ (dictJson encode d).texts :=
  texts_subset_of_mem (List.mem_map.mpr ⟨(key, value), h, rfl⟩)

theorem mem_optional {encode : α → Json} {value : Option α} {v : α} (h : value = some v)
    (name : String) : (name, encode v) ∈ optional name encode value := by
  rw [h]
  exact List.mem_singleton.mpr rfl

theorem Parameter.mem_texts_default {p : Parameter} {text : String}
    (h : p.default = some (some (.string text))) : text ∈ p.toJson.texts := by
  have hmem : ("default", Json.string text) ∈ optional "default"
      (fun v => (v.map Scalar.toJson).getD .null) p.default :=
    mem_optional h "default"
  exact texts_subset_of_mem (List.mem_append_right _ hmem) (List.mem_singleton.mpr rfl)

/-- The texts of an interface that a context shows. -/
theorem Interface.mem_memberTexts {i : Interface} {text : String}
    (h : some text ∈ [i.host, i.port, i.protocol, i.username, i.password, i.url]) :
    text ∈ memberTexts i.members := by
  have hfield : ∃ name, (name, Json.string text) ∈ i.members := by
    simp only [List.mem_cons, List.not_mem_nil, or_false] at h
    rcases h with h | h | h | h | h | h
    · exact ⟨"host", by simp [Interface.members, optionalText, optional, ← h]⟩
    · exact ⟨"port", by simp [Interface.members, optionalText, optional, ← h]⟩
    · exact ⟨"protocol", by simp [Interface.members, optionalText, optional, ← h]⟩
    · exact ⟨"username", by simp [Interface.members, optionalText, optional, ← h]⟩
    · exact ⟨"password", by simp [Interface.members, optionalText, optional, ← h]⟩
    · exact ⟨"url", by simp [Interface.members, optionalText, optional, ← h]⟩
  obtain ⟨name, hname⟩ := hfield
  exact texts_subset_of_mem hname (List.mem_singleton.mpr rfl)

theorem Body.mem_memberTexts {X : Type} {b : Body X} {key text : String}
    (h : (key, text) ∈ b.environment.entries) : text ∈ memberTexts b.members := by
  have henvironment : ("environment", dictJson .string b.environment) ∈ b.members := by
    simp [Body.members]
  have htext : text ∈ (dictJson .string b.environment).texts :=
    texts_subset_dictJson h (List.mem_singleton.mpr rfl)
  exact texts_subset_of_mem henvironment htext

theorem Resource.memberTexts_subset {X : Type} (extension : X → Members) (r : Resource X) :
    memberTexts r.body.members ++ memberTexts (extension r.body.extension)
      ⊆ (r.toJson extension).texts := by
  rcases r with ⟨body, _ | debug⟩ <;> intro text htext
  · rw [Resource.toJson, Json.texts, memberTexts_append]
    exact htext
  · rw [Resource.toJson, Json.texts, memberTexts_append, memberTexts_append]
    exact (List.mem_append.mp htext).elim
      (fun h => List.mem_append_left _ (List.mem_append_left _ h))
      fun h => List.mem_append_right _ h

theorem mem_texts_environment {X : Type} {extension : X → Members} {r : Resource X}
    {key text : String} (h : (key, text) ∈ r.body.environment.entries) :
    text ∈ (r.toJson extension).texts :=
  r.memberTexts_subset extension (List.mem_append_left _ (Body.mem_memberTexts h))

theorem mem_texts_serviceInterface {s : Service} {key text : String} {i : Interface}
    (hentry : (key, i) ∈ s.body.extension.interfaces.entries)
    (h : some text ∈ [i.host, i.port, i.protocol, i.username, i.password, i.url]) :
    text ∈ (serviceJson s).texts := by
  have hinterfaces : ("interfaces", dictJson Interface.toJson s.body.extension.interfaces)
      ∈ s.body.extension.members := by
    simp [ServiceExtension.members]
  refine s.memberTexts_subset ServiceExtension.members (List.mem_append_right _ ?_)
  exact texts_subset_of_mem hinterfaces
    (texts_subset_dictJson hentry (Interface.mem_memberTexts h))

theorem ComponentInterface.mem_texts {i : ComponentInterface} {text : String}
    (h : some text ∈ [i.interface.host, i.interface.port, i.interface.protocol,
      i.interface.username, i.interface.password, i.interface.url]) : text ∈ i.toJson.texts := by
  rw [ComponentInterface.toJson, Json.texts, memberTexts_append]
  exact List.mem_append_left _ (Interface.mem_memberTexts h)

theorem ComponentInterface.mem_texts_subdomain {i : ComponentInterface} {text : String}
    (h : i.ingress.bind Ingress.subdomain = some text) : text ∈ i.toJson.texts := by
  obtain ⟨ingress, hingress, hsubdomain⟩ := Option.bind_eq_some_iff.mp h
  have hmem : ("ingress", ingress.toJson) ∈ optional "ingress" Ingress.toJson i.ingress :=
    mem_optional hingress "ingress"
  have hinner : ("subdomain", Json.string text) ∈ optionalText "subdomain" ingress.subdomain :=
    mem_optional hsubdomain "subdomain"
  refine texts_subset_of_mem (List.mem_append_right _ hmem) ?_
  exact texts_subset_of_mem (List.mem_append_right _ hinner) (List.mem_singleton.mpr rfl)

namespace Component

variable {c : Component} {key : String}

theorem texts_dict_subset {name : String} {value : Json} (h : (name, value) ∈ c.dictMembers) :
    value.texts ⊆ c.toJson.texts :=
  texts_subset_of_mem (List.mem_append_right _ h)

theorem texts_parameter_subset {p : Parameter} (h : (key, p) ∈ c.parameters.entries) :
    p.toJson.texts ⊆ c.toJson.texts := by
  have hdict : ("parameters", dictJson Parameter.toJson c.parameters) ∈ c.dictMembers := by
    simp [dictMembers]
  exact List.Subset.trans (texts_subset_dictJson h) (texts_dict_subset hdict)

theorem texts_service_subset {s : Service} (h : (key, s) ∈ c.services.entries) :
    (serviceJson s).texts ⊆ c.toJson.texts := by
  have hdict : ("services", dictJson serviceJson c.services) ∈ c.dictMembers := by
    simp [dictMembers]
  exact List.Subset.trans (texts_subset_dictJson h) (texts_dict_subset hdict)

theorem texts_task_subset {t : Task} (h : (key, t) ∈ c.tasks.entries) :
    (taskJson t).texts ⊆ c.toJson.texts := by
  have hdict : ("tasks", dictJson taskJson c.tasks) ∈ c.dictMembers := by
    simp [dictMembers]
  exact List.Subset.trans (texts_subset_dictJson h) (texts_dict_subset hdict)

theorem texts_interface_subset {i : ComponentInterface} (h : (key, i) ∈ c.interfaces.entries) :
    i.toJson.texts ⊆ c.toJson.texts := by
  have hdict : ("interfaces", dictJson ComponentInterface.toJson c.interfaces) ∈ c.dictMembers := by
    simp [dictMembers]
  exact List.Subset.trans (texts_subset_dictJson h) (texts_dict_subset hdict)

end Component

end Manifest.Config
