import Manifest.Proofs.Context.Interfaces
import Manifest.Proofs.Schema.Keys
/-!
# Paths through a context

The context of a component is made of objects, texts and nulls. Where the keys of the
config are bare so are the keys of these objects (`keyed_ofComponent`), since all others
are names of fields, and texts may be replaced without changing a key
(`Keyed.replaceTexts`). A path that leads somewhere in such a value is made of bare keys
(`Keyed.isBare_of_walk`), and there are no lists in which a key would be a position.
-/

namespace Manifest

open ReferencePath (IsBare)

/-- The keys that a config gives to its context are bare. -/
structure Config.Component.BareKeys (c : Component) : Prop where
  parameters : ∀ key ∈ c.parameters.keys, IsBare key
  dependencies : ∀ key ∈ c.dependencies.keys, IsBare key
  interfaces : ∀ key ∈ c.interfaces.keys, IsBare key
  services : ∀ key ∈ c.services.keys, IsBare key
  tasks : ∀ key ∈ c.tasks.keys, IsBare key
  serviceInterfaces : ∀ key s, c.services.get? key = some s →
    ∀ name ∈ s.body.extension.interfaces.keys, IsBare name
  serviceEnvironments : ∀ key s, c.services.get? key = some s →
    ∀ name ∈ s.body.environment.keys, IsBare name
  taskEnvironments : ∀ key t, c.tasks.get? key = some t →
    ∀ name ∈ t.body.environment.keys, IsBare name

namespace Context

open Json (Members member? updateMember)

/-- Texts and nulls in objects with bare keys. -/
inductive Keyed : Json → Prop where
  | object {members : Members} (keys : ∀ member ∈ members, IsBare member.1)
      (values : ∀ member ∈ members, Keyed member.2) : Keyed (.object members)
  | string (text : String) : Keyed (.string text)
  | null : Keyed .null

/-! ## Paths -/

/-- A path that leads somewhere in a keyed value is made of bare keys. -/
theorem Keyed.isBare_of_walk {value found : Json} {path : List String} (h : Keyed value)
    (hfound : walk value path = some found) : ∀ key ∈ path, IsBare key := by
  induction path generalizing value with
  | nil => exact fun _ hkey => absurd hkey List.not_mem_nil
  | cons key path ih =>
      rw [walk_cons] at hfound
      obtain ⟨child, hchild, hrest⟩ := Option.bind_eq_some_iff.mp hfound
      cases h with
      | object keys values =>
          have hmem := mem_of_member? hchild
          exact List.forall_mem_cons.mpr ⟨keys _ hmem, ih (values _ hmem) hrest⟩
      | string | null => cases hchild

theorem Keyed.isBare_of_lookup? {c : Context} {path : List String} {found : Json}
    (h : Keyed c.toJson) (hfound : c.lookup? path = some found) :
    path ≠ [] ∧ ∀ key ∈ path, IsBare key := by
  cases path with
  | nil => cases hfound
  | cons key path => exact ⟨List.cons_ne_nil _ _, h.isBare_of_walk hfound⟩

/-! ## Objects that are put in order -/

theorem Keyed.sorted {value : Json} (h : Keyed value) : Keyed value.sorted := by
  induction h with
  | object keys _ ih =>
      rw [Json.sorted]
      refine .object (fun member hmember => ?_) fun member hmember => ?_
      all_goals
        rcases Json.mem_sortedMembers hmember with hnone | ⟨given, hgiven, rfl⟩
        · cases hnone
      · exact keys given hgiven
      · exact ih given hgiven
  | string text => exact .string text
  | null => exact .null

theorem keyed_membersOf {members : Members} (keys : ∀ member ∈ members, IsBare member.1)
    (values : ∀ member ∈ members, Keyed member.2) : Keyed (membersOf members) :=
  (Keyed.object keys values).sorted

theorem keyed_dictJson {α : Type} {encode : String → α → Json} {d : Dict α}
    (hkeys : ∀ key ∈ d.keys, IsBare key)
    (hvalues : ∀ key value, d.get? key = some value → Keyed (encode key value)) :
    Keyed (dictJson encode d) := by
  refine keyed_membersOf ?_ ?_
  · rw [List.forall_mem_map]
    exact fun entry hentry => hkeys entry.1 (List.mem_map_of_mem hentry)
  · rw [List.forall_mem_map]
    exact fun entry hentry => hvalues entry.1 entry.2 (Dict.get?_eq_some_iff.mpr hentry)

/-! ## What a component shows -/

variable {c : Config.Component} {dependencies : Dependencies} {maxRefLength : Nat} {mode : Mode}
  {context : Context}

theorem isBare_interfaceField {field : String} (h : field ∈ interfaceFields) : IsBare field := by
  revert field
  decide

theorem keyed_parameterJson (mode : Mode) (p : Config.Parameter) :
    Keyed (parameterJson mode p) := by
  rcases parameterJson_eq_string_or_null mode p with ⟨text, h⟩ | h
  · exact h ▸ .string text
  · exact h ▸ .null

theorem keyed_interfaceJson (host : String) (i : Config.Interface) :
    Keyed (interfaceJson host i) := by
  rw [interfaceJson_eq]
  refine keyed_membersOf ?_ ?_
  · rw [List.forall_mem_map]
    intro field hfield
    have hname := List.mem_map_of_mem (f := Prod.fst) hfield
    rw [names_shown] at hname
    exact isBare_interfaceField hname
  · rw [List.forall_mem_map]
    exact fun field _ => .string field.2

theorem keyed_environmentJson {environment : Dict String}
    (h : ∀ key ∈ environment.keys, IsBare key) : Keyed (environmentJson environment) :=
  keyed_dictJson h fun _ value _ => .string value

theorem keyed_serviceJson {instanceId : Option String} {s : Config.Service} {value : Json}
    (hinterfaces : ∀ key ∈ s.body.extension.interfaces.keys, IsBare key)
    (henvironment : ∀ key ∈ s.body.environment.keys, IsBare key)
    (h : serviceJson instanceId maxRefLength s = .ok value) : Keyed value := by
  rw [serviceJson_eq] at h
  obtain ⟨host, -, rfl⟩ := ok_of_map_eq_ok h
  refine keyed_membersOf ?_ ?_
  · rw [List.forall_mem_cons, List.forall_mem_singleton]
    dsimp only
    decide
  · rw [List.forall_mem_cons, List.forall_mem_singleton]
    exact ⟨keyed_environmentJson henvironment,
      keyed_dictJson hinterfaces fun _ i _ => keyed_interfaceJson host i⟩

theorem keyed_taskJson {t : Config.Task} (h : ∀ key ∈ t.body.environment.keys, IsBare key) :
    Keyed (taskJson t) := by
  refine .object ?_ ?_
  · rw [List.forall_mem_singleton]
    dsimp only
    decide
  · rw [List.forall_mem_singleton]
    exact keyed_environmentJson h

theorem keyed_ingressJson (i : Config.ComponentInterface) : Keyed (ingressJson i) := by
  refine keyed_membersOf ?_ ?_
  · rw [List.forall_mem_cons, List.forall_mem_cons, List.forall_mem_singleton]
    dsimp only
    decide
  · rw [List.forall_mem_cons, List.forall_mem_cons, List.forall_mem_singleton]
    exact ⟨.string _, .string _, .string _⟩

theorem keyed_exposed (h : Keyed context.toJson) : Keyed context.exposed.toJson := by
  cases h with
  | object keys values =>
      exact .object (fun member hmember => keys member (List.mem_of_mem_filter hmember))
        fun member hmember => values member (List.mem_of_mem_filter hmember)

theorem keyed_visible (hkeys : ∀ key ∈ c.dependencies.keys, IsBare key)
    (hdependencies : ∀ name own, dependencies.get? name = some own → Keyed own.toJson) :
    Keyed (visible c dependencies) := by
  refine keyed_dictJson (fun key hkey => ?_) fun key own hown => ?_
  · exact hkeys key (Dict.keys_filterMapValues_subset _ _ hkey)
  · rw [Dict.get?_filterMapValues] at hown
    obtain ⟨tag, -, hfound⟩ := Option.bind_eq_some_iff.mp hown
    exact keyed_exposed (hdependencies key own hfound)

/-- Where the keys of a config are bare so are the keys of its context. -/
theorem keyed_ofComponent (hc : c.BareKeys)
    (hdependencies : ∀ name own, dependencies.get? name = some own → Keyed own.toJson)
    (h : ofComponent c dependencies maxRefLength mode = .ok context) : Keyed context.toJson := by
  obtain ⟨services, hservices, rfl⟩ := exists_of_ofComponent h
  have hkeys : ∀ member ∈ services, IsBare member.1 := by
    have hnames : ∀ key ∈ services.map Prod.fst, IsBare key :=
      names_serviceMembers hservices ▸ hc.services
    exact fun member hmember => hnames member.1 (List.mem_map_of_mem hmember)
  have hvalues : ∀ member ∈ services, Keyed member.2 := by
    intro member hmember
    obtain ⟨s, hs, hvalue⟩ := mem_serviceMembers hservices hmember
    have hfound := Dict.get?_eq_some_iff.mpr hs
    exact keyed_serviceJson (hc.serviceInterfaces _ s hfound) (hc.serviceEnvironments _ s hfound)
      hvalue
  refine .object ?_ ?_
  · simp only [namespaces, List.forall_mem_cons, List.not_mem_nil, false_implies, implies_true]
    decide
  · simp only [namespaces, List.forall_mem_cons, List.not_mem_nil, false_implies, implies_true,
      and_true]
    exact ⟨keyed_visible hc.dependencies hdependencies,
      keyed_dictJson hc.interfaces fun _ i _ => keyed_ingressJson i,
      keyed_dictJson hc.interfaces fun _ i _ => keyed_interfaceJson "" i.interface,
      keyed_dictJson hc.parameters fun _ p _ => keyed_parameterJson mode p,
      keyed_membersOf hkeys hvalues,
      keyed_dictJson hc.tasks fun key t ht => keyed_taskJson (hc.taskEnvironments key t ht)⟩

/-! ## Replacing texts -/

theorem mem_updateMember {key : String} {f : Json → Json} {member : String × Json}
    {members : Members} (h : member ∈ updateMember key f members) :
    ∃ given ∈ members, member.1 = given.1 ∧ (member.2 = given.2 ∨ member.2 = f given.2) := by
  induction members with
  | nil => cases h
  | cons first rest ih =>
      obtain ⟨k, v⟩ := first
      rw [updateMember] at h
      split at h
      · rcases List.mem_cons.mp h with rfl | h
        · exact ⟨(k, v), List.mem_cons_self .., rfl, Or.inr rfl⟩
        · exact ⟨member, List.mem_cons_of_mem _ h, rfl, Or.inl rfl⟩
      · rcases List.mem_cons.mp h with rfl | h
        · exact ⟨(k, v), List.mem_cons_self .., rfl, Or.inl rfl⟩
        · obtain ⟨given, hgiven, hmember⟩ := ih h
          exact ⟨given, List.mem_cons_of_mem _ hgiven, hmember⟩

theorem Keyed.replaceIn {value : Json} (h : Keyed value) (path : List String) (new : String) :
    Keyed (replaceIn (.string new) path value) := by
  induction path generalizing value with
  | nil => exact .string new
  | cons key path ih =>
      cases h with
      | object keys values =>
          refine .object (fun member hmember => ?_) fun member hmember => ?_
          · obtain ⟨given, hgiven, hname, -⟩ := mem_updateMember hmember
            exact hname ▸ keys given hgiven
          · obtain ⟨given, hgiven, -, hsame | hchanged⟩ := mem_updateMember hmember
            · exact hsame ▸ values given hgiven
            · exact hchanged ▸ ih (values given hgiven)
      | string text => exact .string text
      | null => exact .null

theorem Keyed.replaceTexts {texts : List (List String × String)} (h : Keyed context.toJson) :
    Keyed (context.replaceTexts texts).toJson := by
  induction texts generalizing context with
  | nil => exact h
  | cons first rest ih =>
      obtain ⟨path, new⟩ := first
      have hfirst : Keyed (context.replace path (.string new)).toJson := by
        cases path with
        | nil => exact h
        | cons key path => exact h.replaceIn (key :: path) new
      exact ih hfirst

end Context

end Manifest
