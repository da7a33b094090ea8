import Manifest.Proofs.Context.Reach
import Manifest.Proofs.Dict
/-!
# Interfaces in a context

An interface is shown by six texts (`shown`), whether it is the component's or that of
a service (`lookup?_interface`, `lookup?_serviceInterface`). Under the interfaces of the
component a path leads to one of these texts or to an object
(`object_or_field_of_lookup?`).
-/

namespace Manifest.Context

open Json (Members member? Distinct)

/-! ## Objects that are put in order -/

theorem distinct_membersOf (members : Members) : Distinct (membersOf members) :=
  Json.distinct_sorted _

/-- A path into members that are put in order. -/
theorem reach_membersOf {members : Members} (hnodup : (members.map Prod.fst).Nodup)
    (hvalues : ∀ member ∈ members, Distinct member.2) (key : String) (path : List String) :
    reach (membersOf members) (key :: path)
      = ((member? key members).bind fun value => reach value path).map Json.sorted :=
  reach_sorted ⟨hnodup, Json.membersDistinct_iff.mpr hvalues⟩

theorem reach_dictJson {α : Type} {encode : String → α → Json} {d : Dict α}
    (hvalues : ∀ key value, Distinct (encode key value)) (key : String) (path : List String) :
    reach (dictJson encode d) (key :: path)
      = ((d.get? key).bind fun value => reach (encode key value) path).map Json.sorted := by
  have hmembers : ∀ member ∈ d.entries.map fun entry => (entry.1, encode entry.1 entry.2),
      Distinct member.2 := by
    rw [List.forall_mem_map]
    exact fun entry _ => hvalues entry.1 entry.2
  rw [dictJson, reach_membersOf (nodup_names encode d) hmembers, member?_map, Option.bind_map]
  rfl

/-! ## Fields -/

/-- The names of the texts by which an interface is shown. -/
def interfaceFields : List String := ["host", "port", "protocol", "username", "password", "url"]

/-- The texts by which an interface is shown where `host` is the host of one without. -/
def shown (host : String) (i : Config.Interface) : List (String × String) :=
  let own := i.host.getD host
  let protocol := i.protocol.getD "http"
  let port := i.port.getD ""
  [("host", own), ("port", port), ("protocol", protocol), ("username", i.username.getD ""),
    ("password", i.password.getD ""),
    ("url", i.url.getD (protocol ++ "://" ++ own ++ ":" ++ port))]

theorem names_shown (host : String) (i : Config.Interface) :
    (shown host i).map Prod.fst = interfaceFields := rfl

theorem interfaceJson_eq (host : String) (i : Config.Interface) :
    interfaceJson host i
      = membersOf ((shown host i).map fun field => (field.1, Json.string field.2)) := rfl

theorem distinct_interfaceJson (host : String) (i : Config.Interface) :
    Distinct (interfaceJson host i) := distinct_membersOf _

/-- A path into an interface is the name of one of its texts. -/
theorem reach_interfaceJson (host : String) (i : Config.Interface) (field : String)
    (path : List String) :
    reach (interfaceJson host i) (field :: path)
      = (Dict.find? field (shown host i)).bind fun text => reach (.string text) path := by
  have hnodup : (((shown host i).map fun field => (field.1, Json.string field.2)).map
      Prod.fst).Nodup := by
    rw [List.map_map]
    exact (by decide : interfaceFields.Nodup)
  have hdistinct : ∀ member ∈ (shown host i).map fun field => (field.1, Json.string field.2),
      Distinct member.2 := by
    rw [List.forall_mem_map]
    exact fun field _ => Json.distinct_string field.2
  rw [interfaceJson_eq, reach_membersOf hnodup hdistinct, member?_map fun _ => Json.string]
  cases Dict.find? field (shown host i) with
  | none => rfl
  | some text => cases path <;> rfl

theorem exists_shown {field : String} (h : field ∈ interfaceFields) (host : String)
    (i : Config.Interface) : ∃ text, Dict.find? field (shown host i) = some text := by
  rw [← Option.ne_none_iff_exists', Ne, Dict.find?_eq_none_iff, names_shown]
  exact fun hnot => hnot h

/-! ## Interfaces of the component -/

variable {c : Config.Component} {dependencies : Dependencies} {maxRefLength : Nat} {mode : Mode}
  {context : Context} {field name text : String}

theorem reach_interfaces (h : ofComponent c dependencies maxRefLength mode = .ok context)
    (path : List String) :
    reach context.toJson ("interfaces" :: path)
      = reach (dictJson (fun _ i => interfaceJson "" i.interface) c.interfaces) path := by
  obtain ⟨services, -, rfl⟩ := exists_of_ofComponent h
  simp [toJson, reach, namespaces, member?]

theorem lookup?_interface (h : ofComponent c dependencies maxRefLength mode = .ok context)
    {i : Config.ComponentInterface} (hi : c.interfaces.get? name = some i)
    (hfield : Dict.find? field (shown "" i.interface) = some text) :
    context.lookup? ["interfaces", name, field] = some (.string text) := by
  refine lookup?_of_reach (List.cons_ne_nil _ _) ?_
  rw [reach_interfaces h, reach_dictJson (fun _ _ => distinct_interfaceJson ..), hi,
    Option.bind_some, reach_interfaceJson, hfield]
  rfl

/-- Under the interfaces there are objects, and texts at the fields of an interface. -/
theorem object_or_field_of_lookup? (h : ofComponent c dependencies maxRefLength mode = .ok context)
    {path : List String} {value : Json}
    (hfound : context.lookup? ("interfaces" :: path) = some value) :
    (∃ members, value = .object members)
      ∨ ∃ name field, path = [name, field] ∧ field ∈ interfaceFields := by
  obtain ⟨services, -, rfl⟩ := exists_of_ofComponent h
  have hmember : member? "interfaces" (namespaces c dependencies mode services)
      = some (dictJson (fun _ i => interfaceJson "" i.interface) c.interfaces) := by
    simp [namespaces, member?]
  rw [lookup?_cons, hmember, Option.bind_some] at hfound
  cases path with
  | nil => exact Or.inl ⟨_, (Option.some.inj hfound).symm⟩
  | cons name path =>
      rw [walk_cons, child?_dictJson] at hfound
      obtain ⟨child, hchild, hfound⟩ := Option.bind_eq_some_iff.mp hfound
      obtain ⟨i, -, rfl⟩ := Option.map_eq_some_iff.mp hchild
      cases path with
      | nil => exact Or.inl ⟨_, (Option.some.inj hfound).symm⟩
      | cons field path =>
          rw [walk_cons] at hfound
          obtain ⟨leaf, hleaf, hfound⟩ := Option.bind_eq_some_iff.mp hfound
          have hreach : reach (interfaceJson "" i.interface).sorted [field] = some leaf := by
            show (child? field (interfaceJson "" i.interface).sorted).bind some = some leaf
            rw [hleaf]
            rfl
          rw [reach_sorted (distinct_interfaceJson ..), reach_interfaceJson] at hreach
          cases hshown : Dict.find? field (shown "" i.interface) with
          | none => rw [hshown] at hreach; cases hreach
          | some text =>
              rw [hshown] at hreach
              obtain rfl := Option.some.inj hreach
              cases path with
              | nil =>
                  have hname := List.mem_map_of_mem (f := Prod.fst) (Dict.mem_of_find? hshown)
                  rw [names_shown] at hname
                  exact Or.inr ⟨name, field, rfl, hname⟩
              | cons key path => cases hfound

/-! ## Interfaces of services -/

theorem reach_serviceJson {instanceId : Option String} {s : Config.Service} {i : Config.Interface}
    {host : String} {value : Json} (hi : s.body.extension.interfaces.get? name = some i)
    (hhost : defaultHost instanceId maxRefLength s = .ok host)
    (hvalue : serviceJson instanceId maxRefLength s = .ok value)
    (hfield : Dict.find? field (shown host i) = some text) :
    reach value ["interfaces", name, field] = some (.string text) := by
  rw [serviceJson_eq, hhost] at hvalue
  have hinterfaces : reach (dictJson (fun _ => interfaceJson host) s.body.extension.interfaces)
      [name, field] = some (.string text) := by
    rw [reach_dictJson (fun _ => distinct_interfaceJson host), hi, Option.bind_some,
      reach_interfaceJson, hfield]
    rfl
  have hdistinct : ∀ member ∈ [("environment", environmentJson s.body.environment),
      ("interfaces", dictJson (fun _ => interfaceJson host) s.body.extension.interfaces)],
      Distinct member.2 := by
    rw [List.forall_mem_cons, List.forall_mem_singleton]
    exact ⟨distinct_membersOf _, distinct_membersOf _⟩
  rw [← Except.ok.inj hvalue, reach_membersOf (by simp) hdistinct]
  simp only [member?, if_pos, String.reduceEq, if_false, Option.bind_some, hinterfaces]
  rfl

theorem lookup?_serviceInterface (h : ofComponent c dependencies maxRefLength mode = .ok context)
    {key : String} {s : Config.Service} {i : Config.Interface}
    (hs : c.services.get? key = some s) (hi : s.body.extension.interfaces.get? name = some i) :
    ∃ host, defaultHost c.instanceId maxRefLength s = .ok host
      ∧ ∀ field text, Dict.find? field (shown host i) = some text →
        context.lookup? ["services", key, "interfaces", name, field] = some (.string text) := by
  obtain ⟨services, hservices, rfl⟩ := exists_of_ofComponent h
  obtain ⟨value, hmem, hvalue⟩ := exists_serviceMember hservices (Dict.get?_eq_some_iff.mp hs)
  obtain ⟨host, hhost, -⟩ := ok_of_map_eq_ok ((serviceJson_eq ..).symm.trans hvalue)
  have hnodup : (services.map Prod.fst).Nodup :=
    names_serviceMembers hservices ▸ c.services.nodup
  have hdistinct : ∀ member ∈ services, Distinct member.2 := by
    intro member hmember
    obtain ⟨_, -, hother⟩ := mem_serviceMembers hservices hmember
    obtain ⟨_, -, hshown⟩ := ok_of_map_eq_ok ((serviceJson_eq ..).symm.trans hother)
    rw [← hshown]
    exact distinct_membersOf _
  refine ⟨host, hhost, fun field text hfield => lookup?_of_reach (List.cons_ne_nil _ _) ?_⟩
  show reach (membersOf services) [key, "interfaces", name, field] = some (.string text)
  rw [reach_membersOf hnodup hdistinct, Json.member?_of_mem hnodup hmem, Option.bind_some,
    reach_serviceJson hi hhost hvalue hfield]
  rfl

end Manifest.Context
