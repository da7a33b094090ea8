import Manifest.Proofs.Config.Tree
import Manifest.Proofs.Context
import Manifest.Proofs.Scalar
/-!
# Where the texts of a context come from

A component's own context shows texts of its config, texts in which nothing
opens, and the addresses of interfaces, which are put together from such
texts. So whatever holds of those holds of all texts of the context
(`forall_texts_namespaces`).
-/

namespace Manifest.Context

open Json (Members memberTexts mem_memberTexts)

/-- A property that the texts of a config have, texts without a dollar, and
addresses made of texts that have it. -/
structure PassedOn (c : Config.Component) (P : String → Prop) : Prop where
  own : ∀ text ∈ c.toJson.texts, P text
  plain : ∀ text, Undollared text → P text
  address : ∀ protocol host port, P protocol → P host → P port →
    P (protocol ++ "://" ++ host ++ ":" ++ port)

variable {c : Config.Component} {P : String → Prop}

theorem forall_texts_membersOf {members : Members}
    (h : ∀ member ∈ members, ∀ text ∈ member.2.texts, P text) :
    ∀ text ∈ (membersOf members).texts, P text := by
  intro text htext
  obtain ⟨k, v, hmem, htext⟩ := mem_memberTexts.mp (Json.texts_sorted_subset _ htext)
  exact h (k, v) hmem text htext

theorem forall_texts_dictJson {α : Type} {encode : String → α → Json} {d : Dict α}
    (h : ∀ key value, (key, value) ∈ d.entries → ∀ text ∈ (encode key value).texts, P text) :
    ∀ text ∈ (dictJson encode d).texts, P text := by
  refine forall_texts_membersOf fun member hmember => ?_
  obtain ⟨⟨key, value⟩, hmem, rfl⟩ := List.mem_map.mp hmember
  exact h key value hmem

theorem forall_texts_string {text : String} (h : P text) :
    ∀ other ∈ (Json.string text).texts, P other := by
  intro other hother
  rw [List.mem_singleton.mp hother]
  exact h

theorem forall_texts_environment {environment : Dict String}
    (h : ∀ key text, (key, text) ∈ environment.entries → P text) :
    ∀ text ∈ (environmentJson environment).texts, P text :=
  forall_texts_dictJson fun key text hmem => forall_texts_string (h key text hmem)

/-- A service is shown with a host in the characters of a ref. -/
theorem exists_host_of_serviceJson {instanceId : Option String} {maxRefLength : Nat}
    {s : Config.Service} {value : Json} (h : serviceJson instanceId maxRefLength s = .ok value) :
    ∃ host : String, (∀ c ∈ host.toList, Slug.isRefChar c = true)
      ∧ value = membersOf [("environment", environmentJson s.body.environment),
        ("interfaces", dictJson (fun _ => interfaceJson host) s.body.extension.interfaces)] := by
  rw [serviceJson_eq] at h
  obtain ⟨host, hhost, hvalue⟩ := ok_of_map_eq_ok h
  refine ⟨host, ?_, hvalue.symm⟩
  cases instanceId with
  | none => exact SafeRef.ofText_chars hhost
  | some id => exact SafeRef.ofInstance_chars hhost

namespace PassedOn

variable (hP : PassedOn c P)
include hP

theorem empty : P "" := hP.plain "" (by simp [Undollared])

omit hP in
theorem getD {value : Option String} {default : String} (hdefault : P default)
    (h : ∀ text, value = some text → P text) : P (value.getD default) := by
  cases value with
  | none => exact hdefault
  | some text => exact h text rfl

theorem parameter (mode : Mode) {key : String} {p : Config.Parameter}
    (hp : (key, p) ∈ c.parameters.entries) : ∀ text ∈ (parameterJson mode p).texts, P text := by
  unfold parameterJson
  split
  · next value hdefault =>
      refine forall_texts_string ?_
      by_cases hstring : ∃ s, value = .string s
      · obtain ⟨s, rfl⟩ := hstring
        exact hP.own s (Config.Component.texts_parameter_subset hp
          (Config.Parameter.mem_texts_default hdefault))
      · push Not at hstring
        exact hP.plain _ (Scalar.undollared_text hstring)
  · exact forall_texts_string hP.empty
  · cases mode with
    | runtime => exact fun _ h => absurd h List.not_mem_nil
    | validation => exact forall_texts_string (hP.plain _ (by simp [Undollared, unsetMark]))

theorem interface {i : Config.Interface} {defaultHost : String} (hhost : P defaultHost)
    (h : ∀ text, some text ∈ [i.host, i.port, i.protocol, i.username, i.password, i.url] →
      P text) : ∀ text ∈ (interfaceJson defaultHost i).texts, P text := by
  have hhost' : P (i.host.getD defaultHost) :=
    getD hhost fun text htext => h text (by simp [htext])
  have hport : P (i.port.getD "") := getD hP.empty fun text htext => h text (by simp [htext])
  have hprotocol : P (i.protocol.getD "http") :=
    getD (hP.plain _ (by simp [Undollared])) fun text htext => h text (by simp [htext])
  have husername : P (i.username.getD "") :=
    getD hP.empty fun text htext => h text (by simp [htext])
  have hpassword : P (i.password.getD "") :=
    getD hP.empty fun text htext => h text (by simp [htext])
  have hurl : P (i.url.getD (i.protocol.getD "http" ++ "://" ++ i.host.getD defaultHost ++ ":"
      ++ i.port.getD "")) :=
    getD (hP.address _ _ _ hprotocol hhost' hport) fun text htext => h text (by simp [htext])
  refine forall_texts_membersOf fun member hmember => ?_
  simp only [List.mem_cons, List.not_mem_nil, or_false] at hmember
  rcases hmember with rfl | rfl | rfl | rfl | rfl | rfl
  · exact forall_texts_string hhost'
  · exact forall_texts_string hport
  · exact forall_texts_string hprotocol
  · exact forall_texts_string husername
  · exact forall_texts_string hpassword
  · exact forall_texts_string hurl

theorem service {key : String} {s : Config.Service} {maxRefLength : Nat} {value : Json}
    (hs : (key, s) ∈ c.services.entries)
    (h : serviceJson c.instanceId maxRefLength s = .ok value) : ∀ text ∈ value.texts, P text := by
  obtain ⟨host, hchars, rfl⟩ := exists_host_of_serviceJson h
  have hshost : P host := hP.plain host (.of_ref hchars)
  have henvironment : ∀ text ∈ (environmentJson s.body.environment).texts, P text :=
    forall_texts_environment fun _ _ hmem =>
      hP.own _ (Config.Component.texts_service_subset hs (Config.mem_texts_environment hmem))
  have hinterfaces : ∀ text ∈
      (dictJson (fun _ => interfaceJson host) s.body.extension.interfaces).texts, P text :=
    forall_texts_dictJson fun _ _ hmem => hP.interface hshost fun text htext =>
      hP.own text (Config.Component.texts_service_subset hs
        (Config.mem_texts_serviceInterface hmem htext))
  refine forall_texts_membersOf ?_
  rw [List.forall_mem_cons, List.forall_mem_singleton]
  exact ⟨henvironment, hinterfaces⟩

theorem task {key : String} {t : Config.Task} (ht : (key, t) ∈ c.tasks.entries) :
    ∀ text ∈ (taskJson t).texts, P text := by
  have henvironment : ∀ text ∈ (environmentJson t.body.environment).texts, P text :=
    forall_texts_environment fun _ _ hmem =>
      hP.own _ (Config.Component.texts_task_subset ht (Config.mem_texts_environment hmem))
  intro text htext
  obtain ⟨k, v, hmem, htext⟩ := mem_memberTexts.mp htext
  obtain ⟨rfl, rfl⟩ := Prod.mk.inj (List.mem_singleton.mp hmem)
  exact henvironment text htext

theorem ingress {key : String} {i : Config.ComponentInterface}
    (hi : (key, i) ∈ c.interfaces.entries) : ∀ text ∈ (ingressJson i).texts, P text := by
  have hsubdomain : P ((i.ingress.bind Config.Ingress.subdomain).getD "") :=
    getD hP.empty fun text htext =>
      hP.own text (Config.Component.texts_interface_subset hi
        (Config.ComponentInterface.mem_texts_subdomain htext))
  refine forall_texts_membersOf fun member hmember => ?_
  simp only [List.mem_cons, List.not_mem_nil, or_false] at hmember
  rcases hmember with rfl | rfl | rfl
  · exact forall_texts_string hsubdomain
  · exact forall_texts_string hP.empty
  · exact forall_texts_string hP.empty

end PassedOn

/-- What holds of the texts of a config holds of those of its own context. -/
theorem forall_texts_namespaces (hP : PassedOn c P) (mode : Mode) {maxRefLength : Nat}
    {services : Members} (hservices : serviceMembers c maxRefLength = .ok services) :
    ∀ text ∈ memberTexts (namespaces c {} mode services), P text := by
  intro text htext
  obtain ⟨k, v, hmem, htext⟩ := mem_memberTexts.mp htext
  simp only [namespaces, visible_empty, List.mem_cons, List.not_mem_nil, or_false,
    Prod.mk.injEq] at hmem
  rcases hmem with ⟨-, rfl⟩ | ⟨-, rfl⟩ | ⟨-, rfl⟩ | ⟨-, rfl⟩ | ⟨-, rfl⟩ | ⟨-, rfl⟩
  · cases htext
  · exact forall_texts_dictJson (fun _ _ hi => hP.ingress hi) text htext
  · refine forall_texts_dictJson
      (fun _ i hi => hP.interface hP.empty fun text htext => ?_) text htext
    exact hP.own text (Config.Component.texts_interface_subset hi
      (Config.ComponentInterface.mem_texts htext))
  · exact forall_texts_dictJson (fun _ _ hp => hP.parameter mode hp) text htext
  · refine forall_texts_membersOf (fun member hmember => ?_) text htext
    obtain ⟨s, hs, hvalue⟩ := mem_serviceMembers hservices hmember
    exact hP.service hs hvalue
  · exact forall_texts_dictJson (fun _ _ ht => hP.task ht) text htext

end Manifest.Context
