import Manifest.Context
import Manifest.Proofs.Outcome
import Manifest.Proofs.Json.Sorted
/-!
# Looking into the context of a component

The context of a component is its namespaces (`namespaces`), of which only the
services can fail to have one. A path starts at a namespace and goes on in it;
giving parameters values changes what is found at `parameters` for the given
names, and nothing else.
-/

namespace Manifest.Context

open Json (Members member? setMember)

/-! ## Walking -/

/-- What a path through a value leads to. -/
def walk (value : Json) (path : List String) : Option Json :=
  path.foldlM (fun value key => child? key value) value

@[simp] theorem walk_nil (value : Json) : walk value [] = some value := rfl

@[simp] theorem walk_cons (value : Json) (key : String) (path : List String) :
    walk value (key :: path) = (child? key value).bind fun child => walk child path := rfl

theorem lookup?_cons (c : Context) (key : String) (path : List String) :
    c.lookup? (key :: path) = (member? key c.members).bind fun value => walk value path := rfl

/-! ## Dictionaries -/

variable {α : Type}

theorem member?_map (encode : String → α → Json) (name : String) :
    ∀ entries : List (String × α),
      member? name (entries.map fun (k, v) => (k, encode k v))
        = (Dict.find? name entries).map (encode name)
  | [] => rfl
  | (k, v) :: rest => by
      rw [List.map_cons, member?, Dict.find?]
      split
      · next heq => rw [heq]; rfl
      · exact member?_map encode name rest

theorem nodup_names (encode : String → α → Json) (d : Dict α) :
    ((d.entries.map fun (k, v) => (k, encode k v)).map Prod.fst).Nodup := by
  simpa [List.map_map, Function.comp_def] using d.nodup

/-- An entry of a dictionary is found at its key. -/
theorem child?_dictJson (encode : String → α → Json) (d : Dict α) (name : String) :
    child? name (dictJson encode d)
      = (d.get? name).map fun value => (encode name value).sorted := by
  show member? name (Json.sortedMembers [] _) = _
  rw [Json.member?_sorted (nodup_names encode d), member?_map, Option.map_map]
  rfl

/-! ## Services -/

/-- The host of a service, which an interface without one is shown with. -/
def defaultHost (instanceId : Option String) (maxRefLength : Nat) (s : Config.Service) :
    Except Failure String :=
  match instanceId with
  | some id => SafeRef.ofInstance s.body.identity.reference id maxRefLength
  | none => SafeRef.ofText s.body.identity.reference none maxRefLength

theorem serviceJson_eq (instanceId : Option String) (maxRefLength : Nat) (s : Config.Service) :
    serviceJson instanceId maxRefLength s
      = (defaultHost instanceId maxRefLength s).map fun host =>
          membersOf [("environment", environmentJson s.body.environment),
            ("interfaces", dictJson (fun _ => interfaceJson host) s.body.extension.interfaces)] := by
  cases instanceId <;> rfl

/-! ## The namespaces -/

/-- The namespaces of a component whose services have the given JSON. -/
def namespaces (c : Config.Component) (dependencies : Dependencies) (mode : Mode)
    (services : Members) : Members :=
  [("dependencies", visible c dependencies),
    ("ingresses", dictJson (fun _ => ingressJson) c.interfaces),
    ("interfaces", dictJson (fun _ i => interfaceJson "" i.interface) c.interfaces),
    ("parameters", dictJson (fun _ => parameterJson mode) c.parameters),
    ("services", membersOf services), ("tasks", dictJson (fun _ => taskJson) c.tasks)]

/-- The JSON of each service, by its key. -/
def serviceMembers (c : Config.Component) (maxRefLength : Nat) : Except Failure Members :=
  c.services.entries.mapM fun (k, s) => do
    pure (k, ← serviceJson c.instanceId maxRefLength s)

theorem mem_serviceMembers {c : Config.Component} {maxRefLength : Nat} {services : Members}
    {key : String} {value : Json} (h : serviceMembers c maxRefLength = .ok services)
    (hmem : (key, value) ∈ services) :
    ∃ s, (key, s) ∈ c.services.entries ∧ serviceJson c.instanceId maxRefLength s = .ok value := by
  obtain ⟨⟨k, s⟩, hentry, hstep⟩ := exists_of_mem_mapM h hmem
  obtain ⟨v, hv, hpair⟩ := ok_of_bind_eq_ok hstep
  obtain ⟨rfl, rfl⟩ := Prod.mk.inj (Except.ok.inj hpair)
  exact ⟨s, hentry, hv⟩

theorem exists_serviceMember {c : Config.Component} {maxRefLength : Nat} {services : Members}
    {key : String} {s : Config.Service} (h : serviceMembers c maxRefLength = .ok services)
    (hs : (key, s) ∈ c.services.entries) :
    ∃ value, (key, value) ∈ services ∧ serviceJson c.instanceId maxRefLength s = .ok value := by
  obtain ⟨member, hmem, hstep⟩ := exists_result_of_mapM h hs
  obtain ⟨value, hvalue, hpair⟩ := ok_of_bind_eq_ok hstep
  obtain rfl := Except.ok.inj hpair
  exact ⟨value, hmem, hvalue⟩

theorem names_serviceMembers {c : Config.Component} {maxRefLength : Nat} {services : Members}
    (h : serviceMembers c maxRefLength = .ok services) :
    services.map Prod.fst = c.services.keys := by
  refine map_of_mapM ?_ h
  rintro ⟨k, s⟩ member hstep
  obtain ⟨value, -, hpair⟩ := ok_of_bind_eq_ok hstep
  rw [← Except.ok.inj hpair]

theorem ofComponent_eq (c : Config.Component) (dependencies : Dependencies) (maxRefLength : Nat)
    (mode : Mode) :
    ofComponent c dependencies maxRefLength mode
      = (serviceMembers c maxRefLength).map fun services =>
          ⟨namespaces c dependencies mode services⟩ := rfl

/-- Modes and dependencies make no difference to whether there is a context. -/
theorem exists_of_ofComponent {c : Config.Component} {dependencies : Dependencies}
    {maxRefLength : Nat} {mode : Mode} {context : Context}
    (h : ofComponent c dependencies maxRefLength mode = .ok context) :
    ∃ services, serviceMembers c maxRefLength = .ok services
      ∧ context = ⟨namespaces c dependencies mode services⟩ := by
  rw [ofComponent_eq] at h
  obtain ⟨services, hservices, heq⟩ := ok_of_map_eq_ok h
  exact ⟨services, hservices, heq.symm⟩

variable {c : Config.Component} {dependencies : Dependencies} {mode : Mode} {services : Members}

theorem member?_parameters :
    member? "parameters" (namespaces c dependencies mode services)
      = some (dictJson (fun _ => parameterJson mode) c.parameters) := by
  simp [namespaces, member?]

theorem member?_dependencies :
    member? "dependencies" (namespaces c dependencies mode services)
      = some (visible c dependencies) := by
  simp [namespaces, member?]

/-- All but the parameters and the dependencies is the same in both modes. -/
theorem member?_namespaces {name : String} (hparameters : name ≠ "parameters")
    (hdependencies : name ≠ "dependencies") (other : Dependencies) (mode' : Mode) :
    member? name (namespaces c dependencies mode services)
      = member? name (namespaces c other mode' services) := by
  simp only [namespaces, member?, if_neg hparameters.symm, if_neg hdependencies.symm]

theorem parameterJson_eq_string_or_null (mode : Mode) (p : Config.Parameter) :
    (∃ text, parameterJson mode p = .string text) ∨ parameterJson mode p = .null := by
  unfold parameterJson
  split
  · exact Or.inl ⟨_, rfl⟩
  · exact Or.inl ⟨_, rfl⟩
  · cases mode with
    | runtime => exact Or.inr rfl
    | validation => exact Or.inl ⟨_, rfl⟩

theorem sorted_parameterJson (mode : Mode) (p : Config.Parameter) :
    (parameterJson mode p).sorted = parameterJson mode p := by
  rcases parameterJson_eq_string_or_null mode p with ⟨text, h⟩ | h <;> rw [h] <;> rfl

/-- A parameter without a value is null at run time and has a mark in its
place otherwise; all others have one text in both modes. -/
theorem parameterJson_cases (p : Config.Parameter) :
    (parameterJson .runtime p = .null ∧ parameterJson .validation p = .string unsetMark)
      ∨ ∃ text, ∀ mode, parameterJson mode p = .string text := by
  unfold parameterJson
  split
  · exact Or.inr ⟨_, fun _ => rfl⟩
  · exact Or.inr ⟨_, fun _ => rfl⟩
  · exact Or.inl ⟨rfl, rfl⟩

theorem child?_parameters (name : String) :
    child? name (dictJson (fun _ => parameterJson mode) c.parameters)
      = (c.parameters.get? name).map (parameterJson mode) := by
  rw [child?_dictJson]
  congr 1
  funext p
  exact sorted_parameterJson mode p

/-- No dependency is seen where none is given. -/
theorem visible_empty (c : Config.Component) : visible c {} = .object [] := by
  have hnone : (c.dependencies.filterMapValues fun name (_ : String) =>
      ({} : Dependencies).get? name).entries = [] :=
    List.filterMap_eq_nil_iff.mpr fun _ _ => rfl
  rw [visible, dictJson, hnone]
  rfl

/-! ## Giving parameters values -/

/-- The context with parameters set, in order. -/
def setParameters (context : Context) (assigned : List (String × String)) : Context :=
  assigned.foldl (fun context a => context.setParameter a.1 (.string a.2)) context

theorem member?_setParameter_of_ne {name : String} (h : name ≠ "parameters") (context : Context)
    (parameter : String) (value : Json) :
    member? name (context.setParameter parameter value).members = member? name context.members :=
  Json.member?_setMember_of_ne h _ _

theorem member?_setParameters_of_ne {name : String} (h : name ≠ "parameters") :
    ∀ (assigned : List (String × String)) (context : Context),
      member? name (context.setParameters assigned).members = member? name context.members
  | [], _ => rfl
  | (parameter, value) :: rest, context => by
      rw [← member?_setParameter_of_ne h context parameter (.string value)]
      exact member?_setParameters_of_ne h rest _

/-- Afterwards the given names have one of their given values, and all others
what they had. -/
theorem member?_setParameters : ∀ (assigned : List (String × String)) (context : Context)
    {parameters : Members}, member? "parameters" context.members = some (.object parameters) →
      ∃ members, member? "parameters" (context.setParameters assigned).members
          = some (.object members)
        ∧ ∀ name, (name ∉ assigned.map Prod.fst ∧ member? name members = member? name parameters)
          ∨ ∃ text, (name, text) ∈ assigned ∧ member? name members = some (.string text)
  | [], _, parameters, h => ⟨parameters, h, fun _ => Or.inl ⟨List.not_mem_nil, rfl⟩⟩
  | (parameter, value) :: rest, context, parameters, h => by
      have hset : member? "parameters" (context.setParameter parameter (.string value)).members
          = some (.object (setMember parameter (.string value) parameters)) := by
        rw [setParameter, h]
        exact Json.member?_setMember_self _ _ _
      obtain ⟨members, hmembers, hnames⟩ := member?_setParameters rest _ hset
      refine ⟨members, hmembers, fun name => ?_⟩
      rcases hnames name with ⟨hnot, hsame⟩ | ⟨text, hmem, hfound⟩
      · by_cases hname : name = parameter
        · subst hname
          rw [Json.member?_setMember_self] at hsame
          exact Or.inr ⟨value, List.mem_cons_self .., hsame⟩
        · rw [Json.member?_setMember_of_ne hname] at hsame
          rw [List.map_cons, List.mem_cons, not_or]
          exact Or.inl ⟨⟨hname, hnot⟩, hsame⟩
      · exact Or.inr ⟨text, List.mem_cons_of_mem _ hmem, hfound⟩

end Manifest.Context
