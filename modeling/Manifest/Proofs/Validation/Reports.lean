import Manifest.Proofs.Validation.DependsOn
import Mathlib.Data.List.Forall2
/-!
# What is reported about dependencies

The check of what resources depend on reports exactly what is wrong: one
problem for each entry, of a resource's own list or of a debug block's, that
names a task or nothing at all, where the entry is written, and one for each
resource that lies on a cycle of some view. No other rule of the validation
reports these constraints.
-/

namespace Manifest.Validation

open Relation (TransGen)

/-- The problems of one constraint. -/
def about (constraint : String) (ds : List Diagnostic) : List Diagnostic :=
  ds.filter fun d => d.constraint = constraint

theorem about_append (constraint : String) (ds ds' : List Diagnostic) :
    about constraint (ds ++ ds') = about constraint ds ++ about constraint ds' :=
  List.filter_append ds ds'

/-! ## Other rules have other constraints -/

/-- The constraints that are about dependencies. -/
def dependsOnConstraints : List String :=
  ["circular-reference", "no-task-dependency", "invalid-reference"]

/-- None of the problems is about dependencies. -/
def Unrelated (ds : List Diagnostic) : Prop := ∀ d ∈ ds, d.constraint ∉ dependsOnConstraints

section Unrelated

variable {X : Type} {ds ds' : List Diagnostic} {constraint : String}

theorem unrelated_nil : Unrelated [] := fun _ hd => absurd hd List.not_mem_nil

theorem Unrelated.append (h : Unrelated ds) (h' : Unrelated ds') : Unrelated (ds ++ ds') :=
  fun d hd => (List.mem_append.mp hd).elim (h d) (h' d)

theorem unrelated_flatMap {α : Type} {xs : List α} {f : α → List Diagnostic}
    (h : ∀ x, Unrelated (f x)) : Unrelated (xs.flatMap f) := by
  intro d hd
  obtain ⟨x, -, hx⟩ := List.mem_flatMap.mp hd
  exact h x d hx

theorem Unrelated.about_eq_nil (h : Unrelated ds) (hk : constraint ∈ dependsOnConstraints) :
    about constraint ds = [] := by
  refine List.filter_eq_nil_iff.mpr fun d hd hmatch => h d hd ?_
  rwa [of_decide_eq_true hmatch]

theorem unrelated_applyRules {α : Type} {rules : List (Rule α)}
    (h : ∀ r ∈ rules, r.constraint ∉ dependsOnConstraints) (ps : Perspectives) (path : String)
    (target : α) : Unrelated (applyRules rules ps path target) := by
  intro d hd
  obtain ⟨r, hr, hcheck⟩ := List.mem_filterMap.mp hd
  unfold Rule.check at hcheck
  split at hcheck
  · obtain ⟨message, -, rfl⟩ := Option.map_eq_some_iff.mp hcheck
    exact h r hr
  · cases hcheck

theorem unrelated_checkService (ps : Perspectives) (path : String) (s : Spec.Service) :
    Unrelated (checkService ps path s) := by
  unfold checkService
  refine ((unrelated_applyRules ?_ ps path s).append ?_).append ?_
  · simp [serviceRules, dependsOnConstraints]
  · split
    · refine unrelated_applyRules ?_ _ _ _
      simp [probeRules, dependsOnConstraints]
    · exact unrelated_nil
  · split
    · refine unrelated_applyRules ?_ _ _ _
      simp [scalingRules, dependsOnConstraints]
    · exact unrelated_nil

/-- The rules on services or tasks are not about dependencies. -/
def UnrelatedCheck (extension : ExtensionCheck X) : Prop :=
  ∀ ps path r, Unrelated (extension ps path r)

theorem unrelated_checkBody {extension : ExtensionCheck X} (h : UnrelatedCheck extension)
    (ps : Perspectives) (path : String) (r : Spec.Resource X) :
    Unrelated (checkBody extension ps path r) := by
  refine ((unrelated_applyRules ?_ ps path r).append (h ps path r)).append ?_
  · simp [resourceRules, dependsOnConstraints]
  · refine unrelated_flatMap fun e => unrelated_applyRules ?_ _ _ _
    simp [volumeRules, dependsOnConstraints]

theorem unrelated_checkResources {extension : ExtensionCheck X} (h : UnrelatedCheck extension)
    (ps : Perspectives) (path : String) (resources : Dict (Spec.Resource X)) :
    Unrelated (checkResources extension ps path resources) := by
  refine unrelated_flatMap fun e => ?_
  refine Unrelated.append (unrelated_checkBody h _ _ _) ?_
  split
  · exact unrelated_checkBody h _ _ _
  · exact unrelated_nil

theorem unrelated_checkParameter (ps : Perspectives) (key : String) (p : Spec.Parameter) :
    Unrelated (checkParameter ps key p) := by
  cases p with
  | definition d =>
      refine unrelated_applyRules ?_ _ _ _
      simp [parameterRules, dependsOnConstraints]
  | value v => exact unrelated_nil

theorem unrelated_collisions (c : Spec.Component) : Unrelated (collisions c) := by
  intro d hd
  obtain ⟨key, -, rfl⟩ := List.mem_map.mp hd
  simp [dependsOnConstraints]

/-- What comes before the check of dependencies is not about them. -/
theorem exists_validate_eq (ps : Perspectives) (c : Spec.Component) :
    ∃ others, Unrelated others ∧ validate ps c = others ++ DependsOn.check c := by
  unfold validate
  refine ⟨_, ?_, rfl⟩
  refine ((((Unrelated.append ?component ?parameters).append ?dependencies).append
    ?services).append ?tasks).append ?collisions
  case component =>
    refine unrelated_applyRules ?_ _ _ _
    simp [componentRules, dependsOnConstraints]
  case parameters => exact unrelated_flatMap fun e => unrelated_checkParameter ps e.1 e.2
  case dependencies =>
    refine unrelated_flatMap fun e => unrelated_applyRules ?_ _ _ _
    simp [dependencyRules, dependsOnConstraints]
  case services => exact unrelated_checkResources unrelated_checkService ps "services" c.services
  case tasks => exact unrelated_checkResources (fun _ _ _ => unrelated_nil) ps "tasks" c.tasks
  case collisions => exact unrelated_collisions c

theorem about_validate (hk : constraint ∈ dependsOnConstraints) (ps : Perspectives)
    (c : Spec.Component) :
    about constraint (validate ps c) = about constraint (DependsOn.check c) := by
  obtain ⟨others, hothers, heq⟩ := exists_validate_eq ps c
  rw [heq, about_append, hothers.about_eq_nil hk, List.nil_append]

end Unrelated

namespace DependsOn

variable {c : Spec.Component} {v : View} {x y : String}

/-! ## Entries and where they are written -/

structure Entry where
  path : String
  name : String

/-- The entries of a list, each at its index. -/
def listEntries (path : String) (names : List String) : List Entry :=
  names.zipIdx.map fun e => { path := path ++ "." ++ toString e.2, name := e.1 }

/-- The entries of the resources' own lists. -/
def ownEntries {X : Type} (group : String) (resources : Dict (Spec.Resource X)) : List Entry :=
  resources.entries.flatMap fun e =>
    listEntries (group ++ "." ++ e.1 ++ ".depends_on") e.2.body.dependsOn

/-- The entries of the lists in debug blocks. -/
def debugEntries {X : Type} (group : String) (resources : Dict (Spec.Resource X)) : List Entry :=
  resources.entries.flatMap fun e => e.2.debug.toList.flatMap fun debug =>
    listEntries (group ++ "." ++ e.1 ++ ".debug.depends_on") debug.body.dependsOn

/-- All entries of a spec. -/
def entries (c : Spec.Component) : List Entry :=
  ownEntries "services" c.services ++ ownEntries "tasks" c.tasks
    ++ debugEntries "services" c.services ++ debugEntries "tasks" c.tasks

theorem badEntries_eq {l : DependsOn} (h : l.reported = true) : badEntries c l
    = (listEntries l.path l.services).filterMap fun e => badEntry? c e.path e.name := by
  rw [badEntries, if_pos h, listEntries, List.filterMap_map]
  rfl

theorem badEntries_eq_nil {l : DependsOn} (h : l.reported = false) : badEntries c l = [] := by
  rw [badEntries, h]
  rfl

theorem badEntries_debugList {X : Type} (group name : String) (r : Spec.Resource X) :
    badEntries c (debugList group name r)
      = (r.debug.toList.flatMap fun debug =>
          listEntries (group ++ "." ++ name ++ ".debug.depends_on") debug.body.dependsOn).filterMap
        fun e => badEntry? c e.path e.name := by
  unfold debugList
  split
  · rename_i debug hdebug
    rw [hdebug, Option.toList_some, List.flatMap_singleton]
    split
    · rename_i hempty
      rw [badEntries_eq_nil rfl, List.isEmpty_iff.mp hempty]
      rfl
    · exact badEntries_eq rfl
  · rename_i hnone
    rw [hnone]
    exact badEntries_eq_nil rfl

theorem flatMap_badEntries_declared {X : Type} (group : String)
    (resources : Dict (Spec.Resource X)) :
    (ofResources (declaredList group) resources).flatMap (badEntries c)
      = (ownEntries group resources).filterMap fun e => badEntry? c e.path e.name := by
  rw [ofResources, List.flatMap_map, ownEntries, List.filterMap_flatMap]
  refine List.flatMap_congr fun e _ => ?_
  exact badEntries_eq rfl

theorem flatMap_badEntries_debug {X : Type} (group : String)
    (resources : Dict (Spec.Resource X)) :
    (ofResources (debugList group) resources).flatMap (badEntries c)
      = (debugEntries group resources).filterMap fun e => badEntry? c e.path e.name := by
  rw [ofResources, List.flatMap_map, debugEntries, List.filterMap_flatMap]
  refine List.flatMap_congr fun e _ => ?_
  exact badEntries_debugList group e.1 e.2

/-! ## Reports on entries -/

def taskReport (e : Entry) : Diagnostic :=
  { kind := .dependencyReference, path := e.path, constraint := "no-task-dependency",
    message := "depends_on may not reference task \"" ++ e.name ++ "\"", value := e.name }

def danglingReport (e : Entry) : Diagnostic :=
  { kind := .dependencyReference, path := e.path, constraint := "invalid-reference",
    message := "\"" ++ e.name ++ "\" is not a service of this component", value := e.name }

theorem badEntry?_of_task {e : Entry} (h : e.name ∈ c.tasks.keys) :
    badEntry? c e.path e.name = some (taskReport e) :=
  if_pos (Dict.contains_iff.mpr h)

theorem badEntry?_of_not_mem {e : Entry} (htask : e.name ∉ c.tasks.keys)
    (hservice : e.name ∉ c.services.keys) :
    badEntry? c e.path e.name = some (danglingReport e) := by
  rw [ badEntry?, if_neg fun h => htask (Dict.contains_iff.mp h),
    if_neg fun h => hservice (Dict.contains_iff.mp h), danglingReport]

theorem badEntry?_of_isService {e : Entry} (h : IsService c e.name) :
    badEntry? c e.path e.name = none := by
  rw [ badEntry?, if_neg fun hmem => h.2 (Dict.contains_iff.mp hmem),
    if_pos (Dict.contains_iff.mpr h.1)]

/-- An entry is in order, names a task, or names nothing. -/
theorem entry_cases (c : Spec.Component) (e : Entry) : IsService c e.name
    ∨ e.name ∈ c.tasks.keys ∨ e.name ∉ c.services.keys ∧ e.name ∉ c.tasks.keys := by
  by_cases htask : e.name ∈ c.tasks.keys
  · exact Or.inr (Or.inl htask)
  · by_cases hservice : e.name ∈ c.services.keys
    · exact Or.inl ⟨hservice, htask⟩
    · exact Or.inr (Or.inr ⟨hservice, htask⟩)

theorem about_filterMap {constraint : String} {f : Entry → Option Diagnostic} {p : Entry → Prop}
    [DecidablePred p] {report : Entry → Diagnostic}
    (h : ∀ e, about constraint (f e).toList = if p e then [report e] else []) :
    ∀ es : List Entry, about constraint (es.filterMap f) = (es.filter p).map report
  | [] => rfl
  | e :: es => by
      have hsplit : (e :: es).filterMap f = (f e).toList ++ es.filterMap f := by
        rw [List.filterMap_cons]
        cases f e <;> rfl
      rw [hsplit, about_append, h e, about_filterMap h es]
      split
      · rename_i hp
        simp [hp]
      · rename_i hp
        simp [hp]

theorem about_tasks (es : List Entry) :
    about "no-task-dependency" (es.filterMap fun e => badEntry? c e.path e.name)
      = (es.filter fun e => e.name ∈ c.tasks.keys).map taskReport := by
  refine about_filterMap (fun e => ?_) es
  rcases entry_cases c e with hservice | htask | ⟨hservice, htask⟩
  · rw [badEntry?_of_isService hservice, if_neg hservice.2]
    rfl
  · rw [badEntry?_of_task htask, if_pos htask]
    simp [about, taskReport]
  · rw [badEntry?_of_not_mem htask hservice, if_neg htask]
    simp [about, danglingReport]

theorem about_dangling (es : List Entry) :
    about "invalid-reference" (es.filterMap fun e => badEntry? c e.path e.name)
      = (es.filter fun e => e.name ∉ c.services.keys ∧ e.name ∉ c.tasks.keys).map
          danglingReport := by
  refine about_filterMap (fun e => ?_) es
  rcases entry_cases c e with hservice | htask | hdangling
  · rw [badEntry?_of_isService hservice, if_neg fun h => h.1 hservice.1]
    rfl
  · rw [badEntry?_of_task htask, if_neg fun h => h.2 htask]
    simp [about, taskReport]
  · rw [badEntry?_of_not_mem hdangling.2 hdangling.1, if_pos hdangling]
    simp [about, danglingReport]

theorem badEntry?_constraint {path name : String} {d : Diagnostic}
    (h : badEntry? c path name = some d) : d.constraint ≠ "circular-reference" := by
  unfold badEntry? at h
  split at h
  · obtain rfl := Option.some.inj h
    simp
  · split at h
    · cases h
    · obtain rfl := Option.some.inj h
      simp

/-! ## The parts of the check -/

variable {constraint : String}

theorem flatMap_badEntries_view (c : Spec.Component) :
    (declaredView c).flatMap (badEntries c) ++ (debugView c).flatMap (badEntries c)
      = (entries c).filterMap fun e => badEntry? c e.path e.name := by
  rw [declaredView, debugView, List.flatMap_append, List.flatMap_append,
    flatMap_badEntries_declared, flatMap_badEntries_declared, flatMap_badEntries_debug,
    flatMap_badEntries_debug, entries, List.filterMap_append, List.filterMap_append,
    List.filterMap_append, List.append_assoc, List.append_assoc, List.append_assoc]

theorem reported_eq_false {view : List DependsOn} {l : DependsOn}
    (h : ¬ view.any (·.reported)) (hl : l ∈ view) : l.reported = false := by
  cases hreported : l.reported with
  | true => exact absurd (List.any_eq_true.mpr ⟨l, hl, hreported⟩) h
  | false => rfl

theorem flatMap_badEntries_eq_nil {view : List DependsOn} (h : ¬ view.any (·.reported)) :
    view.flatMap (badEntries c) = [] :=
  List.flatMap_eq_nil_iff.mpr fun _ hl => badEntries_eq_nil (reported_eq_false h hl)

theorem about_checkView_entries (hk : constraint ≠ "circular-reference")
    (known : List String) (view : List DependsOn) :
    about constraint (checkView c known view)
      = about constraint (view.flatMap (badEntries c)) := by
  have hcycles : about constraint
      (((graph c view).circular.filter (· ∉ known)).map (cycle view)) = [] := by
    refine List.filter_eq_nil_iff.mpr fun d hd hmatch => hk ?_
    obtain ⟨name, -, rfl⟩ := List.mem_map.mp hd
    exact (of_decide_eq_true hmatch).symm
  rw [checkView, about_append, hcycles, List.append_nil]

theorem about_check_entries (hk : constraint ≠ "circular-reference") (c : Spec.Component) :
    about constraint (check c)
      = about constraint ((entries c).filterMap fun e => badEntry? c e.path e.name) := by
  rw [← flatMap_badEntries_view, about_append, check, about_append,
    about_checkView_entries hk]
  split
  · rw [about_checkView_entries hk]
  · rename_i hany
    rw [flatMap_badEntries_eq_nil hany]

theorem about_badEntries (view : List DependsOn) :
    about "circular-reference" (view.flatMap (badEntries c)) = [] := by
  refine List.filter_eq_nil_iff.mpr fun d hd hmatch => ?_
  obtain ⟨l, -, hl⟩ := List.mem_flatMap.mp hd
  unfold badEntries at hl
  split at hl
  · obtain ⟨e, -, he⟩ := List.mem_filterMap.mp hl
    exact badEntry?_constraint he (of_decide_eq_true hmatch)
  · cases hl

theorem about_checkView_cycles (known : List String) (view : List DependsOn) :
    about "circular-reference" (checkView c known view)
      = ((graph c view).circular.filter (· ∉ known)).map (cycle view) := by
  rw [checkView, about_append, about_badEntries, List.nil_append]
  refine List.filter_eq_self.mpr fun d hd => ?_
  obtain ⟨name, -, rfl⟩ := List.mem_map.mp hd
  exact decide_eq_true rfl

/-! ## Cycles -/

/-- What a resource depends on: its own list, or in the debug view the list of
its debug block if that has one. -/
def inForce {X : Type} (v : View) (r : Spec.Resource X) : List String :=
  match v, r.debug with
  | .debug, some debug =>
    if debug.body.dependsOn = [] then r.body.dependsOn else debug.body.dependsOn
  | _, _ => r.body.dependsOn

/-- A resource of the first name, a service or a task, has an entry of the
second. -/
inductive Lists (c : Spec.Component) (v : View) (x y : String) : Prop
  | service {s : Spec.Service} (hs : c.services.get? x = some s) (hy : y ∈ inForce v s)
  | task {t : Spec.Task} (ht : c.tasks.get? x = some t) (hy : y ∈ inForce v t)

/-- The step from a resource to a service that it depends on. -/
def Step (c : Spec.Component) (v : View) (x y : String) : Prop := Lists c v x y ∧ IsService c y

theorem services_listIn {X : Type} (v : View) (group name : String) (r : Spec.Resource X) :
    (listIn v group name r).services = inForce v r := by
  cases v with
  | declared => rfl
  | debug =>
      show (debugList group name r).services = inForce .debug r
      unfold debugList inForce
      cases hdebug : r.debug with
      | none => rfl
      | some debug =>
          cases hlist : debug.body.dependsOn with
          | nil => simp [hlist, declaredList]
          | cons d ds => simp [hlist]

theorem needs_iff : Needs c v x y ↔ Lists c v x y := by
  constructor
  · rintro ⟨l, hl, hname, hy⟩
    rw [lists_eq] at hl
    rcases List.mem_append.mp hl with hl | hl
    · obtain ⟨e, he, rfl⟩ := List.mem_map.mp hl
      obtain rfl : e.1 = x := (name_listIn v "services" e.1 e.2).symm.trans hname
      exact .service (Dict.get?_eq_some_iff.mpr he) (services_listIn v "services" e.1 e.2 ▸ hy)
    · obtain ⟨e, he, rfl⟩ := List.mem_map.mp hl
      obtain rfl : e.1 = x := (name_listIn v "tasks" e.1 e.2).symm.trans hname
      exact .task (Dict.get?_eq_some_iff.mpr he) (services_listIn v "tasks" e.1 e.2 ▸ hy)
  · intro h
    cases h with
    | service hs hy => exact .of_services hs ((services_listIn v "services" x _).symm ▸ hy)
    | task ht hy => exact .of_tasks ht ((services_listIn v "tasks" x _).symm ▸ hy)

theorem mem_edges {l : DependsOn} : y ∈ l.edges c ↔ y ∈ l.services ∧ IsService c y := by
  rw [edges, List.mem_filter, IsService, ← Dict.contains_iff, ← Dict.contains_iff]
  simp [and_comm]

theorem edge_lists : (graph c (lists c v)).Edge x y ↔ Step c v x y := by
  rw [edge_graph, Step, ← needs_iff, Needs]
  constructor
  · rintro ⟨l, hl, hname, hy⟩
    obtain ⟨hlisted, hservice⟩ := mem_edges.mp hy
    exact ⟨⟨l, hl, hname, hlisted⟩, hservice⟩
  · rintro ⟨⟨l, hl, hname, hlisted⟩, hservice⟩
    exact ⟨l, hl, hname, mem_edges.mpr ⟨hlisted, hservice⟩⟩

theorem mem_circular : x ∈ (graph c (lists c v)).circular ↔ TransGen (Step c v) x x := by
  have hedge : (graph c (lists c v)).Edge = Step c v :=
    funext₂ fun x y => propext edge_lists
  rw [DependencyGraph.mem_circular_iff (wellFormed_graph c (lists c v)), hedge]

theorem nodup_graph (c : Spec.Component) (view : List DependsOn) : (graph c view).names.Nodup := by
  rw [graph_eq]
  refine List.foldlRecOn (motive := fun g : DependencyGraph => g.names.Nodup) view (addList c)
    (show DependencyGraph.empty.names.Nodup from List.nodup_nil) fun g hg l _ => ?_
  refine List.foldlRecOn (motive := fun g : DependencyGraph => g.names.Nodup) (l.edges c) _
    (DependencyGraph.nodup_addResource hg l.name) fun g hg d _ => ?_
  exact DependencyGraph.nodup_addDependency hg l.name d

theorem nodup_circular (c : Spec.Component) (view : List DependsOn) :
    (graph c view).circular.Nodup := (nodup_graph c view).filter _

/-- Where no debug block has a list, the debug view has the declared steps. -/
theorem step_declared (h : ¬ (debugView c).any (·.reported)) (hstep : Step c .debug x y) :
    Step c .declared x y := by
  obtain ⟨hlists, hservice⟩ := hstep
  refine ⟨?_, hservice⟩
  obtain ⟨l, hl, hname, hy⟩ := needs_iff.mpr hlists
  obtain ⟨l', hl', hname', hservices⟩ := exists_declared hl (reported_eq_false h hl)
  exact needs_iff.mp ⟨l', hl', hname'.trans hname, hservices ▸ hy⟩

/-- The resources that are reported for a cycle: those of the declared view,
and then those that only the debug view adds. -/
def circularNames (c : Spec.Component) : List String :=
  (graph c (declaredView c)).circular
    ++ if (debugView c).any (·.reported) then
        (graph c (debugView c)).circular.filter (· ∉ (graph c (declaredView c)).circular)
      else []

theorem nodup_circularNames (c : Spec.Component) : (circularNames c).Nodup := by
  refine List.nodup_append.mpr ⟨nodup_circular c (declaredView c), ?_, ?_⟩
  · split
    · exact (nodup_circular c (debugView c)).filter _
    · exact List.nodup_nil
  · intro x hx y hy
    split at hy
    · obtain ⟨-, hnew⟩ := List.mem_filter.mp hy
      exact fun heq => of_decide_eq_true hnew (heq ▸ hx)
    · cases hy

theorem mem_circularNames : x ∈ circularNames c ↔ ∃ v, TransGen (Step c v) x x := by
  have hdeclared : x ∈ (graph c (declaredView c)).circular ↔ TransGen (Step c .declared) x x :=
    mem_circular (v := .declared)
  have hdebug : x ∈ (graph c (debugView c)).circular ↔ TransGen (Step c .debug) x x :=
    mem_circular (v := .debug)
  rw [circularNames, List.mem_append, hdeclared]
  constructor
  · rintro (hcycle | hmem)
    · exact ⟨.declared, hcycle⟩
    · split at hmem
      · exact ⟨.debug, hdebug.mp (List.mem_filter.mp hmem).1⟩
      · cases hmem
  · rintro ⟨v, hcycle⟩
    cases v with
    | declared => exact Or.inl hcycle
    | debug =>
        by_cases hknown : TransGen (Step c .declared) x x
        · exact Or.inl hknown
        · have hany : (debugView c).any (·.reported) := by
            by_contra hnone
            exact hknown (TransGen.mono (fun _ _ => step_declared hnone) x x hcycle)
          rw [if_pos hany]
          refine Or.inr (List.mem_filter.mpr ⟨hdebug.mpr hcycle, decide_eq_true ?_⟩)
          exact fun hmem => hknown (hdeclared.mp hmem)

/-! ## Reports on cycles -/

/-- A list of the resource is written there. -/
def IsListPath (name path : String) : Prop :=
  ∃ group ∈ ["services", "tasks"], path = group ++ "." ++ name ++ ".depends_on"
    ∨ path = group ++ "." ++ name ++ ".debug.depends_on"

/-- The problem says that the resource is on a cycle, at one of its lists. -/
def IsCircularReport (name : String) (d : Diagnostic) : Prop :=
  ∃ path, IsListPath name path ∧
    d = { kind := .circularReference, path, constraint := "circular-reference",
          message := "\"" ++ name ++ "\" is part of a circular depends_on chain", value := name }

theorem path_listIn {X : Type} (v : View) (group name : String) (r : Spec.Resource X) :
    (listIn v group name r).path = group ++ "." ++ name ++ ".depends_on"
      ∨ (listIn v group name r).path = group ++ "." ++ name ++ ".debug.depends_on" := by
  cases v with
  | declared => exact Or.inl rfl
  | debug =>
      show (debugList group name r).path = _ ∨ (debugList group name r).path = _
      unfold debugList
      split
      · split
        · exact Or.inl rfl
        · exact Or.inr rfl
      · exact Or.inl rfl

theorem isListPath_of_mem {l : DependsOn} (h : l ∈ lists c v) : IsListPath l.name l.path := by
  rw [lists_eq] at h
  rcases List.mem_append.mp h with h | h
  · obtain ⟨e, -, rfl⟩ := List.mem_map.mp h
    rw [name_listIn]
    exact ⟨"services", List.mem_cons_self .., path_listIn v "services" e.1 e.2⟩
  · obtain ⟨e, -, rfl⟩ := List.mem_map.mp h
    rw [name_listIn]
    exact ⟨"tasks", List.mem_cons_of_mem _ (List.mem_cons_self ..), path_listIn v "tasks" e.1 e.2⟩

theorem isCircularReport_cycle (h : x ∈ (graph c (lists c v)).circular) :
    IsCircularReport x (cycle (lists c v) x) := by
  obtain ⟨y, ⟨hlists, -⟩, -⟩ := TransGen.head'_iff.mp (mem_circular.mp h)
  obtain ⟨l, hl, hname, -⟩ := needs_iff.mpr hlists
  cases hfind : (lists c v).find? fun l => l.name = x with
  | none => exact absurd (decide_eq_true hname) (List.find?_eq_none.mp hfind l hl)
  | some first =>
      have hfound := List.find?_some hfind
      have hfirst : first.name = x := of_decide_eq_true hfound
      refine ⟨first.path, hfirst ▸ isListPath_of_mem (List.mem_of_find?_eq_some hfind), ?_⟩
      rw [cycle, hfind]

theorem reports_map_cycle {names : List String} (h : names ⊆ (graph c (lists c v)).circular) :
    List.Forall₂ IsCircularReport names (names.map (cycle (lists c v))) :=
  List.forall₂_map_right_iff.mpr
    (List.forall₂_same.mpr fun _ hx => isCircularReport_cycle (h hx))

theorem about_check_cycles (c : Spec.Component) :
    List.Forall₂ IsCircularReport (circularNames c) (about "circular-reference" (check c)) := by
  rw [check, about_append, about_checkView_cycles, circularNames]
  refine List.rel_append ?_ ?_
  · have hall : (graph c (declaredView c)).circular.filter (· ∉ [])
        = (graph c (declaredView c)).circular := List.filter_eq_self.mpr fun _ _ => by simp
    rw [hall]
    exact reports_map_cycle (v := .declared) (List.Subset.refl _)
  · split
    · rw [about_checkView_cycles]
      exact reports_map_cycle (v := .debug) (List.filter_subset_self _)
    · exact .nil

/-! ## What is reported -/

theorem map_name_listEntries (path : String) (names : List String) :
    (listEntries path names).map Entry.name = names := by
  rw [listEntries, List.map_map]
  exact List.zipIdx_map_fst 0 names

theorem map_name_ownEntries {X : Type} (group : String) (resources : Dict (Spec.Resource X)) :
    (ownEntries group resources).map Entry.name
      = resources.entries.flatMap fun e => e.2.body.dependsOn := by
  rw [ownEntries, List.map_flatMap]
  exact List.flatMap_congr fun e _ => map_name_listEntries _ _

theorem map_name_debugEntries {X : Type} (group : String) (resources : Dict (Spec.Resource X)) :
    (debugEntries group resources).map Entry.name = resources.entries.flatMap fun e =>
      e.2.debug.toList.flatMap fun debug => debug.body.dependsOn := by
  rw [debugEntries, List.map_flatMap]
  refine List.flatMap_congr fun e _ => ?_
  rw [List.map_flatMap]
  exact List.flatMap_congr fun debug _ => map_name_listEntries _ _

theorem exists_mem_inForce {X : Type} {r : Spec.Resource X} : (∃ v, y ∈ inForce v r)
    ↔ y ∈ r.body.dependsOn ∨ ∃ debug, r.debug = some debug ∧ y ∈ debug.body.dependsOn := by
  constructor
  · rintro ⟨v, hy⟩
    unfold inForce at hy
    split at hy
    · rename_i debug hdebug
      split at hy
      · exact Or.inl hy
      · exact Or.inr ⟨debug, hdebug, hy⟩
    · exact Or.inl hy
  · rintro (hy | ⟨debug, hdebug, hy⟩)
    · exact ⟨.declared, hy⟩
    · refine ⟨.debug, ?_⟩
      have hlist : debug.body.dependsOn ≠ [] := List.ne_nil_of_mem hy
      simp only [inForce, hdebug]
      rwa [if_neg hlist]

/-- The entries of a group are what its resources list in some view. -/
theorem mem_names_iff {X : Type} (group : String) (resources : Dict (Spec.Resource X)) :
    y ∈ (ownEntries group resources).map Entry.name ∨
        y ∈ (debugEntries group resources).map Entry.name
      ↔ ∃ v x r, resources.get? x = some r ∧ y ∈ inForce v r := by
  have hown : y ∈ (ownEntries group resources).map Entry.name
      ↔ ∃ x r, resources.get? x = some r ∧ y ∈ r.body.dependsOn := by
    rw [map_name_ownEntries, List.mem_flatMap, Prod.exists]
    simp only [Dict.get?_eq_some_iff]
  have hdebug : y ∈ (debugEntries group resources).map Entry.name ↔ ∃ x r,
      resources.get? x = some r ∧ ∃ debug, r.debug = some debug ∧ y ∈ debug.body.dependsOn := by
    rw [map_name_debugEntries, List.mem_flatMap, Prod.exists]
    simp only [Dict.get?_eq_some_iff, List.mem_flatMap, Option.mem_toList]
  rw [hown, hdebug]
  constructor
  · rintro (⟨x, r, hr, hy⟩ | ⟨x, r, hr, hy⟩)
    · obtain ⟨v, hv⟩ := exists_mem_inForce.mpr (Or.inl hy)
      exact ⟨v, x, r, hr, hv⟩
    · obtain ⟨v, hv⟩ := exists_mem_inForce.mpr (Or.inr hy)
      exact ⟨v, x, r, hr, hv⟩
  · rintro ⟨v, x, r, hr, hy⟩
    rcases exists_mem_inForce.mp ⟨v, hy⟩ with hy | hy
    · exact Or.inl ⟨x, r, hr, hy⟩
    · exact Or.inr ⟨x, r, hr, hy⟩

/-- The entries of a spec are what its resources list in some view. -/
theorem mem_names_entries : y ∈ (entries c).map Entry.name ↔ ∃ v x, Lists c v x y := by
  have hgroups : y ∈ (entries c).map Entry.name ↔
      (∃ v x s, c.services.get? x = some s ∧ y ∈ inForce v s)
        ∨ ∃ v x t, c.tasks.get? x = some t ∧ y ∈ inForce v t := by
    rw [← mem_names_iff "services", ← mem_names_iff "tasks", entries, List.map_append,
      List.map_append, List.map_append, List.mem_append, List.mem_append, List.mem_append, or_assoc]
    exact or_or_or_comm
  rw [hgroups]
  constructor
  · rintro (⟨v, x, s, hs, hy⟩ | ⟨v, x, t, ht, hy⟩)
    · exact ⟨v, x, .service hs hy⟩
    · exact ⟨v, x, .task ht hy⟩
  · rintro ⟨v, x, hlists⟩
    cases hlists with
    | service hs hy => exact Or.inl ⟨v, x, _, hs, hy⟩
    | task ht hy => exact Or.inr ⟨v, x, _, ht, hy⟩

theorem forall_entries_iff : (∀ e ∈ entries c, IsService c e.name)
    ↔ ∀ v x y, Lists c v x y → IsService c y := by
  constructor
  · intro h v x y hlists
    obtain ⟨e, he, rfl⟩ := List.mem_map.mp (mem_names_entries.mpr ⟨v, x, hlists⟩)
    exact h e he
  · intro h e he
    obtain ⟨v, x, hlists⟩ := mem_names_entries.mp (List.mem_map_of_mem he)
    exact h v x e.name hlists

theorem unrelated_iff {ds : List Diagnostic} :
    Unrelated ds ↔ ∀ constraint ∈ dependsOnConstraints, about constraint ds = [] := by
  constructor
  · exact fun h constraint hk => h.about_eq_nil hk
  · intro h d hd hk
    have hmem : d ∈ about d.constraint ds := List.mem_filter.mpr ⟨hd, decide_eq_true rfl⟩
    rw [h d.constraint hk] at hmem
    cases hmem

theorem circularNames_eq_nil_iff : circularNames c = [] ↔ ∀ v, Acyclic (Step c v) := by
  rw [List.eq_nil_iff_forall_not_mem]
  constructor
  · exact fun h v x hcycle => h x (mem_circularNames.mpr ⟨v, hcycle⟩)
  · intro h x hx
    obtain ⟨v, hcycle⟩ := mem_circularNames.mp hx
    exact h v x hcycle

theorem about_cycles_eq_nil_iff :
    about "circular-reference" (check c) = [] ↔ ∀ v, Acyclic (Step c v) := by
  rw [← circularNames_eq_nil_iff, ← List.length_eq_zero_iff, ← List.length_eq_zero_iff,
    (about_check_cycles c).length_eq]

theorem about_entries_eq_nil_iff :
    about "no-task-dependency" (check c) = [] ∧ about "invalid-reference" (check c) = []
      ↔ ∀ v x y, Lists c v x y → IsService c y := by
  rw [about_check_entries (by simp), about_check_entries (by simp), about_tasks, about_dangling,
    List.map_eq_nil_iff, List.map_eq_nil_iff, List.filter_eq_nil_iff, List.filter_eq_nil_iff,
    ← forall_entries_iff]
  constructor
  · rintro ⟨htasks, hdangling⟩ e he
    rcases entry_cases c e with hservice | htask | hnone
    · exact hservice
    · exact absurd (decide_eq_true htask) (htasks e he)
    · exact absurd (decide_eq_true hnone) (hdangling e he)
  · intro h
    refine ⟨fun e he htask => ?_, fun e he hnone => ?_⟩
    · exact (h e he).2 (of_decide_eq_true htask)
    · exact (of_decide_eq_true hnone).1 (h e he).1

/-- Each resource on a cycle of a view is reported once, and each entry that
names a task or nothing once, where it is written. So nothing is reported
exactly if in both views all entries name services and there is no cycle. -/
theorem validate_dependsOn (ps : Perspectives) (c : Spec.Component) :
    (∃ names : List String, names.Nodup ∧ (∀ x, x ∈ names ↔ ∃ v, TransGen (Step c v) x x)
      ∧ List.Forall₂ IsCircularReport names (about "circular-reference" (validate ps c)))
    ∧ about "no-task-dependency" (validate ps c)
        = ((entries c).filter fun e => e.name ∈ c.tasks.keys).map taskReport
    ∧ about "invalid-reference" (validate ps c)
        = ((entries c).filter fun e => e.name ∉ c.services.keys ∧ e.name ∉ c.tasks.keys).map
            danglingReport
    ∧ (Unrelated (validate ps c)
        ↔ ∀ v, (∀ x y, Lists c v x y → IsService c y) ∧ Acyclic (Step c v)) := by
  have hcheck : ∀ constraint ∈ dependsOnConstraints,
      about constraint (validate ps c) = about constraint (check c) :=
    fun _ hk => about_validate hk ps c
  simp only [dependsOnConstraints, List.forall_mem_cons] at hcheck
  obtain ⟨hcycles, htasks, hdangling, -⟩ := hcheck
  refine ⟨⟨circularNames c, nodup_circularNames c, fun x => mem_circularNames, ?_⟩, ?_, ?_, ?_⟩
  · rw [hcycles]
    exact about_check_cycles c
  · rw [htasks, about_check_entries (by simp), about_tasks]
  · rw [hdangling, about_check_entries (by simp), about_dangling]
  · have hnone : Unrelated (validate ps c) ↔ about "circular-reference" (check c) = []
        ∧ about "no-task-dependency" (check c) = [] ∧ about "invalid-reference" (check c) = [] := by
      rw [unrelated_iff]
      simp [dependsOnConstraints, hcycles, htasks, hdangling]
    rw [hnone, about_cycles_eq_nil_iff, about_entries_eq_nil_iff]
    constructor
    · exact fun h v => ⟨h.2 v, h.1 v⟩
    · exact fun h => ⟨fun v => (h v).2, fun v => (h v).1⟩

end DependsOn

end Manifest.Validation
