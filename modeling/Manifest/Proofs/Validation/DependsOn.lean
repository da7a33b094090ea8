import Manifest.Validation
import Manifest.Proofs.Dict
import Manifest.Proofs.DependencyGraph
/-!
# What valid lists of dependencies look like

If the check of what resources depend on finds nothing, then in both views
every entry names a service and no task, and no resource depends on itself
through others. The debug view is only searched where it differs from the
declared one; where it does not, it has the same dependencies.
-/

namespace Manifest

/-- The lists of a component as declared, or with those of its debug blocks in
force. -/
inductive View where
  | declared
  | debug

namespace Validation.DependsOn

variable {c : Spec.Component} {view : List DependsOn} {x y : String}

/-! ## The graph of a view -/

theorem wellFormed_addDependencies (name : String) : ∀ (ds : List String) {g : DependencyGraph},
    g.WellFormed → (ds.foldl (fun g d => g.addDependency name d) g).WellFormed
  | [], _, hg => hg
  | d :: ds, _, hg => wellFormed_addDependencies name ds (hg.addDependency name d)

theorem edge_addDependencies (name : String) : ∀ (ds : List String) {g : DependencyGraph},
    (ds.foldl (fun g d => g.addDependency name d) g).Edge x y ↔
      g.Edge x y ∨ x = name ∧ y ∈ ds
  | [], g => by simp
  | d :: ds, g => by
      rw [List.foldl_cons, edge_addDependencies name ds, DependencyGraph.edge_addDependency,
        List.mem_cons, or_assoc, ← and_or_left]

/-- The graph with one more list. -/
def addList (c : Spec.Component) (g : DependencyGraph) (l : DependsOn) : DependencyGraph :=
  (l.edges c).foldl (fun g d => g.addDependency l.name d) (g.addResource l.name)

theorem graph_eq (c : Spec.Component) (view : List DependsOn) :
    graph c view = view.foldl (addList c) .empty := rfl

theorem wellFormed_graph (c : Spec.Component) (view : List DependsOn) :
    (graph c view).WellFormed := by
  rw [graph_eq]
  refine List.foldlRecOn (motive := DependencyGraph.WellFormed) view (addList c)
    DependencyGraph.wellFormed_empty fun g hg l _ => ?_
  exact wellFormed_addDependencies l.name (l.edges c) (hg.addResource l.name)

theorem edge_foldl_addList (c : Spec.Component) : ∀ (view : List DependsOn) {g : DependencyGraph},
    (view.foldl (addList c) g).Edge x y ↔
      g.Edge x y ∨ ∃ l ∈ view, l.name = x ∧ y ∈ l.edges c
  | [], g => by simp
  | l :: view, g => by
      have hfirst : (addList c g l).Edge x y ↔ g.Edge x y ∨ l.name = x ∧ y ∈ l.edges c := by
        rw [addList, edge_addDependencies, DependencyGraph.Edge,
          DependencyGraph.edges_addResource, ← DependencyGraph.Edge, eq_comm]
      rw [List.foldl_cons, edge_foldl_addList c view, hfirst, or_assoc]
      simp

theorem edge_graph : (graph c view).Edge x y ↔ ∃ l ∈ view, l.name = x ∧ y ∈ l.edges c := by
  rw [graph_eq, edge_foldl_addList]
  exact or_iff_right (by simp [DependencyGraph.Edge, DependencyGraph.empty])

/-! ## Entries -/

/-- The entry is in order: it names a service and no task. -/
def IsService (c : Spec.Component) (name : String) : Prop :=
  name ∈ c.services.keys ∧ name ∉ c.tasks.keys

theorem isService_of_badEntry? {path dependency : String}
    (h : badEntry? c path dependency = none) : IsService c dependency := by
  unfold badEntry? at h
  split at h
  · cases h
  · rename_i htask
    split at h
    · rename_i hservice
      exact ⟨Dict.contains_iff.mp hservice, fun hmem => htask (Dict.contains_iff.mpr hmem)⟩
    · cases h

theorem isService_of_badEntries {l : DependsOn} (hreported : l.reported = true)
    (h : badEntries c l = []) : ∀ d ∈ l.services, IsService c d := by
  intro d hd
  unfold badEntries at h
  rw [if_pos hreported] at h
  obtain ⟨index, hindex⟩ := List.mem_iff_getElem?.mp hd
  have hmem : (d, index) ∈ l.services.zipIdx := List.mk_mem_zipIdx_iff_getElem?.mpr hindex
  exact isService_of_badEntry? (List.filterMap_eq_nil_iff.mp h (d, index) hmem)

/-! ## Views -/

/-- The list of one resource. -/
def listIn {X : Type} : View → String → String → Spec.Resource X → DependsOn
  | .declared => declaredList
  | .debug => debugList

def lists (c : Spec.Component) : View → List DependsOn
  | .declared => declaredView c
  | .debug => debugView c

theorem lists_eq (v : View) : lists c v =
    ofResources (listIn v "services") c.services ++ ofResources (listIn v "tasks") c.tasks := by
  cases v <;> rfl

/-- One resource has another in its list. -/
def Needs (c : Spec.Component) (v : View) (x y : String) : Prop :=
  ∃ l ∈ lists c v, l.name = x ∧ y ∈ l.services

theorem name_listIn {X : Type} (v : View) (group name : String) (r : Spec.Resource X) :
    (listIn v group name r).name = name := by
  cases v with
  | declared => rfl
  | debug =>
      show (debugList group name r).name = name
      unfold debugList
      split
      · split <;> rfl
      · rfl

theorem Needs.of_services {v : View} {s : Spec.Service} (hs : c.services.get? x = some s)
    (hy : y ∈ (listIn v "services" x s).services) : Needs c v x y := by
  refine ⟨listIn v "services" x s, ?_, name_listIn v "services" x s, hy⟩
  rw [lists_eq]
  exact List.mem_append_left _ (List.mem_map.mpr ⟨(x, s), Dict.get?_eq_some_iff.mp hs, rfl⟩)

theorem Needs.of_tasks {v : View} {t : Spec.Task} (ht : c.tasks.get? x = some t)
    (hy : y ∈ (listIn v "tasks" x t).services) : Needs c v x y := by
  refine ⟨listIn v "tasks" x t, ?_, name_listIn v "tasks" x t, hy⟩
  rw [lists_eq]
  exact List.mem_append_right _ (List.mem_map.mpr ⟨(x, t), Dict.get?_eq_some_iff.mp ht, rfl⟩)

theorem reported_of_declared {l : DependsOn} (h : l ∈ declaredView c) : l.reported = true := by
  rcases List.mem_append.mp h with h | h
  · obtain ⟨e, -, rfl⟩ := List.mem_map.mp h
    rfl
  · obtain ⟨e, -, rfl⟩ := List.mem_map.mp h
    rfl

theorem debugList_eq {X : Type} (group name : String) (r : Spec.Resource X) :
    (debugList group name r).reported = true ∨
      debugList group name r = { declaredList group name r with reported := false } := by
  unfold debugList
  split
  · split
    · exact Or.inr rfl
    · exact Or.inl rfl
  · exact Or.inr rfl

/-- A list that is not new in the debug view is one of the declared lists. -/
theorem exists_declared {l : DependsOn} (h : l ∈ debugView c) (hold : l.reported = false) :
    ∃ l' ∈ declaredView c, l'.name = l.name ∧ l'.services = l.services := by
  have hdeclared : ∀ {X : Type} (group : String) (resources : Dict (Spec.Resource X)),
      l ∈ ofResources (debugList group) resources →
        ∃ l' ∈ ofResources (declaredList group) resources,
          l'.name = l.name ∧ l'.services = l.services := by
    intro X group resources hl
    obtain ⟨⟨name, r⟩, hmem, rfl⟩ := List.mem_map.mp hl
    refine ⟨declaredList group name r, List.mem_map.mpr ⟨(name, r), hmem, rfl⟩, ?_⟩
    rcases debugList_eq group name r with hreported | heq
    · rw [hold] at hreported
      cases hreported
    · dsimp only
      rw [heq]
      exact ⟨rfl, rfl⟩
  rcases List.mem_append.mp h with h | h
  · obtain ⟨l', hl', heq⟩ := hdeclared "services" c.services h
    exact ⟨l', List.mem_append_left _ hl', heq⟩
  · obtain ⟨l', hl', heq⟩ := hdeclared "tasks" c.tasks h
    exact ⟨l', List.mem_append_right _ hl', heq⟩

/-! ## What the check rules out -/

theorem checkView_eq_nil (h : checkView c [] view = []) :
    (∀ l ∈ view, badEntries c l = []) ∧ (graph c view).circular = [] := by
  obtain ⟨hentries, hcycles⟩ := List.append_eq_nil_iff.mp h
  refine ⟨List.flatMap_eq_nil_iff.mp hentries, ?_⟩
  simpa using hcycles

/-- The declared view is in order, and so is the debug view where it is new. -/
theorem check_eq_nil (h : check c = []) : checkView c [] (declaredView c) = [] ∧
    ((debugView c).any (·.reported) → checkView c [] (debugView c) = []) := by
  obtain ⟨hdeclared, hdebug⟩ := List.append_eq_nil_iff.mp h
  refine ⟨hdeclared, fun hany => ?_⟩
  rwa [if_pos hany, (checkView_eq_nil hdeclared).2] at hdebug

theorem isService_of_check (h : check c = []) {v : View} (hneeds : Needs c v x y) :
    IsService c y := by
  obtain ⟨hdeclared, hdebug⟩ := check_eq_nil h
  have hview : ∀ l ∈ declaredView c, ∀ d ∈ l.services, IsService c d := by
    intro l hl
    obtain ⟨hentries, -⟩ := checkView_eq_nil hdeclared
    exact isService_of_badEntries (reported_of_declared hl) (hentries l hl)
  obtain ⟨l, hl, -, hy⟩ := hneeds
  cases v with
  | declared => exact hview l hl y hy
  | debug =>
      cases hreported : l.reported with
      | true =>
          have hany : (debugView c).any (·.reported) := List.any_eq_true.mpr ⟨l, hl, hreported⟩
          obtain ⟨hentries, -⟩ := checkView_eq_nil (hdebug hany)
          exact isService_of_badEntries hreported (hentries l hl) y hy
      | false =>
          obtain ⟨l', hl', -, hservices⟩ := exists_declared hl hreported
          exact hview l' hl' y (hservices ▸ hy)

theorem edge_of_needs (h : check c = []) {v : View} (hneeds : Needs c v x y) :
    (graph c (lists c v)).Edge x y := by
  obtain ⟨hservice, htask⟩ := isService_of_check h hneeds
  obtain ⟨l, hl, hname, hy⟩ := hneeds
  have hknown : c.services.contains y := Dict.contains_iff.mpr hservice
  have hother : ¬ c.tasks.contains y := fun hcontains => htask (Dict.contains_iff.mp hcontains)
  have hkept : y ∈ l.edges c := List.mem_filter.mpr ⟨hy, by simp [hknown, hother]⟩
  exact edge_graph.mpr ⟨l, hl, hname, hkept⟩

theorem acyclic_of_checkView (h : check c = []) {v : View}
    (hview : checkView c [] (lists c v) = []) : Acyclic (Needs c v) := by
  obtain ⟨-, hcircular⟩ := checkView_eq_nil hview
  have hgraph : Acyclic (graph c (lists c v)).Edge :=
    (DependencyGraph.acyclic_iff (wellFormed_graph c (lists c v))).mpr hcircular
  exact hgraph.of_le fun x y hneeds => edge_of_needs h hneeds

theorem acyclic_of_check (h : check c = []) (v : View) : Acyclic (Needs c v) := by
  obtain ⟨hview, hdebug⟩ := check_eq_nil h
  have hdeclared : Acyclic (Needs c .declared) := acyclic_of_checkView h hview
  cases v with
  | declared => exact hdeclared
  | debug =>
      by_cases hany : (debugView c).any (·.reported)
      · exact acyclic_of_checkView h (hdebug hany)
      · refine hdeclared.of_le fun a b hneeds => ?_
        obtain ⟨l, hl, hname, hb⟩ := hneeds
        have hold : l.reported = false := by
          cases hreported : l.reported with
          | true => exact absurd (List.any_eq_true.mpr ⟨l, hl, hreported⟩) hany
          | false => rfl
        obtain ⟨l', hl', hname', hservices⟩ := exists_declared hl hold
        exact ⟨l', hl', hname'.trans hname, hservices ▸ hb⟩

end Validation.DependsOn

end Manifest
