import Manifest.Proofs.DependencyGraph.Search
/-!
# Dependencies start first

The startup order of a graph that is built step by step exists exactly if no
resource is reported to lie on a cycle. A complete search lists a resource
before one that it depends on, unless the two are on a cycle (`behind`), and
then the check of the order finds such a pair.
-/

namespace Manifest.DependencyGraph

open Relation (ReflTransGen TransGen)

variable {g : DependencyGraph} {x y : String}

/-! ## The check of an order -/

variable {passed order rest : List String}

theorem nextUpstream?_cases (g : DependencyGraph) (passed : List String) :
    ∀ stack : List String, (g.nextUpstream? passed stack = none ∧ stack ⊆ passed)
      ∨ ∃ y stack', g.nextUpstream? passed stack = some (y, stack') ∧ y ∈ stack ∧ y ∉ passed
  | [] => Or.inl ⟨rfl, List.nil_subset _⟩
  | x :: rest => by
      rw [nextUpstream?]
      split
      · rename_i hx
        rcases nextUpstream?_cases g passed rest with ⟨hnone, hsub⟩ | ⟨y, stack', hsome, hy, hnew⟩
        · exact Or.inl ⟨hnone, List.cons_subset.mpr ⟨hx, hsub⟩⟩
        · exact Or.inr ⟨y, stack', hsome, List.mem_cons_of_mem x hy, hnew⟩
      · rename_i hx
        exact Or.inr ⟨x, _, rfl, List.mem_cons_self .., hx⟩

/-- What is upstream of a resource and was not passed. -/
def upstream (g : DependencyGraph) (passed : List String) (x : String) : List String :=
  ((g.dependents x).filter (· ∉ x :: passed)).reverse

theorem mem_upstream : y ∈ g.upstream passed x ↔ g.Edge y x ∧ y ∉ x :: passed := by
  rw [upstream, List.mem_reverse, List.mem_filter, decide_eq_true_iff]
  simp [dependents, Edge]

theorem nextUpstream?_singleton (hx : x ∉ passed) :
    g.nextUpstream? passed [x] = some (x, g.upstream passed x) := by
  rw [nextUpstream?, if_neg hx, List.append_nil]
  rfl

/-- One resource of the order: what depends on it was passed, or is named. -/
theorem misplaced?_step (g : DependencyGraph) (rest : List String) (hx : x ∉ passed) :
    (g.misplaced? passed (x :: rest) = g.misplaced? (x :: passed) rest
        ∧ ∀ y, g.Edge y x → y ∈ x :: passed)
      ∨ ∃ culprit, g.misplaced? passed (x :: rest) = some culprit
        ∧ g.Edge culprit x ∧ culprit ∉ x :: passed := by
  simp only [misplaced?, nextUpstream?_singleton hx]
  rcases nextUpstream?_cases g (x :: passed) (g.upstream passed x) with
    ⟨hnone, hsub⟩ | ⟨culprit, stack', hsome, hculprit, hnew⟩
  · rw [hnone]
    refine Or.inl ⟨rfl, fun y hedge => ?_⟩
    by_contra hnot
    exact hnot (hsub (mem_upstream.mpr ⟨hedge, hnot⟩))
  · rw [hsome]
    exact Or.inr ⟨culprit, rfl, (mem_upstream.mp hculprit).1, hnew⟩

/-- In the order, what depends on a resource stands before it or was passed. -/
def InOrder (g : DependencyGraph) (passed order : List String) : Prop :=
  ∀ {before after : List String} {x : String}, order = before ++ x :: after →
    ∀ y, g.Edge y x → y = x ∨ y ∈ before ∨ y ∈ passed

/-- A resource of the order has one that depends on it later. -/
def Misplaces (g : DependencyGraph) (passed order : List String) (culprit : String) : Prop :=
  ∃ before x after, order = before ++ x :: after ∧ g.Edge culprit x ∧ culprit ≠ x
    ∧ culprit ∉ before ∧ culprit ∉ passed

theorem Misplaces.cons {culprit : String} (h : Misplaces g (x :: passed) rest culprit) :
    Misplaces g passed (x :: rest) culprit := by
  obtain ⟨before, z, after, rfl, hedge, hne, hbefore, hnew⟩ := h
  obtain ⟨hx, hpassed⟩ := not_or.mp fun hmem => hnew (List.mem_cons.mpr hmem)
  refine ⟨x :: before, z, after, rfl, hedge, hne, ?_, hpassed⟩
  intro hmem
  exact (List.mem_cons.mp hmem).elim hx hbefore

theorem InOrder.cons (h : InOrder g (x :: passed) rest)
    (hx : ∀ y, g.Edge y x → y ∈ x :: passed) : InOrder g passed (x :: rest) := by
  intro before after z hsplit y hedge
  rcases List.cons_eq_append_iff.mp hsplit with ⟨-, htop⟩ | ⟨before', rfl, hrest⟩
  · obtain ⟨rfl, -⟩ := List.cons.inj htop
    exact (List.mem_cons.mp (hx y hedge)).imp_right Or.inr
  · rcases h hrest y hedge with heq | hbefore | hpassed
    · exact Or.inl heq
    · exact Or.inr (Or.inl (List.mem_cons_of_mem x hbefore))
    · rcases List.mem_cons.mp hpassed with rfl | hpassed
      · exact Or.inr (Or.inl (List.mem_cons_self ..))
      · exact Or.inr (Or.inr hpassed)

/-- The check finds a resource that comes too late, if there is one. -/
theorem misplaced?_cases (g : DependencyGraph) : ∀ {order passed : List String}, order.Nodup →
    (∀ x ∈ order, x ∉ passed) →
    (g.misplaced? passed order = none ∧ InOrder g passed order)
      ∨ ∃ culprit, g.misplaced? passed order = some culprit ∧ Misplaces g passed order culprit
  | [], _, _, _ => by
      refine Or.inl ⟨rfl, ?_⟩
      intro before after x hsplit
      exact absurd hsplit.symm
        (List.append_ne_nil_of_right_ne_nil before (List.cons_ne_nil x after))
  | x :: rest, passed, hnodup, hnew => by
      obtain ⟨hx, hrest⟩ := List.nodup_cons.mp hnodup
      have hfresh : x ∉ passed := hnew x (List.mem_cons_self ..)
      rcases misplaced?_step g rest hfresh with
        ⟨heq, hupstream⟩ | ⟨culprit, hsome, hedge, hculprit⟩
      · have hlater : ∀ y ∈ rest, y ∉ x :: passed := by
          intro y hy hmem
          rcases List.mem_cons.mp hmem with rfl | hpassed
          · exact hx hy
          · exact hnew y (List.mem_cons_of_mem x hy) hpassed
        rw [heq]
        rcases misplaced?_cases g hrest hlater with ⟨hnone, hin⟩ | ⟨culprit, hsome, hmis⟩
        · exact Or.inl ⟨hnone, hin.cons hupstream⟩
        · exact Or.inr ⟨culprit, hsome, hmis.cons⟩
      · obtain ⟨hne, hpassed⟩ := not_or.mp fun hmem => hculprit (List.mem_cons.mpr hmem)
        exact Or.inr ⟨culprit, hsome, [], x, rest, rfl, hedge, hne, List.not_mem_nil, hpassed⟩

/-! ## The order -/

/-- Who comes too late in a complete search leads back to itself. -/
theorem Complete.transGen_of_misplaces (h : Complete g order) (hg : g.WellFormed)
    {culprit : String} (hmis : Misplaces g [] order culprit) : TransGen g.Edge culprit culprit := by
  obtain ⟨before, x, after, horder, hedge, hne, hbefore, -⟩ := hmis
  have hmem : culprit ∈ before ++ x :: after := horder ▸ (h.mem culprit).mpr (hg _ hedge).1
  have hafter : culprit ∈ after := by
    rcases List.mem_append.mp hmem with hmem | hmem
    · exact absurd hmem hbefore
    · exact (List.mem_cons.mp hmem).resolve_left hne
  obtain ⟨between, behind, rfl⟩ := List.append_of_mem hafter
  have hsplit : order = (before ++ x :: between) ++ culprit :: behind := by
    rw [horder, List.append_assoc, List.cons_append]
  rcases h.behind hsplit x hedge with hbehind | hback
  · -- `x` would stand in the order twice
    have hnodup : ((before ++ x :: between) ++ culprit :: behind).Nodup := hsplit ▸ h.nodup
    have hdisjoint := (List.nodup_append.mp hnodup).2.2
    have hfront : x ∈ before ++ x :: between := List.mem_append_right before (List.mem_cons_self ..)
    exact absurd rfl (hdisjoint x hfront x (List.mem_cons_of_mem culprit hbehind))
  · exact .head' hedge hback

/-- The reversed order puts what a resource depends on before it. -/
theorem Complete.idxOf_lt (h : Complete g order) (hg : g.WellFormed) (hin : InOrder g [] order)
    (hedge : g.Edge x y) : order.reverse.idxOf y < order.reverse.idxOf x := by
  have hmem : y ∈ order := (h.mem y).mpr (hg _ hedge).2
  obtain ⟨before, after, rfl⟩ := List.append_of_mem hmem
  have hne : x ≠ y := fun heq => h.loopless y (heq ▸ hedge)
  have hbefore : x ∈ before := by
    rcases hin rfl x hedge with heq | hbefore | hnil
    · exact absurd heq hne
    · exact hbefore
    · cases hnil
  obtain ⟨-, hcons, hdisjoint⟩ := List.nodup_append.mp h.nodup
  have hy : y ∉ after.reverse := fun hy => (List.nodup_cons.mp hcons).1 (List.mem_reverse.mp hy)
  have hx : x ∉ after.reverse := fun hx =>
    hdisjoint x hbefore x (List.mem_cons_of_mem y (List.mem_reverse.mp hx)) rfl
  have hreverse : (before ++ y :: after).reverse = after.reverse ++ y :: before.reverse := by
    rw [List.reverse_append, List.reverse_cons, List.append_assoc]
    rfl
  rw [hreverse, List.idxOf_append_of_notMem hy, List.idxOf_append_of_notMem hx,
    List.idxOf_cons_self, List.idxOf_cons_ne _ hne.symm]
  omega

/-- A startup order, or a resource on a cycle. -/
theorem startupOrder?_cases (hg : g.WellFormed) :
    (∃ name, g.startupOrder? = .error name ∧ TransGen g.Edge name name)
      ∨ ∃ order, g.startupOrder? = .ok order ∧ order.Nodup ∧ (∀ x, x ∈ order ↔ x ∈ g.names)
        ∧ ∀ x y, g.Edge x y → order.idxOf y < order.idxOf x := by
  unfold startupOrder?
  rcases dependentsFirst_cases hg with ⟨name, herror, hloop⟩ | ⟨order, hok, hcomplete⟩
  · rw [herror]
    exact Or.inl ⟨name, rfl, .single hloop⟩
  · rw [hok]
    have hnew : ∀ x ∈ order, x ∉ ([] : List String) := fun _ _ => List.not_mem_nil
    rcases misplaced?_cases g hcomplete.nodup hnew with ⟨hnone, hin⟩ | ⟨culprit, hsome, hmis⟩
    · refine Or.inr ⟨order.reverse, ?_, (List.reverse_perm order).nodup_iff.mpr hcomplete.nodup,
        ?_, ?_⟩
      · simp only [bind, Except.bind, hnone]
      · intro x
        rw [List.mem_reverse, hcomplete.mem]
      · exact fun x y hedge => hcomplete.idxOf_lt hg hin hedge
    · refine Or.inl ⟨culprit, ?_, hcomplete.transGen_of_misplaces hg hmis⟩
      simp only [bind, Except.bind, hsome]

/-- Where each step goes down, there is no cycle. -/
theorem acyclic_of_lt {position : String → Nat}
    (h : ∀ x y, g.Edge x y → position y < position x) : Acyclic g.Edge := by
  intro x hcycle
  have hdown : ∀ {y}, TransGen g.Edge x y → position y < position x := by
    intro y hreach
    induction hreach with
    | single hedge => exact h _ _ hedge
    | tail _ hedge ih => exact Nat.lt_trans (h _ _ hedge) ih
  exact Nat.lt_irrefl _ (hdown hcycle)

/-! ## Graphs that are built step by step -/

/-- One call that adds to a graph. -/
inductive Addition where
  | resource (name : String)
  | dependency (dependent target : String)

namespace Addition

def names : Addition → List String
  | .resource name => [name]
  | .dependency dependent target => [dependent, target]

def apply (g : DependencyGraph) : Addition → DependencyGraph
  | .resource name => g.addResource name
  | .dependency dependent target => g.addDependency dependent target

end Addition

/-- The graph after some additions, in their order. -/
def ofAdditions (additions : List Addition) : DependencyGraph :=
  additions.foldl Addition.apply empty

variable {additions : List Addition} {addition : Addition}

/-- The first was recorded to depend on the second. -/
def Recorded (additions : List Addition) (x y : String) : Prop := .dependency x y ∈ additions

theorem wellFormed_apply (hg : g.WellFormed) (addition : Addition) :
    (addition.apply g).WellFormed := by
  cases addition with
  | resource name => exact hg.addResource name
  | dependency dependent target => exact hg.addDependency dependent target

theorem mem_names_apply : x ∈ (addition.apply g).names ↔ x ∈ g.names ∨ x ∈ addition.names := by
  cases addition with
  | resource name => simp [Addition.apply, Addition.names, mem_names_addResource]
  | dependency dependent target =>
      simp [Addition.apply, Addition.names, addDependency, mem_names_addResource, or_assoc]

theorem edge_apply :
    (addition.apply g).Edge x y ↔ g.Edge x y ∨ addition = .dependency x y := by
  cases addition with
  | resource name => simp [Addition.apply, Edge, edges_addResource]
  | dependency dependent target =>
      rw [Addition.apply, edge_addDependency, Addition.dependency.injEq, eq_comm (a := x),
        eq_comm (a := y)]

/-- A graph after more additions: nothing but them was added. -/
structure Grown (g : DependencyGraph) (additions : List Addition) (g' : DependencyGraph) :
    Prop where
  wellFormed : g'.WellFormed
  names : ∀ x, x ∈ g'.names ↔ x ∈ g.names ∨ ∃ addition ∈ additions, x ∈ addition.names
  edges : ∀ x y, g'.Edge x y ↔ g.Edge x y ∨ Recorded additions x y

theorem grown_foldl : ∀ (additions : List Addition) {g : DependencyGraph}, g.WellFormed →
    Grown g additions (additions.foldl Addition.apply g)
  | [], g, hg => {
      wellFormed := hg
      names := fun x => by simp
      edges := fun x y => by simp [Recorded] }
  | addition :: additions, g, hg => by
      have hgrown := grown_foldl additions (wellFormed_apply hg addition)
      rw [List.foldl_cons]
      refine ⟨hgrown.wellFormed, fun x => ?_, fun x y => ?_⟩
      · rw [hgrown.names, mem_names_apply, or_assoc]
        simp
      · rw [hgrown.edges, edge_apply, or_assoc, Recorded, Recorded, List.mem_cons,
          eq_comm (a := addition)]

/-- All that was added is in the graph, and nothing else. -/
theorem grown_ofAdditions (additions : List Addition) :
    Grown empty additions (ofAdditions additions) := grown_foldl additions wellFormed_empty

theorem mem_names_ofAdditions :
    x ∈ (ofAdditions additions).names ↔ ∃ addition ∈ additions, x ∈ addition.names := by
  rw [(grown_ofAdditions additions).names]
  exact or_iff_right (List.not_mem_nil)

theorem edge_ofAdditions : (ofAdditions additions).Edge x y ↔ Recorded additions x y := by
  rw [(grown_ofAdditions additions).edges]
  exact or_iff_right (List.not_mem_nil)

/-- There is a startup order exactly if no resource is reported to be on a
cycle. It has each added resource once, and what a resource depends on comes
before it; the resource that is named otherwise is on a cycle. -/
theorem startupOrder_ofAdditions (additions : List Addition) :
    ((∃ order, (ofAdditions additions).startupOrder = .ok order)
        ↔ (ofAdditions additions).circular = [])
    ∧ (∀ order, (ofAdditions additions).startupOrder = .ok order →
        order.Nodup
        ∧ (∀ name, name ∈ order ↔ ∃ addition ∈ additions, name ∈ addition.names)
        ∧ ∀ dependent dependency, .dependency dependent dependency ∈ additions →
            order.idxOf dependency < order.idxOf dependent)
    ∧ (∀ failure, (ofAdditions additions).startupOrder = .error failure →
        ∃ name, failure = .badConfiguration ("cyclic depends_on detected at \"" ++ name ++ "\"")
          ∧ TransGen (Recorded additions) name name) := by
  have hg : (ofAdditions additions).WellFormed := (grown_ofAdditions additions).wellFormed
  have hedges : (ofAdditions additions).Edge = Recorded additions :=
    funext₂ fun x y => propext edge_ofAdditions
  rcases startupOrder?_cases hg with
    ⟨name, herror, hcycle⟩ | ⟨order, hok, hnodup, hmem, hbefore⟩
  · have hfails : (ofAdditions additions).startupOrder
        = .error (.badConfiguration ("cyclic depends_on detected at \"" ++ name ++ "\"")) := by
      rw [startupOrder, herror]
    rw [hfails]
    refine ⟨⟨?_, ?_⟩, ?_, ?_⟩
    · rintro ⟨order, h⟩
      cases h
    · intro hnone
      exact absurd hcycle ((acyclic_iff hg).mpr hnone name)
    · intro order h
      cases h
    · intro failure hfailure
      exact ⟨name, (Except.error.inj hfailure).symm, hedges ▸ hcycle⟩
  · have hsucceeds : (ofAdditions additions).startupOrder = .ok order := by
      rw [startupOrder, hok]
    rw [hsucceeds]
    refine ⟨⟨?_, ?_⟩, ?_, ?_⟩
    · exact fun _ => (acyclic_iff hg).mp (acyclic_of_lt hbefore)
    · exact fun _ => ⟨order, rfl⟩
    · intro order' horder
      obtain rfl := Except.ok.inj horder
      refine ⟨hnodup, fun name => ?_, fun dependent dependency hrecorded => ?_⟩
      · rw [hmem, mem_names_ofAdditions]
      · exact hbefore dependent dependency (edge_ofAdditions.mpr hrecorded)
    · intro failure h
      cases h

end Manifest.DependencyGraph
