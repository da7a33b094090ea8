import Manifest.DependencyGraph
import Mathlib.Data.List.Basic
import Mathlib.Logic.Relation
/-!
# The search for cycles finds them all

A walk from a resource comes back to it exactly if a path of one or more edges does
(`onCycle_iff`), although a resource that was seen in one branch is not looked at again
in another: all that leads on from it is among what was seen, and the root is not.
The depth of a walk is bounded by the number of names; it never runs out, because each
step down takes a name that was not seen before.
-/

namespace Manifest

/-- Nothing is related to itself, directly or through others. -/
def Acyclic {α : Type} (r : α → α → Prop) : Prop := ∀ x, ¬ Relation.TransGen r x x

theorem Acyclic.of_le {α : Type} {r r' : α → α → Prop} (h : Acyclic r')
    (hle : ∀ a b, r a b → r' a b) : Acyclic r :=
  fun x hcycle => h x (Relation.TransGen.mono hle x x hcycle)

/-- The step from `a` to `b` lies on a circle through `x`. -/
def StepAround {α : Type} (r : α → α → Prop) (x a b : α) : Prop :=
  Relation.ReflTransGen r x a ∧ r a b ∧ Relation.ReflTransGen r b x

/-- Every circle has a step outside of a relation without circles. -/
theorem Acyclic.exists_step {α : Type} {r p : α → α → Prop} (h : Acyclic p) {x : α}
    (hcycle : Relation.TransGen r x x) : ∃ a b, StepAround r x a b ∧ ¬ p a b := by
  by_contra hnone
  push Not at hnone
  have hinside : ∀ {a}, Relation.TransGen r x a → Relation.ReflTransGen r a x →
      Relation.TransGen p x a := by
    intro a hfront
    induction hfront with
    | single hstep => exact fun hback => .single (hnone _ _ ⟨.refl, hstep, hback⟩)
    | tail hfront hstep ih =>
        intro hback
        have hinner := ih (.head hstep hback)
        exact hinner.tail (hnone _ _ ⟨hfront.to_reflTransGen, hstep, hback⟩)
  exact h x (hinside hcycle .refl)

namespace DependencyGraph

variable {g : DependencyGraph} {x y : String}

/-- The first depends on the second. -/
def Edge (g : DependencyGraph) (x y : String) : Prop := (x, y) ∈ g.edges

/-- The ends of every edge are resources of the graph. -/
def WellFormed (g : DependencyGraph) : Prop := ∀ e ∈ g.edges, e.1 ∈ g.names ∧ e.2 ∈ g.names

theorem mem_dependencies : y ∈ g.dependencies x ↔ g.Edge x y := by
  simp [dependencies, Edge]

/-! ## Building a graph -/

theorem wellFormed_empty : WellFormed empty := by
  intro e he
  cases he

theorem mem_names_addResource {name : String} :
    x ∈ (g.addResource name).names ↔ x ∈ g.names ∨ x = name := by
  unfold addResource
  split
  · rename_i hname
    exact ⟨Or.inl, fun h => h.elim id fun heq => heq ▸ hname⟩
  · simp

theorem edges_addResource (name : String) : (g.addResource name).edges = g.edges := by
  unfold addResource
  split <;> rfl

theorem edge_addDependency {dependent dependency : String} :
    (g.addDependency dependent dependency).Edge x y ↔
      g.Edge x y ∨ x = dependent ∧ y = dependency := by
  simp [addDependency, Edge, edges_addResource]

theorem WellFormed.addResource (h : g.WellFormed) (name : String) :
    (g.addResource name).WellFormed := by
  intro e he
  rw [edges_addResource] at he
  obtain ⟨hfirst, hsecond⟩ := h e he
  exact ⟨mem_names_addResource.mpr (Or.inl hfirst), mem_names_addResource.mpr (Or.inl hsecond)⟩

theorem WellFormed.addDependency (h : g.WellFormed) (dependent dependency : String) :
    (g.addDependency dependent dependency).WellFormed := by
  intro e he
  have hold := (h.addResource dependent).addResource dependency
  rcases List.mem_append.mp he with he | he
  · exact hold e he
  · obtain rfl : e = (dependent, dependency) := by simpa using he
    exact ⟨mem_names_addResource.mpr (Or.inl (mem_names_addResource.mpr (Or.inr rfl))),
      mem_names_addResource.mpr (Or.inr rfl)⟩

theorem nodup_addResource (h : g.names.Nodup) (name : String) :
    (g.addResource name).names.Nodup := by
  unfold addResource
  split
  · exact h
  · rename_i hname
    exact List.nodup_append.mpr ⟨h, List.pairwise_singleton _ name, fun a ha b hb heq =>
      hname (List.mem_singleton.mp hb ▸ heq ▸ ha)⟩

theorem nodup_addDependency (h : g.names.Nodup) (dependent dependency : String) :
    (g.addDependency dependent dependency).names.Nodup :=
  nodup_addResource (nodup_addResource h dependent) dependency

/-! ## Walks -/

/-- How many resources are not seen yet. -/
def unseen (g : DependencyGraph) (seen : List String) : Nat :=
  (g.names.filter (· ∉ seen)).length

theorem unseen_le {seen found : List String} (h : seen ⊆ found) :
    g.unseen found ≤ g.unseen seen := by
  refine List.Sublist.length_le (List.monotone_filter_right _ fun name hname => ?_)
  have hnot : name ∉ found := of_decide_eq_true hname
  exact decide_eq_true fun hseen => hnot (h hseen)

theorem unseen_cons_lt {seen : List String} (hx : x ∈ g.names) (hseen : x ∉ seen) :
    g.unseen (x :: seen) < g.unseen seen := by
  have hcons : g.names.filter (· ∉ x :: seen) = (g.names.filter (· ∉ seen)).filter (· ≠ x) := by
    rw [List.filter_filter]
    exact List.filter_congr fun name _ => by simp [not_or]
  have hmem : x ∈ g.names.filter (· ∉ seen) := List.mem_filter.mpr ⟨hx, decide_eq_true hseen⟩
  unfold unseen
  rw [hcons, List.length_filter_lt_length_iff_exists]
  exact ⟨x, hmem, by simp⟩

/-- A walk that did not come back to the root: all that was seen is still there, and the
dependencies of what is new are there too, with the root not among them. -/
structure Explored (g : DependencyGraph) (root : String) (seen found : List String) : Prop where
  subset : seen ⊆ found
  closed : ∀ x ∈ found, x ∉ seen → ∀ y, g.Edge x y → y ≠ root ∧ y ∈ found

theorem Explored.refl (root : String) (seen : List String) : Explored g root seen seen where
  subset := List.Subset.refl seen
  closed := fun _ hx hnot => absurd hx hnot

theorem Explored.trans {root : String} {a b c : List String} (hab : Explored g root a b)
    (hbc : Explored g root b c) : Explored g root a c where
  subset := List.Subset.trans hab.subset hbc.subset
  closed := by
    intro x hx hnot y hedge
    by_cases hxb : x ∈ b
    · exact (hab.closed x hxb hnot y hedge).imp_right fun hy => hbc.subset hy
    · exact hbc.closed x hx hxb y hedge

/-- A step down into a resource that was not seen. -/
theorem Explored.of_cons {root : String} {seen found : List String}
    (h : Explored g root (x :: seen) found) (hx : ∀ y, g.Edge x y → y ≠ root ∧ y ∈ found) :
    Explored g root seen found where
  subset := List.Subset.trans (List.subset_cons_self x seen) h.subset
  closed := by
    intro z hz hnot y hedge
    by_cases hzx : z = x
    · exact hx y (hzx ▸ hedge)
    · exact h.closed z hz (by simp [hzx, hnot]) y hedge

/-- How a walk along some of the dependencies of `name` may end: with a way back to the
root, or with all of them found and none of them the root. -/
inductive Walked (g : DependencyGraph) (root name : String) (seen nexts : List String) :
    Option (List String) → Prop
  | back (h : Relation.TransGen g.Edge name root) : Walked g root name seen nexts none
  | missed {found : List String} (h : Explored g root seen found)
      (hnexts : ∀ y ∈ nexts, y ≠ root ∧ y ∈ found) : Walked g root name seen nexts (some found)

/-- One dependency of a resource, in a walk that may still go `depth` deep. -/
def look (g : DependencyGraph) (root : String) (depth : Nat) (seen : List String)
    (next : String) : Option (List String) :=
  if next = root then none
  else if next ∈ seen then some seen
  else g.walk root depth (next :: seen) next

theorem walk_succ (root : String) (depth : Nat) (seen : List String) (name : String) :
    g.walk root (depth + 1) seen name = (g.dependencies name).foldlM (g.look root depth) seen :=
  rfl

section

variable {root name next : String} {depth : Nat} {seen : List String}

theorem walked_look
    (hwalk : ∀ seen name, g.unseen seen < depth →
      Walked g root name seen (g.dependencies name) (g.walk root depth seen name))
    (hedge : g.Edge name next) (hnext : next ∈ g.names) (hdepth : g.unseen seen ≤ depth) :
    Walked g root name seen [next] (g.look root depth seen next) := by
  unfold look
  split
  · rename_i hroot
    exact .back (.single (hroot ▸ hedge))
  · rename_i hroot
    split
    · rename_i hseen
      exact .missed (.refl root seen) fun y hy => List.mem_singleton.mp hy ▸ ⟨hroot, hseen⟩
    · rename_i hseen
      have hless := Nat.lt_of_lt_of_le (unseen_cons_lt hnext hseen) hdepth
      have hdown := hwalk (next :: seen) next hless
      generalize g.walk root depth (next :: seen) next = found at hdown
      cases hdown with
      | back hback => exact .back (.head hedge hback)
      | missed hexplored hfound =>
          refine .missed (hexplored.of_cons fun y hy => hfound y (mem_dependencies.mpr hy)) ?_
          intro y hy
          obtain rfl := List.mem_singleton.mp hy
          exact ⟨hroot, hexplored.subset (List.mem_cons_self ..)⟩

/-- Along the dependencies of one resource, what one branch has seen is passed on to
the next. -/
theorem walked_foldlM
    (hwalk : ∀ seen name, g.unseen seen < depth →
      Walked g root name seen (g.dependencies name) (g.walk root depth seen name)) :
    ∀ {nexts seen : List String}, (∀ next ∈ nexts, g.Edge name next ∧ next ∈ g.names) →
      g.unseen seen ≤ depth → Walked g root name seen nexts (nexts.foldlM (g.look root depth) seen)
  | [], seen, _, _ => .missed (.refl root seen) fun y hy => absurd hy List.not_mem_nil
  | next :: nexts, seen, hnames, hdepth => by
      obtain ⟨⟨hedge, hnext⟩, hnexts⟩ := List.forall_mem_cons.mp hnames
      have hlook := walked_look hwalk hedge hnext hdepth
      rw [List.foldlM_cons]
      generalize g.look root depth seen next = looked at hlook
      cases hlook with
      | back hback => exact .back hback
      | @missed between hfirst hthere =>
          have hless : g.unseen between ≤ depth := Nat.le_trans (unseen_le hfirst.subset) hdepth
          have hrest := walked_foldlM hwalk hnexts hless
          rw [Option.bind_eq_bind, Option.bind_some]
          generalize nexts.foldlM (g.look root depth) between = found at hrest
          cases hrest with
          | back hback => exact .back hback
          | missed hlater hfound =>
              refine .missed (hfirst.trans hlater) ?_
              intro y hy
              rcases List.mem_cons.mp hy with rfl | hy
              · exact (hthere y (List.mem_singleton_self y)).imp_right fun hy => hlater.subset hy
              · exact hfound y hy

/-- A walk misses nothing if its depth exceeds the number of resources not seen. -/
theorem walked_walk (hg : g.WellFormed) (root : String) :
    ∀ (depth : Nat) (seen : List String) (name : String), g.unseen seen < depth →
      Walked g root name seen (g.dependencies name) (g.walk root depth seen name)
  | depth + 1, seen, name, hdepth => by
      rw [walk_succ]
      refine walked_foldlM (walked_walk hg root depth) ?_ (Nat.lt_succ_iff.mp hdepth)
      intro next hnext
      have hedge : g.Edge name next := mem_dependencies.mp hnext
      exact ⟨hedge, (hg _ hedge).2⟩

end

/-! ## Cycles -/

/-- A walk comes back to where it began exactly if a path of edges does. -/
theorem onCycle_iff (hg : g.WellFormed) :
    g.onCycle x = true ↔ Relation.TransGen g.Edge x x := by
  have hdepth : g.unseen [] < g.names.length + 1 := Nat.lt_succ_of_le (List.length_filter_le ..)
  have hwalked := walked_walk hg x (g.names.length + 1) [] x hdepth
  rw [onCycle]
  generalize g.walk x (g.names.length + 1) [] x = found at hwalked
  cases hwalked with
  | back hback => exact ⟨fun _ => hback, fun _ => rfl⟩
  | @missed found hexplored hfound =>
      -- what is found has no edge out of it, and the root is outside
      have hinside : ∀ {y}, Relation.TransGen g.Edge x y → y ≠ x ∧ y ∈ found := by
        intro y hpath
        induction hpath with
        | single hedge => exact hfound _ (mem_dependencies.mpr hedge)
        | tail _ hedge ih => exact hexplored.closed _ ih.2 List.not_mem_nil _ hedge
      exact ⟨fun h => absurd h Bool.false_ne_true, fun h => absurd rfl (hinside h).1⟩

theorem mem_names_of_transGen (hg : g.WellFormed) (h : Relation.TransGen g.Edge x y) :
    x ∈ g.names := by
  obtain ⟨z, hedge, -⟩ := Relation.TransGen.head'_iff.mp h
  exact (hg _ hedge).1

/-- Exactly the resources that lie on a cycle are reported. -/
theorem mem_circular_iff (hg : g.WellFormed) :
    x ∈ g.circular ↔ Relation.TransGen g.Edge x x := by
  rw [circular, List.mem_filter, onCycle_iff hg]
  exact ⟨And.right, fun h => ⟨mem_names_of_transGen hg h, h⟩⟩

theorem acyclic_iff (hg : g.WellFormed) : Acyclic g.Edge ↔ g.circular = [] := by
  constructor
  · intro h
    exact List.eq_nil_iff_forall_not_mem.mpr fun x hx => h x ((mem_circular_iff hg).mp hx)
  · intro h x hcycle
    have hmem := (mem_circular_iff hg).mpr hcycle
    rw [h] at hmem
    cases hmem

end DependencyGraph

end Manifest
