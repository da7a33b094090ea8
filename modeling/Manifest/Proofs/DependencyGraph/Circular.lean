import Manifest.Proofs.DependencyGraph.Startup
/-!
# The resources on a cycle

However a graph was put together, a resource is found to be on a cycle exactly if it was
added and the recorded dependencies lead from it back to it, and those that are listed
stand in the order in which they first came up (`circular_ofAdditions`).

A graph lists a name where it first came up (`Listed`); a name that is known stays where
it is.
-/

namespace Manifest.DependencyGraph

open Relation (TransGen)

variable {g : DependencyGraph} {came names : List String}

/-- The names are those that came up, each once and in the order in which it did first. -/
structure Listed (came names : List String) : Prop where
  mem : ∀ x, x ∈ names ↔ x ∈ came
  ordered : names.Pairwise fun x y => came.idxOf x < came.idxOf y

theorem Listed.addResource (h : Listed came g.names) (name : String) :
    Listed (came ++ [name]) (g.addResource name).names where
  mem x := by
    rw [mem_names_addResource, h.mem, List.mem_append, List.mem_singleton]
  ordered := by
    have hstays : ∀ x ∈ g.names, (came ++ [name]).idxOf x = came.idxOf x :=
      fun x hx => List.idxOf_append_of_mem ((h.mem x).mp hx)
    have hold : g.names.Pairwise fun x y =>
        (came ++ [name]).idxOf x < (came ++ [name]).idxOf y := by
      refine h.ordered.imp_of_mem fun {x y} hx hy hlt => ?_
      rwa [hstays x hx, hstays y hy]
    unfold DependencyGraph.addResource
    split
    · exact hold
    · rename_i hnew
      have hlast : (came ++ [name]).idxOf name = came.length := by
        rw [List.idxOf_append_of_notMem (mt (h.mem name).mpr hnew), List.idxOf_cons_self,
          Nat.add_zero]
      refine List.pairwise_append.mpr ⟨hold, List.pairwise_singleton _ name, fun x hx y hy => ?_⟩
      obtain rfl := List.mem_singleton.mp hy
      rw [hstays x hx, hlast]
      exact List.idxOf_lt_length_of_mem ((h.mem x).mp hx)

theorem Listed.apply (h : Listed came g.names) (addition : Addition) :
    Listed (came ++ addition.names) (addition.apply g).names := by
  cases addition with
  | resource name => exact h.addResource name
  | dependency dependent target =>
      have hboth := (h.addResource dependent).addResource target
      rwa [List.append_assoc] at hboth

theorem Listed.foldl : ∀ {additions : List Addition} {g : DependencyGraph} {came : List String},
    Listed came g.names →
      Listed (came ++ additions.flatMap Addition.names) (additions.foldl Addition.apply g).names
  | [], _, _, h => by rwa [List.flatMap_nil, List.append_nil]
  | addition :: additions, _, _, h => by
      rw [List.flatMap_cons, ← List.append_assoc]
      exact Listed.foldl (h.apply addition)

theorem listed_ofAdditions (additions : List Addition) :
    Listed (additions.flatMap Addition.names) (ofAdditions additions).names := by
  have hempty : Listed [] empty.names := ⟨fun _ => Iff.rfl, List.Pairwise.nil⟩
  exact hempty.foldl

theorem mem_circular_iff_onCycle (hg : g.WellFormed) {name : String} :
    name ∈ g.circular ↔ g.onCycle name = true := by
  rw [mem_circular_iff hg, onCycle_iff hg]

/-- A resource is on a cycle exactly if it was added and a path of one or more recorded
dependencies leads from it back to it. The list of those resources has each of them
once, in the order in which they were first added. -/
theorem circular_ofAdditions (additions : List Addition) :
    (∀ name, (ofAdditions additions).onCycle name = true ↔
      (∃ addition ∈ additions, name ∈ addition.names) ∧ TransGen (Recorded additions) name name)
    ∧ (∀ name, name ∈ (ofAdditions additions).circular
        ↔ (ofAdditions additions).onCycle name = true)
    ∧ (ofAdditions additions).circular.Nodup
    ∧ (ofAdditions additions).circular.Pairwise fun x y =>
        (additions.flatMap Addition.names).idxOf x < (additions.flatMap Addition.names).idxOf y := by
  have hg : (ofAdditions additions).WellFormed := (grown_ofAdditions additions).wellFormed
  have hedges : (ofAdditions additions).Edge = Recorded additions :=
    funext₂ fun x y => propext edge_ofAdditions
  have hordered := (listed_ofAdditions additions).ordered.filter (ofAdditions additions).onCycle
  refine ⟨fun name => ?_, fun name => mem_circular_iff_onCycle hg, ?_, hordered⟩
  · rw [onCycle_iff hg, ← mem_names_ofAdditions, ← hedges]
    exact ⟨fun hpath => ⟨mem_names_of_transGen hg hpath, hpath⟩, And.right⟩
  · refine List.nodup_iff_pairwise_ne.mpr (hordered.imp fun {x y} hlt heq => ?_)
    rw [heq] at hlt
    exact Nat.lt_irrefl _ hlt

/-- A cycle that is reached from a resource is not one that the resource is on. -/
example : (ofAdditions [.dependency "a" "b", .dependency "b" "c", .dependency "c" "b"]).circular
    = ["b", "c"] := by decide

end Manifest.DependencyGraph
