import Manifest.Proofs.DependencyGraph
/-!
# What a depth-first search leaves behind

The search keeps its own stack, on which a resource may stand several times:
where it waits to be met, where it waits for what it depends on, and where it
comes up again long after it was finished. What the names on top of a stack
lead to is therefore said of whole stretches of the search (`Outcome`): it ends
at a resource that depends on itself, or it gets through the names and has
finished them, and then the resources in progress are those from before.

Of each finished resource, whatever it depends on was finished before it or
leads back to it (`Sound.behind`): what is in progress leads to what is looked
at. The fuel is enough because every look uses some of the `cost`.
-/

namespace Manifest.DependencyGraph

open Relation (ReflTransGen TransGen)

variable {g : DependencyGraph} {s s' : Search} {x y : String} {rest : List String}

/-! ## One look -/

/-- The resource was met and waits for what it depends on. -/
def Search.Active (s : Search) (x : String) : Prop := x ∈ s.met ∧ x ∉ s.done

def Search.meet (s : Search) (x : String) : Search := { s with met := x :: s.met }

def Search.finish (s : Search) (x : String) : Search := { s with done := x :: s.done }

/-- What comes on top of a resource that is met. -/
def pushed (g : DependencyGraph) (s : Search) (x : String) : List String :=
  ((g.dependencies x).filter (· ∉ x :: s.met)).reverse

theorem mem_pushed : y ∈ g.pushed s x ↔ g.Edge x y ∧ y ≠ x ∧ y ∉ s.met := by
  rw [pushed, List.mem_reverse, List.mem_filter, mem_dependencies, decide_eq_true_iff,
    List.mem_cons, not_or]

theorem advance_done (hmet : x ∈ s.met) (hdone : x ∈ s.done) :
    g.advance s x rest = .ok (s, rest) := by
  rw [advance, if_pos hmet]
  simp only [if_pos hdone]

theorem advance_active (h : s.Active x) : g.advance s x rest = .ok (s.finish x, rest) := by
  rw [advance, if_pos h.1]
  simp only [if_neg h.2, Search.finish]

theorem advance_loop (hmet : x ∉ s.met) (hloop : g.Edge x x) :
    g.advance s x rest = .error x := by
  rw [advance, if_neg hmet, if_pos (mem_dependencies.mpr hloop)]

theorem advance_new (hmet : x ∉ s.met) (hloop : ¬ g.Edge x x) :
    g.advance s x rest = .ok (s.meet x, g.pushed s x ++ x :: rest) := by
  rw [advance, if_neg hmet, if_neg fun h => hloop (mem_dependencies.mp h)]
  rfl

/-! ## Many looks -/

/-- One look, at a resource of the graph, that does not end the search. -/
def Moves (g : DependencyGraph) (c c' : Search × List String) : Prop :=
  ∃ x rest, c.2 = x :: rest ∧ x ∈ g.names ∧ g.advance c.1 x rest = .ok c'

/-- How many edges are still to add to the stack: those of resources that are
not met. -/
def unspent (g : DependencyGraph) (met : List String) : Nat :=
  (g.edges.filter fun e => e.1 ∉ met).length

/-- How many looks are left at most: the resources that are still to be met,
the edges that are still to add to the stack, and what is on the stack. -/
def cost (g : DependencyGraph) (s : Search) (stack : List String) : Nat :=
  g.unseen s.met + g.unspent s.met + stack.length

theorem length_dependencies (g : DependencyGraph) (x : String) :
    (g.dependencies x).length = (g.edges.filter fun e => e.1 = x).length := by
  rw [dependencies, List.length_map, List.filter_reverse, List.length_reverse]

/-- Edges add to the stack only where they start. -/
theorem unspent_add_pushed_le (hmet : x ∉ s.met) :
    g.unspent (x :: s.met) + (g.pushed s x).length ≤ g.unspent s.met := by
  have hpushed : (g.pushed s x).length ≤ (g.edges.filter fun e => e.1 = x).length := by
    rw [pushed, List.length_reverse, ← length_dependencies]
    exact List.length_filter_le ..
  have hsplit := List.length_eq_length_filter_add (l := g.edges.filter fun e => e.1 ∉ s.met)
    (fun e => decide (e.1 = x))
  have hstart : (g.edges.filter fun e => e.1 ∉ s.met).filter (fun e => decide (e.1 = x))
      = g.edges.filter fun e => e.1 = x := by
    rw [List.filter_filter]
    refine List.filter_congr fun e _ => ?_
    by_cases he : e.1 = x
    · simp [he, hmet]
    · simp [he]
  have hother : (g.edges.filter fun e => e.1 ∉ s.met).filter (fun e => !decide (e.1 = x))
      = g.edges.filter fun e => e.1 ∉ x :: s.met := by
    rw [List.filter_filter]
    refine List.filter_congr fun e _ => ?_
    simp [not_or]
  rw [hstart, hother] at hsplit
  unfold unspent
  omega

theorem cost_lt {c c' : Search × List String} (h : Moves g c c') :
    g.cost c'.1 c'.2 < g.cost c.1 c.2 := by
  obtain ⟨s, stack⟩ := c
  obtain ⟨x, rest, hstack, hx, hadvance⟩ := h
  obtain rfl : stack = x :: rest := hstack
  by_cases hmet : x ∈ s.met
  · by_cases hdone : x ∈ s.done
    · rw [advance_done hmet hdone] at hadvance
      obtain rfl := Except.ok.inj hadvance
      exact Nat.lt_succ_self _
    · rw [advance_active ⟨hmet, hdone⟩] at hadvance
      obtain rfl := Except.ok.inj hadvance
      exact Nat.lt_succ_self _
  · by_cases hloop : g.Edge x x
    · rw [advance_loop hmet hloop] at hadvance
      cases hadvance
    · rw [advance_new hmet hloop] at hadvance
      obtain rfl := Except.ok.inj hadvance
      have hunseen := unseen_cons_lt hx hmet
      have hpushed := unspent_add_pushed_le (g := g) hmet
      simp only [cost, Search.meet, List.length_cons, List.length_append]
      omega

/-- With enough fuel the search goes where the looks lead. -/
theorem explore_of_moves {c c' : Search × List String} (h : ReflTransGen (Moves g) c c') :
    ∀ {fuel : Nat}, g.cost c.1 c.2 ≤ fuel → ∃ left, g.cost c'.1 c'.2 ≤ left
      ∧ g.explore fuel c.1 c.2 = g.explore left c'.1 c'.2 := by
  induction h using ReflTransGen.head_induction_on with
  | refl => exact fun hfuel => ⟨_, hfuel, rfl⟩
  | head hmove _ ih =>
      intro fuel hfuel
      have hless := cost_lt hmove
      obtain ⟨k, rfl⟩ : ∃ k, fuel = k + 1 := ⟨fuel - 1, by omega⟩
      obtain ⟨left, hleft, hrun⟩ := ih (Nat.le_of_lt_succ (Nat.lt_of_lt_of_le hless hfuel))
      refine ⟨left, hleft, ?_⟩
      obtain ⟨x, rest, hstack, -, hadvance⟩ := hmove
      rw [hstack, explore, hadvance]
      exact hrun

theorem cost_le_fuel (s : Search) (x : String) : g.cost s [x] ≤ g.fuel := by
  have hunseen : g.unseen s.met ≤ g.names.length := List.length_filter_le ..
  have hunspent : g.unspent s.met ≤ g.edges.length := List.length_filter_le ..
  exact Nat.add_le_add_right (Nat.add_le_add hunseen hunspent) 1

/-! ## What holds between looks -/

/-- What a finished resource depends on was finished before it, or leads back
to it. -/
structure Sound (g : DependencyGraph) (s : Search) : Prop where
  nodup : s.done.Nodup
  met_of_done : s.done ⊆ s.met
  known : s.met ⊆ g.names
  loopless : ∀ x ∈ s.met, ¬ g.Edge x x
  behind : ∀ {after before : List String} {x : String}, s.done = after ++ x :: before →
    ∀ y, g.Edge x y → y ∈ before ∨ ReflTransGen g.Edge y x

/-- The later state of a search, when the same resources are in progress. -/
structure Extends (s s' : Search) : Prop where
  met : s.met ⊆ s'.met
  done : s.done ⊆ s'.done
  active : ∀ x, s'.Active x ↔ s.Active x

theorem Extends.refl (s : Search) : Extends s s where
  met := List.Subset.refl s.met
  done := List.Subset.refl s.done
  active := fun _ => Iff.rfl

theorem Extends.trans {s s' s'' : Search} (h : Extends s s') (h' : Extends s' s'') :
    Extends s s'' where
  met := List.Subset.trans h.met h'.met
  done := List.Subset.trans h.done h'.done
  active := fun x => (h'.active x).trans (h.active x)

theorem sound_start : Sound g {} where
  nodup := List.nodup_nil
  met_of_done := List.Subset.refl []
  known := List.nil_subset _
  loopless := fun _ hx => absurd hx List.not_mem_nil
  behind := by
    intro after before x hsplit
    have hnil : [] = after ++ x :: before := hsplit
    exact absurd hnil (List.append_ne_nil_of_right_ne_nil after (List.cons_ne_nil x before)).symm

theorem Sound.meet (h : Sound g s) (hx : x ∈ g.names) (hloop : ¬ g.Edge x x) :
    Sound g (s.meet x) where
  nodup := h.nodup
  met_of_done := List.subset_cons_of_subset x h.met_of_done
  known := List.cons_subset.mpr ⟨hx, h.known⟩
  loopless := List.forall_mem_cons.mpr ⟨hloop, h.loopless⟩
  behind := h.behind

/-- A resource is finished when what it depends on is finished or leads to it. -/
theorem Sound.finish (h : Sound g s) (hactive : s.Active x)
    (hbehind : ∀ y, g.Edge x y → y ∈ s.done ∨ ReflTransGen g.Edge y x) :
    Sound g (s.finish x) where
  nodup := List.nodup_cons.mpr ⟨hactive.2, h.nodup⟩
  met_of_done := List.cons_subset.mpr ⟨hactive.1, h.met_of_done⟩
  known := h.known
  loopless := h.loopless
  behind := by
    intro after before z hsplit
    have hcons : x :: s.done = after ++ z :: before := hsplit
    rcases List.cons_eq_append_iff.mp hcons with ⟨-, htop⟩ | ⟨after', -, hdone⟩
    · obtain ⟨rfl, rfl⟩ := List.cons.inj htop
      exact hbehind
    · exact h.behind hdone

theorem active_meet (hx : x ∉ s.met) (hmet : s.done ⊆ s.met) (y : String) :
    (s.meet x).Active y ↔ y = x ∨ s.Active y := by
  constructor
  · rintro ⟨hy, hdone⟩
    exact (List.mem_cons.mp hy).imp_right fun h => ⟨h, hdone⟩
  · rintro (rfl | ⟨hy, hdone⟩)
    · exact ⟨List.mem_cons_self .., fun h => hx (hmet h)⟩
    · exact ⟨List.mem_cons_of_mem x hy, hdone⟩

/-- Between the two looks at a resource, what comes on top of it has no lasting
effect on what is in progress. -/
theorem Extends.finish {s' : Search} (h : Extends (s.meet x) s') (hx : x ∉ s.met)
    (hmet : s.done ⊆ s.met) : Extends s (s'.finish x) where
  met := List.Subset.trans (List.subset_cons_self x s.met) h.met
  done := List.subset_cons_of_subset x h.done
  active := by
    intro y
    have hopen : s'.Active y ↔ y = x ∨ s.Active y := (h.active y).trans (active_meet hx hmet y)
    constructor
    · rintro ⟨hy, hdone⟩
      obtain ⟨hne, hnot⟩ := not_or.mp fun hmem => hdone (List.mem_cons.mpr hmem)
      exact (hopen.mp ⟨hy, hnot⟩).resolve_left hne
    · intro hy
      obtain ⟨hy', hdone'⟩ := hopen.mpr (Or.inr hy)
      refine ⟨hy', fun hmem => ?_⟩
      rcases List.mem_cons.mp hmem with rfl | hmem
      · exact hx hy.1
      · exact hdone' hmem

/-- The names can be looked at: none is in progress, and all that is in
progress leads to them. -/
structure Ready (g : DependencyGraph) (s : Search) (names : List String) : Prop where
  sound : Sound g s
  known : names ⊆ g.names
  idle : ∀ x ∈ names, ¬ s.Active x
  leads : ∀ a, s.Active a → ∀ x ∈ names, ReflTransGen g.Edge a x

variable {names : List String}

theorem Ready.of_extends (h : Ready g s (x :: names)) (hext : Extends s s') (hsound : Sound g s') :
    Ready g s' names where
  sound := hsound
  known := (List.cons_subset.mp h.known).2
  idle := fun y hy hactive =>
    h.idle y (List.mem_cons_of_mem x hy) ((hext.active y).mp hactive)
  leads := fun a ha y hy => h.leads a ((hext.active a).mp ha) y (List.mem_cons_of_mem x hy)

theorem Ready.pushed (hg : g.WellFormed) (h : Ready g s (x :: names)) (hx : x ∉ s.met)
    (hloop : ¬ g.Edge x x) : Ready g (s.meet x) (g.pushed s x) where
  sound := h.sound.meet (h.known (List.mem_cons_self ..)) hloop
  known := by
    intro y hy
    obtain ⟨hedge, -, -⟩ := mem_pushed.mp hy
    exact (hg _ hedge).2
  idle := by
    intro y hy hactive
    obtain ⟨-, hne, hnew⟩ := mem_pushed.mp hy
    rcases (active_meet hx h.sound.met_of_done y).mp hactive with heq | hold
    · exact hne heq
    · exact hnew hold.1
  leads := by
    intro a ha y hy
    obtain ⟨hedge, -, -⟩ := mem_pushed.mp hy
    rcases (active_meet hx h.sound.met_of_done a).mp ha with rfl | hold
    · exact .single hedge
    · exact (h.leads a hold x (List.mem_cons_self ..)).tail hedge

/-- After what came on top of a resource is finished, so is the resource. -/
theorem Sound.finish_pushed {s' : Search} (h : Sound g s') (hready : Ready g s (x :: names))
    (hx : x ∉ s.met) (hloop : ¬ g.Edge x x) (hext : Extends (s.meet x) s')
    (hpushed : g.pushed s x ⊆ s'.done) : Sound g (s'.finish x) := by
  have hmet := hready.sound.met_of_done
  have hactive : s'.Active x := (hext.active x).mpr ((active_meet hx hmet x).mpr (Or.inl rfl))
  refine h.finish hactive fun y hedge => ?_
  by_cases hymet : y ∈ s.met
  · by_cases hydone : y ∈ s.done
    · exact Or.inl (hext.done hydone)
    · exact Or.inr (hready.leads y ⟨hymet, hydone⟩ x (List.mem_cons_self ..))
  · have hne : y ≠ x := fun heq => hloop (heq ▸ hedge)
    exact Or.inl (hpushed (mem_pushed.mpr ⟨hedge, hne, hymet⟩))

/-! ## Stretches of the search -/

/-- How the search goes with names on top of the stack: it ends at a resource
that depends on itself, or it finishes the names and leaves the rest. -/
inductive Outcome (g : DependencyGraph) (s : Search) (names rest : List String) : Prop
  | loops {s' : Search} {x : String} {stack : List String}
      (moves : ReflTransGen (Moves g) (s, names ++ rest) (s', x :: stack))
      (new : x ∉ s'.met) (loop : g.Edge x x)
  | passes {s' : Search}
      (moves : ReflTransGen (Moves g) (s, names ++ rest) (s', rest))
      (sound : Sound g s') (ext : Extends s s') (finished : names ⊆ s'.done)

theorem Outcome.cons (hmoves : ReflTransGen (Moves g) (s, x :: names ++ rest) (s', names ++ rest))
    (hext : Extends s s') (hdone : x ∈ s'.done) (h : Outcome g s' names rest) :
    Outcome g s (x :: names) rest := by
  cases h with
  | loops moves new loop => exact .loops (hmoves.trans moves) new loop
  | passes moves sound ext finished =>
      refine .passes (hmoves.trans moves) sound (hext.trans ext) ?_
      exact List.cons_subset.mpr ⟨ext.done hdone, finished⟩

/-- The search gets through any names it is ready for. The outer induction is
on how many resources are not met, for what a new resource puts on top of
itself; the inner one is on the names. -/
theorem outcome_of_ready (hg : g.WellFormed) (depth : Nat) :
    ∀ {s : Search} {names rest : List String}, g.unseen s.met ≤ depth → Ready g s names →
      Outcome g s names rest := by
  induction depth using Nat.strongRecOn with
  | ind depth deeper =>
    intro s names rest hdepth hready
    induction names generalizing s with
    | nil => exact .passes .refl hready.sound (.refl s) (List.nil_subset _)
    | cons x names ih =>
      have hxnames : x ∈ g.names := hready.known (List.mem_cons_self ..)
      by_cases hmet : x ∈ s.met
      · have hdone : x ∈ s.done := by
          by_contra hnot
          exact hready.idle x (List.mem_cons_self ..) ⟨hmet, hnot⟩
        have hmove : Moves g (s, x :: names ++ rest) (s, names ++ rest) :=
          ⟨x, names ++ rest, rfl, hxnames, advance_done hmet hdone⟩
        exact .cons (.single hmove) (.refl s) hdone
          (ih hdepth (hready.of_extends (.refl s) hready.sound))
      · by_cases hloop : g.Edge x x
        · exact .loops .refl hmet hloop
        · have hmove : Moves g (s, x :: names ++ rest)
              (s.meet x, g.pushed s x ++ x :: (names ++ rest)) :=
            ⟨x, names ++ rest, rfl, hxnames, advance_new hmet hloop⟩
          have hless := Nat.lt_of_lt_of_le (unseen_cons_lt hxnames hmet) hdepth
          have hpushed : Outcome g (s.meet x) (g.pushed s x) (x :: (names ++ rest)) :=
            deeper _ hless (Nat.le_refl _) (hready.pushed hg hmet hloop)
          cases hpushed with
          | loops moves new loop => exact .loops (.head hmove moves) new loop
          | @passes s' moves sound ext finished =>
            have hactive : s'.Active x :=
              (ext.active x).mpr ((active_meet hmet hready.sound.met_of_done x).mpr (Or.inl rfl))
            have hfinish : Moves g (s', x :: (names ++ rest)) (s'.finish x, names ++ rest) :=
              ⟨x, names ++ rest, rfl, hxnames, advance_active hactive⟩
            have hsound := sound.finish_pushed hready hmet hloop ext finished
            have hext : Extends s (s'.finish x) := ext.finish hmet hready.sound.met_of_done
            exact .cons (.head hmove (moves.tail hfinish)) hext (List.mem_cons_self ..)
              (ih (Nat.le_trans (unseen_le hext.met) hdepth) (hready.of_extends hext hsound))

/-! ## The whole search -/

/-- Nothing is in progress. -/
structure Rested (g : DependencyGraph) (s : Search) : Prop where
  sound : Sound g s
  idle : ∀ x, ¬ s.Active x

theorem Rested.done_of_met (h : Rested g s) (hx : x ∈ s.met) : x ∈ s.done := by
  by_contra hnot
  exact h.idle x ⟨hx, hnot⟩

theorem rested_start : Rested g {} where
  sound := sound_start
  idle := fun _ hactive => absurd hactive.1 List.not_mem_nil

/-- How the search from some resources goes. -/
inductive Searched (g : DependencyGraph) (s : Search) (names : List String) :
    Except String Search → Prop
  | loops {x : String} (loop : g.Edge x x) : Searched g s names (.error x)
  | rests {s' : Search} (rested : Rested g s') (done : s.done ⊆ s'.done)
      (finished : names ⊆ s'.done) : Searched g s names (.ok s')

theorem searched_visit (hg : g.WellFormed) (h : Rested g s) (hx : x ∈ g.names) :
    Searched g s [x] (g.visit s x) := by
  unfold visit
  split
  · rename_i hmet
    exact .rests h (List.Subset.refl _)
      (List.cons_subset.mpr ⟨h.done_of_met hmet, List.nil_subset _⟩)
  · have hready : Ready g s [x] := {
      sound := h.sound
      known := List.cons_subset.mpr ⟨hx, List.nil_subset _⟩
      idle := fun y _ => h.idle y
      leads := fun a ha => absurd ha (h.idle a) }
    have houtcome : Outcome g s [x] [] := outcome_of_ready hg _ (Nat.le_refl _) hready
    cases houtcome with
    | @loops s' y stack moves new loop =>
        obtain ⟨left, hleft, hrun⟩ := explore_of_moves moves (cost_le_fuel s x)
        have hpos : 0 < g.cost s' (y :: stack) := Nat.succ_pos _
        obtain ⟨k, rfl⟩ := Nat.exists_eq_add_one.mpr (Nat.lt_of_lt_of_le hpos hleft)
        have hexplore : g.explore g.fuel s [x] = .error y := by
          refine hrun.trans ?_
          rw [explore, advance_loop new loop]
          rfl
        rw [hexplore]
        exact .loops loop
    | @passes s' moves sound ext finished =>
        obtain ⟨left, -, hrun⟩ := explore_of_moves moves (cost_le_fuel s x)
        have hexplore : g.explore g.fuel s [x] = .ok s' := by
          refine hrun.trans ?_
          cases left <;> rfl
        rw [hexplore]
        have hidle : ∀ y, ¬ s'.Active y := fun y hy => h.idle y ((ext.active y).mp hy)
        exact .rests ⟨sound, hidle⟩ ext.done finished

theorem searched_foldlM (hg : g.WellFormed) : ∀ {names : List String} {s : Search},
    names ⊆ g.names → Rested g s → Searched g s names (names.foldlM g.visit s)
  | [], _, _, h => .rests h (List.Subset.refl _) (List.nil_subset _)
  | x :: names, s, hnames, h => by
      obtain ⟨hx, hnames⟩ := List.cons_subset.mp hnames
      have hvisit := searched_visit hg h hx
      rw [List.foldlM_cons]
      generalize g.visit s x = r at hvisit
      cases hvisit with
      | loops loop => exact .loops loop
      | @rests s' rested done finished =>
          have hrest := searched_foldlM hg hnames rested
          change Searched g s (x :: names) (names.foldlM g.visit s')
          generalize names.foldlM g.visit s' = r at hrest
          cases hrest with
          | loops loop => exact .loops loop
          | rests rested' done' finished' =>
              have hx' := done' (finished (List.mem_cons_self ..))
              exact .rests rested' (List.Subset.trans done done')
                (List.cons_subset.mpr ⟨hx', finished'⟩)

/-- A finished search: all resources, each once, and no resource that depends
on itself. -/
structure Complete (g : DependencyGraph) (order : List String) : Prop where
  nodup : order.Nodup
  mem : ∀ x, x ∈ order ↔ x ∈ g.names
  loopless : ∀ x, ¬ g.Edge x x
  behind : ∀ {after before : List String} {x : String}, order = after ++ x :: before →
    ∀ y, g.Edge x y → y ∈ before ∨ ReflTransGen g.Edge y x

theorem Rested.complete (hg : g.WellFormed) (h : Rested g s) (hall : g.names ⊆ s.done) :
    Complete g s.done where
  nodup := h.sound.nodup
  mem := fun _ => ⟨fun hx => h.sound.known (h.sound.met_of_done hx), fun hx => hall hx⟩
  loopless := fun x hloop =>
    h.sound.loopless x (h.sound.met_of_done (hall (hg _ hloop).1)) hloop
  behind := h.sound.behind

/-- The search from all resources ends at one that depends on itself, or
completes. -/
theorem dependentsFirst_cases (hg : g.WellFormed) :
    (∃ x, g.dependentsFirst = .error x ∧ g.Edge x x) ∨
      ∃ order, g.dependentsFirst = .ok order ∧ Complete g order := by
  have hsearch := searched_foldlM hg (List.Subset.refl g.names) rested_start
  unfold dependentsFirst
  generalize g.names.foldlM g.visit {} = r at hsearch
  cases hsearch with
  | @loops x loop => exact Or.inl ⟨x, rfl, loop⟩
  | @rests s' rested _ finished => exact Or.inr ⟨s'.done, rfl, rested.complete hg finished⟩

end Manifest.DependencyGraph
