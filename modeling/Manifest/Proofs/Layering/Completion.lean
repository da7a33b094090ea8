import Manifest.Proofs.Layering.Blocks
import Manifest.Proofs.Layering.Idempotent
/-!
# What expanding writes

Expanding writes defaults where nothing was set, and the names of resources.
All else stays as it is, key by key and entry by entry: the expanded config
completes the given one (`Component.Completes`). In the end nothing that has a
default is unset, and no debug block has a debug block (`Component.Complete`).
-/

namespace Manifest

/-- The same keys in the same order, and related values. -/
structure Dict.Aligned {α : Type} (r : String → α → α → Prop) (d d' : Dict α) : Prop where
  keys : d'.keys = d.keys
  values : ∀ key, Option.Rel (r key) (d.get? key) (d'.get? key)

theorem Dict.aligned_mapValues {α : Type} {r : String → α → α → Prop} {f : String → α → α}
    (h : ∀ key x, r key x (f key x)) (d : Dict α) : d.Aligned r (d.mapValues f) where
  keys := keys_mapValues f d
  values key := by
    rw [get?_mapValues]
    exact rel_map (h key) (d.get? key)

namespace Config

variable {α X : Type}

/-! ## One value completes another

Each structure says of the fields with a default what becomes of them, and of
all the others that they are the same. -/

/-- What is set stays as it is. -/
def Kept (old new : Option α) : Prop := old.isSome → new = old

theorem kept_getD (value : Option α) (default : α) : Kept value (some (value.getD default)) := by
  intro hset
  obtain ⟨given, rfl⟩ := Option.isSome_iff_exists.mp hset
  rfl

/-- A default is written only for what is not required. -/
structure Parameter.Completes (p p' : Parameter) : Prop where
  default : p.default.isSome ∨ p.required ≠ some false → p'.default = p.default
  others : p' = { p with default := p'.default }

structure Ingress.Completes (i i' : Ingress) : Prop where
  enabled : Kept i.enabled i'.enabled
  others : i' = { i with enabled := i'.enabled }

structure ComponentInterface.Completes (i i' : ComponentInterface) : Prop where
  ingress : Option.Rel Ingress.Completes i.ingress i'.ingress
  others : i' = { i with ingress := i'.ingress }

structure Probe.Completes (p p' : Probe) : Prop where
  successThreshold : Kept p.successThreshold p'.successThreshold
  failureThreshold : Kept p.failureThreshold p'.failureThreshold
  timeout : Kept p.timeout p'.timeout
  interval : Kept p.interval p'.interval
  initialDelay : Kept p.initialDelay p'.initialDelay
  others : p' =
    { p with
      successThreshold := p'.successThreshold
      failureThreshold := p'.failureThreshold
      timeout := p'.timeout
      interval := p'.interval
      initialDelay := p'.initialDelay }

structure ServiceExtension.Completes (x x' : ServiceExtension) : Prop where
  probe : Option.Rel Probe.Completes x.probe x'.probe
  others : x' = { x with probe := x'.probe }

/-- A body that has a source gets no other one. -/
structure Body.Completes (x : X → X → Prop) (i : Identity) (b b' : Body X) : Prop where
  identity : b'.identity = i
  build : b.image.isSome ∨ b.build.isSome → b'.build = b.build
  extension : x b.extension b'.extension
  others : b' =
    { b with identity := b'.identity, build := b'.build, extension := b'.extension }

/-- The debug block has the identity of its resource. -/
structure Resource.Completes (x : X → X → Prop) (i : Identity) (r r' : Resource X) : Prop where
  body : r.body.Completes x i r'.body
  debug : Option.Rel (fun debug debug' => debug.body.Completes x i debug'.body) r.debug r'.debug

structure Component.Completes (c c' : Component) : Prop where
  reference : c.name.isEmpty → c'.reference = c.reference
  parameters : c.parameters.Aligned (fun _ => Parameter.Completes) c'.parameters
  services : c.services.Aligned
    (fun key s => s.Completes ServiceExtension.Completes (s.body.identity.stamped c key))
    c'.services
  tasks : c.tasks.Aligned (fun key t => t.Completes Eq (t.body.identity.stamped c key)) c'.tasks
  interfaces : c.interfaces.Aligned (fun _ => ComponentInterface.Completes) c'.interfaces
  others : c' =
    { c with
      reference := c'.reference
      parameters := c'.parameters
      services := c'.services
      tasks := c'.tasks
      interfaces := c'.interfaces }

/-! ## Expanding completes -/

theorem Parameter.completes_expand (p : Parameter) : p.Completes p.expand := by
  unfold expand
  split
  · rename_i hmissing
    rw [Bool.and_eq_true, decide_eq_true_iff, Option.isNone_iff_eq_none] at hmissing
    obtain ⟨hrequired, hdefault⟩ := hmissing
    refine ⟨fun h => ?_, rfl⟩
    rcases h with hset | hneeded
    · rw [hdefault] at hset
      cases hset
    · exact absurd hrequired hneeded
  · exact ⟨fun _ => rfl, rfl⟩

theorem Ingress.completes_expand (i : Ingress) : i.Completes i.expand where
  enabled hset := Option.or_of_isSome hset
  others := rfl

theorem ComponentInterface.completes_expand (i : ComponentInterface) : i.Completes i.expand where
  ingress := rel_map Ingress.completes_expand i.ingress
  others := rfl

theorem Probe.completes_filled (p : Probe) : p.Completes p.filled where
  successThreshold := kept_getD _ _
  failureThreshold := kept_getD _ _
  timeout := kept_getD _ _
  interval := kept_getD _ _
  initialDelay := kept_getD _ _
  others := rfl

theorem ServiceExtension.completes_expand (x : ServiceExtension) :
    x.Completes (Layered.expand x) where
  probe := rel_map Probe.completes_filled x.probe
  others := rfl

section Resources

variable [Layered X] {x : X → X → Prop}

theorem Body.completes_expand (hx : ∀ e : X, x e (Layered.expand e)) (i : Identity) (b : Body X) :
    b.Completes x i { b with identity := i }.expand where
  identity := rfl
  build hsource := build_expand hsource
  extension := hx b.extension
  others := rfl

theorem Resource.completes_expand (hx : ∀ e : X, x e (Layered.expand e)) (c : Component)
    (key : String) (r : Resource X) :
    r.Completes x (r.body.identity.stamped c key) (r.stamp c key).expand where
  body := r.body.completes_expand hx _
  debug := by
    show Option.Rel _ r.debug ((r.debug.map _).map _)
    rw [Option.map_map]
    exact rel_map (fun debug => debug.body.completes_expand hx _) r.debug

end Resources

theorem Component.completes_expand (c : Component) : c.Completes c.expand where
  reference hname := if_pos hname
  parameters := Dict.aligned_mapValues (fun _ p => p.completes_expand) c.parameters
  services := Dict.aligned_mapValues
    (fun key s => s.completes_expand ServiceExtension.completes_expand c key) c.services
  tasks := Dict.aligned_mapValues (fun key t => t.completes_expand (fun _ => rfl) c key) c.tasks
  interfaces := Dict.aligned_mapValues (fun _ i => i.completes_expand) c.interfaces
  others := rfl

/-! ## Nothing is left to write -/

def Parameter.Complete (p : Parameter) : Prop := p.required = some false → p.default.isSome

def ComponentInterface.Complete (i : ComponentInterface) : Prop :=
  ∀ g, i.ingress = some g → g.enabled.isSome

structure Probe.Complete (p : Probe) : Prop where
  successThreshold : p.successThreshold.isSome
  failureThreshold : p.failureThreshold.isSome
  timeout : p.timeout.isSome
  interval : p.interval.isSome
  initialDelay : p.initialDelay.isSome

def ServiceExtension.Complete (x : ServiceExtension) : Prop := ∀ p, x.probe = some p → p.Complete

structure Body.Complete (x : X → Prop) (b : Body X) : Prop where
  source : b.image.isSome ∨ b.build.isSome
  extension : x b.extension

structure Component.Complete (c : Component) : Prop where
  parameters : ∀ key p, c.parameters.get? key = some p → p.Complete
  blocks : c.Blocks (Body.Complete ServiceExtension.Complete) (Body.Complete fun _ => True)
  interfaces : ∀ key i, c.interfaces.get? key = some i → i.Complete

theorem Probe.complete_of_filled {p : Probe} (h : p.filled = p) : p.Complete := by
  rw [← h]
  exact ⟨rfl, rfl, rfl, rfl, rfl⟩

theorem ServiceExtension.complete_of_expand {x : ServiceExtension} (h : Layered.expand x = x) :
    x.Complete :=
  fun p hp => Probe.complete_of_filled (expand_eq_self_iff.mp h p hp)

section Resources

variable [Layered X] {x : X → Prop}

theorem Body.complete_of_expand (hx : ∀ {e : X}, Layered.expand e = e → x e) {b : Body X}
    (h : b.expand = b) : b.Complete x := by
  obtain ⟨hsource, hextension⟩ := expand_eq_self_iff.mp h
  exact ⟨hsource, hx hextension⟩

theorem Resource.complete_of_expand (hx : ∀ {e : X}, Layered.expand e = e → x e) {r : Resource X}
    (h : r.expand = r) : r.Flat (Body.Complete x) := by
  obtain ⟨hbody, hdebug⟩ := expand_eq_self_iff.mp h
  refine ⟨Body.complete_of_expand hx hbody, fun debug hsome => ?_⟩
  obtain ⟨hinner, hflat⟩ := hdebug debug hsome
  exact ⟨Body.complete_of_expand hx hinner, hflat⟩

end Resources

namespace Component

theorem complete_expand (c : Component) : c.expand.Complete where
  parameters key p hp :=
    Parameter.expand_eq_self_iff.mp (finishing_parameters.mapValues_done c c.parameters key p hp)
  blocks :=
    { services := fun key s hs => Resource.complete_of_expand ServiceExtension.complete_of_expand
        (finishing_resources.mapValues_done c c.services key s hs)
      tasks := fun key t ht => Resource.complete_of_expand (fun _ => trivial)
        (finishing_resources.mapValues_done c c.tasks key t ht) }
  interfaces key i hi := ComponentInterface.expand_eq_self_iff.mp
    (finishing_interfaces.mapValues_done c c.interfaces key i hi)

/-- Expanding again changes nothing; the first time it adds to what was set,
without changing any of it but for names, and leaves no default out. -/
theorem expand_completes (c : Component) :
    c.expand.expand = c.expand ∧ c.Completes c.expand ∧ c.expand.Complete :=
  ⟨c.expand_expand, c.completes_expand, c.complete_expand⟩

end Component

end Config

end Manifest
