import Manifest.Proofs.Layering
/-!
# Layers in any grouping

Each rule of an overlay, down to those of single values, gives the same for
three layers from the left and from the right. Only probes ask for something:
the uppermost one has to run a command or to send requests, and not both.
Defaults are written down once and for all, and no overlay loses them.
-/

namespace Manifest.Config

variable {α X : Type}

/-! ## Single values -/

theorem valueOver_assoc (a b c : Option α) :
    valueOver (valueOver a b) c = valueOver a (valueOver b c) :=
  Option.or_assoc.symm

theorem isSome_valueOver {base upper : Option α} :
    (valueOver base upper).isSome ↔ base.isSome ∨ upper.isSome := by
  rw [valueOver, Option.isSome_or, Bool.or_eq_true, or_comm]

theorem textOver_assoc (a b c : String) :
    textOver (textOver a b) c = textOver a (textOver b c) := by
  unfold textOver
  by_cases hc : c.isEmpty <;> simp [hc]

theorem listOver_assoc (a b c : List α) :
    listOver (listOver a b) c = listOver a (listOver b c) := by
  cases c with
  | nil => rfl
  | cons => rfl

theorem textsOver_assoc (a b c : Dict String) :
    textsOver (textsOver a b) c = textsOver a (textsOver b c) :=
  Dict.overlay_assoc fun _ _ _ _ _ _ _ => rfl

theorem textOver_eq_empty {a b : String} : (textOver a b).isEmpty = true ↔
    a.isEmpty = true ∧ b.isEmpty = true := by
  unfold textOver
  split <;> simp_all

/-! ## Parts of a resource -/

theorem Parameter.overlay_assoc (a b c : Parameter) :
    (a.overlay b).overlay c = a.overlay (b.overlay c) := by
  simp only [Parameter.overlay, valueOver_assoc]

theorem Parameter.expand_eq_self_iff {p : Parameter} :
    p.expand = p ↔ (p.required = some false → p.default.isSome) := by
  obtain ⟨required, description, default⟩ := p
  cases default <;> simp [expand]

theorem Parameter.expand_expand (p : Parameter) : p.expand.expand = p.expand := by
  rw [expand_eq_self_iff, expand]
  split
  · exact fun _ => rfl
  · rename_i h
    simpa [Option.isSome_iff_ne_none] using h

theorem Parameter.expand_overlay {p q : Parameter} (hp : p.expand = p) (hq : q.expand = q) :
    (p.overlay q).expand = p.overlay q := by
  rw [expand_eq_self_iff] at hp hq ⊢
  intro hrequired
  show (q.default.or p.default).isSome
  rw [Option.isSome_or, Bool.or_eq_true]
  rcases Option.or_eq_some_iff.mp hrequired with hupper | ⟨-, hbase⟩
  · exact Or.inl (hq hupper)
  · exact Or.inr (hp hbase)

theorem Volume.overlay_assoc (a b c : Volume) :
    (a.overlay b).overlay c = a.overlay (b.overlay c) := by
  simp only [Volume.overlay, valueOver_assoc]

theorem Interface.overlay_assoc (a b c : Interface) :
    (a.overlay b).overlay c = a.overlay (b.overlay c) := by
  simp only [Interface.overlay, valueOver_assoc]

theorem Ingress.overlay_assoc (a b c : Ingress) :
    (a.overlay b).overlay c = a.overlay (b.overlay c) := by
  simp only [Ingress.overlay, valueOver_assoc]

theorem ComponentInterface.overlay_assoc (a b c : ComponentInterface) :
    (a.overlay b).overlay c = a.overlay (b.overlay c) := by
  simp only [ComponentInterface.overlay, ComponentInterface.mk.injEq]
  exact ⟨Interface.overlay_assoc .., Dict.combine_assoc fun _ _ _ _ _ _ => Ingress.overlay_assoc ..⟩

theorem ComponentInterface.expand_eq_self_iff {i : ComponentInterface} :
    i.expand = i ↔ ∀ g, i.ingress = some g → g.enabled.isSome := by
  obtain ⟨interface, ingress⟩ := i
  cases ingress with
  | none => simp [expand]
  | some g =>
      obtain ⟨enabled, subdomain⟩ := g
      cases enabled <;> simp [expand, Ingress.expand]

theorem ComponentInterface.expand_expand (i : ComponentInterface) :
    i.expand.expand = i.expand := by
  refine expand_eq_self_iff.mpr fun g hg => ?_
  obtain ⟨h, -, rfl⟩ := Option.map_eq_some_iff.mp hg
  show (h.enabled.or (some true)).isSome
  rw [Option.isSome_or, Option.isSome_some, Bool.or_true]

theorem ComponentInterface.expand_overlay {i j : ComponentInterface} (hi : i.expand = i)
    (hj : j.expand = j) : (i.overlay j).expand = i.overlay j := by
  rw [expand_eq_self_iff] at hi hj ⊢
  intro g hg
  rcases Dict.eq_some_of_combine hg with hbase | hupper | ⟨b, u, hbase, -, rfl⟩
  · exact hi g hbase
  · exact hj g hupper
  · show (u.enabled.or b.enabled).isSome
    rw [Option.isSome_or, hi b hbase, Bool.or_true]

theorem Metrics.overlay_assoc (a b c : Metrics) :
    (a.overlay b).overlay c = a.overlay (b.overlay c) := by
  simp only [Metrics.overlay, valueOver_assoc]

theorem Scaling.overlay_assoc (a b c : Scaling) :
    (a.overlay b).overlay c = a.overlay (b.overlay c) := by
  simp only [Scaling.overlay, valueOver_assoc, Metrics.overlay_assoc]

/-- The probe runs a command, or it sends requests to a port at a path, and
never both. -/
inductive Probe.Exclusive (p : Probe) : Prop
  | command (hcommand : p.command.isSome) (hpath : p.path = none) (hport : p.port = none)
  | request (hcommand : p.command = none) (hpath : p.path.isSome) (hport : p.port.isSome)

namespace Probe

/-- Only the uppermost probe has to say which way it goes. -/
theorem overlay_assoc (a b : Probe) {c : Probe} (hc : c.Exclusive) :
    (a.overlay b).overlay c = a.overlay (b.overlay c) := by
  simp only [overlay, valueOver_assoc, mk.injEq, true_and]
  cases hc with
  | command hcommand hpath hport =>
      obtain ⟨command, hcommand⟩ := Option.isSome_iff_exists.mp hcommand
      simp [valueOver, isRequest, hcommand, hpath, hport]
  | request hcommand hpath hport =>
      obtain ⟨path, hpath⟩ := Option.isSome_iff_exists.mp hpath
      obtain ⟨port, hport⟩ := Option.isSome_iff_exists.mp hport
      simp [valueOver, isRequest, hcommand, hpath, hport]

/-- A path without a port ends a command, and leaves the port to the layers
below. -/
example :
    let a : Probe := { port := some "80" }
    let b : Probe := { command := some ["ping"] }
    let c : Probe := { path := some "/health" }
    (a.overlay b).overlay c ≠ a.overlay (b.overlay c) := by
  decide

theorem Exclusive.filled {p : Probe} (h : p.Exclusive) : p.filled.Exclusive := by
  cases h with
  | command hcommand hpath hport => exact .command hcommand hpath hport
  | request hcommand hpath hport => exact .request hcommand hpath hport

theorem some_getD_or (value : Option String) (base default : String) :
    some ((value.or (some base)).getD default) = value.or (some base) := by
  cases value <;> rfl

/-- Thresholds and times that are written down stay so under another probe. -/
theorem filled_overlay {p : Probe} (h : p.filled = p) (q : Probe) :
    (p.overlay q).filled = p.overlay q := by
  rw [← h]
  simp only [filled, overlay, valueOver, some_getD_or]

end Probe

/-! ## Extensions -/

/-- Defaults are written down once and for all: an overlay of extensions that
have theirs has them too. -/
class LawfulLayered (X : Type) [Layered X] : Prop where
  expand_expand (x : X) : Layered.expand (Layered.expand x) = Layered.expand x
  expand_overlay {x y : X} (hx : Layered.expand x = x) (hy : Layered.expand y = y) :
    Layered.expand (Layered.overlay x y) = Layered.overlay x y

/-- Over the upper extension, the rules of overlays are associative. -/
def Uppermost [Layered X] (z : X) : Prop :=
  ∀ x y : X, Layered.overlay (Layered.overlay x y) z = Layered.overlay x (Layered.overlay y z)

instance : LawfulLayered TaskExtension where
  expand_expand _ := rfl
  expand_overlay _ _ := rfl

theorem TaskExtension.uppermost (z : TaskExtension) : Uppermost z := by
  intro x y
  simp only [Layered.overlay, valueOver_assoc]

namespace ServiceExtension

/-- The probe of the extension, if it has one, goes one way. -/
def Exclusive (x : ServiceExtension) : Prop := ∀ p, x.probe = some p → p.Exclusive

theorem probe_expand (x : ServiceExtension) :
    (Layered.expand x).probe = x.probe.map Probe.filled := rfl

theorem expand_eq_self_iff {x : ServiceExtension} :
    Layered.expand x = x ↔ ∀ p, x.probe = some p → p.filled = p := by
  obtain ⟨interfaces, probe, replicas, scaling⟩ := x
  cases probe with
  | none => simp [Layered.expand]
  | some p => simp [Layered.expand]

instance : LawfulLayered ServiceExtension where
  expand_expand x := by
    refine expand_eq_self_iff.mpr fun p hp => ?_
    rw [probe_expand] at hp
    obtain ⟨q, -, rfl⟩ := Option.map_eq_some_iff.mp hp
    rfl
  expand_overlay {x y} hx hy := by
    rw [expand_eq_self_iff] at hx hy ⊢
    intro p hp
    rcases Dict.eq_some_of_combine hp with hbase | hupper | ⟨b, u, hbase, -, rfl⟩
    · exact hx p hbase
    · exact hy p hupper
    · exact Probe.filled_overlay (hx b hbase) u

theorem Exclusive.expand {x : ServiceExtension} (h : x.Exclusive) :
    (Layered.expand x).Exclusive := by
  intro p hp
  rw [probe_expand] at hp
  obtain ⟨q, hq, rfl⟩ := Option.map_eq_some_iff.mp hp
  exact (h q hq).filled

theorem Exclusive.uppermost {z : ServiceExtension} (h : z.Exclusive) : Uppermost z := by
  intro x y
  simp only [Layered.overlay, mk.injEq, valueOver_assoc, true_and]
  refine ⟨?_, ?_, ?_⟩
  · exact Dict.overlay_assoc fun _ _ _ _ _ _ _ => Interface.overlay_assoc ..
  · exact Dict.combine_assoc fun a b c _ _ hc => Probe.overlay_assoc a b (h c hc)
  · exact Dict.combine_assoc fun _ _ _ _ _ _ => Scaling.overlay_assoc ..

end ServiceExtension

/-! ## Resources -/

/-- Each name of the upper identity, unless it is empty. -/
def Identity.over (base upper : Identity) : Identity where
  name := textOver base.name upper.name
  reference := textOver base.reference upper.reference
  tag := textOver base.tag upper.tag

theorem Identity.over_assoc (a b c : Identity) : (a.over b).over c = a.over (b.over c) := by
  simp only [Identity.over, textOver_assoc]

namespace Body

variable [Layered X]

/-- An implicit build of the uppermost layer says nothing, like no source at
all; any other source hides both layers below. -/
theorem sourceOver_assoc (a b c : Body X) :
    sourceOver (a.overlay b) c = sourceOver a (b.overlay c) := by
  cases himage : c.image with
  | some image => simp [sourceOver, overlay, himage]
  | none =>
      cases hbuild : c.build with
      | none => simp [sourceOver, overlay, himage, hbuild]
      | some build =>
          by_cases himplicit : build.isImplicit
          · simp [sourceOver, overlay, himage, hbuild, himplicit]
          · simp [sourceOver, overlay, himage, hbuild, himplicit]

theorem overlay_assoc (a b : Body X) {c : Body X} (hc : Uppermost c.extension) :
    (a.overlay b).overlay c = a.overlay (b.overlay c) := by
  have hsource := sourceOver_assoc a b c
  have hvolumes : (a.volumes.overlay Volume.overlay b.volumes).overlay Volume.overlay c.volumes
      = a.volumes.overlay Volume.overlay (b.volumes.overlay Volume.overlay c.volumes) :=
    Dict.overlay_assoc fun _ _ _ _ _ _ _ => Volume.overlay_assoc ..
  show Body.mk .. = Body.mk ..
  rw [mk.injEq]
  exact ⟨Identity.over_assoc .., valueOver_assoc .., congrArg Prod.fst hsource,
    congrArg Prod.snd hsource, valueOver_assoc .., valueOver_assoc .., textsOver_assoc ..,
    hvolumes, valueOver_assoc .., valueOver_assoc .., listOver_assoc .., textsOver_assoc ..,
    hc a.extension b.extension⟩

/-- A body with its defaults has a source, and an extension with its own. -/
theorem expand_eq_self_iff {b : Body X} : b.expand = b ↔
    (b.image.isSome ∨ b.build.isSome) ∧ Layered.expand b.extension = b.extension := by
  obtain ⟨identity, description, image, build⟩ := b
  cases image with
  | some image => simp [expand]
  | none =>
      cases build with
      | some build => simp [expand]
      | none => simp [expand]

/-- A source that is there is the only one. -/
theorem build_expand {b : Body X} (h : b.image.isSome ∨ b.build.isSome) :
    b.expand.build = b.build := by
  show (if b.image.isNone && b.build.isNone then some .implicit else b.build) = b.build
  refine if_neg fun hnone => ?_
  rw [Bool.and_eq_true, Option.isNone_iff_eq_none, Option.isNone_iff_eq_none] at hnone
  obtain ⟨himage, hbuild⟩ := hnone
  rw [himage, hbuild] at h
  simp at h

omit [Layered X] in
theorem isSome_sourceOver {a b : Body X} (h : a.image.isSome ∨ a.build.isSome) :
    (sourceOver a b).1.isSome ∨ (sourceOver a b).2.isSome := by
  unfold sourceOver
  split
  · exact Or.inl rfl
  · split
    · exact h
    · exact Or.inr rfl
  · exact h

theorem isSome_source_expand (b : Body X) : b.expand.image.isSome ∨ b.expand.build.isSome := by
  show b.image.isSome ∨ (if b.image.isNone && b.build.isNone then some Build.implicit
    else b.build).isSome
  cases b.image with
  | some image => exact Or.inl rfl
  | none => cases b.build <;> exact Or.inr rfl

variable [LawfulLayered X]

theorem expand_expand (b : Body X) : b.expand.expand = b.expand :=
  expand_eq_self_iff.mpr ⟨b.isSome_source_expand, LawfulLayered.expand_expand b.extension⟩

theorem expand_overlay {a b : Body X} (ha : a.expand = a) (hb : b.expand = b) :
    (a.overlay b).expand = a.overlay b := by
  rw [expand_eq_self_iff] at ha hb ⊢
  exact ⟨isSome_sourceOver ha.1, LawfulLayered.expand_overlay ha.2 hb.2⟩

end Body

namespace Resource

variable [Layered X]

/-- The property holds of the extensions of the resource and of its debug
block. -/
def Each (P : X → Prop) : Resource X → Prop
  | ⟨body, none⟩ => P body.extension
  | ⟨body, some debug⟩ => P body.extension ∧ debug.Each P

theorem overlay_body (a b : Resource X) : (a.overlay b).body = a.body.overlay b.body := by
  obtain ⟨a, aDebug⟩ := a
  obtain ⟨b, bDebug⟩ := b
  cases aDebug <;> cases bDebug <;> rfl

theorem overlay_debug (a b : Resource X) :
    (a.overlay b).debug = combine overlay a.debug b.debug := by
  obtain ⟨a, aDebug⟩ := a
  obtain ⟨b, bDebug⟩ := b
  cases aDebug <;> cases bDebug <;> rfl

theorem overlay_eq (a b : Resource X) :
    a.overlay b = ⟨a.body.overlay b.body, combine overlay a.debug b.debug⟩ := by
  obtain ⟨a, aDebug⟩ := a
  obtain ⟨b, bDebug⟩ := b
  cases aDebug <;> cases bDebug <;> rfl

theorem overlay_assoc : ∀ (a b : Resource X) {c : Resource X}, c.Each Uppermost →
    (a.overlay b).overlay c = a.overlay (b.overlay c)
  | a, b, ⟨c, none⟩, hc => by
      rw [overlay_eq, overlay_eq, overlay_eq a, overlay_eq b, mk.injEq]
      refine ⟨Body.overlay_assoc _ _ hc, Dict.combine_assoc fun _ _ _ _ _ h => ?_⟩
      cases h
  | a, b, ⟨c, some debug⟩, hc => by
      rw [overlay_eq, overlay_eq, overlay_eq a, overlay_eq b, mk.injEq]
      refine ⟨Body.overlay_assoc _ _ hc.1, Dict.combine_assoc fun x y _ _ _ h => ?_⟩
      obtain rfl := Option.some.inj h
      exact overlay_assoc x y hc.2

/-- A resource with its defaults is a body with its own, and so is its debug
block, which has no further one. -/
theorem expand_eq_self_iff {r : Resource X} : r.expand = r ↔
    r.body.expand = r.body
      ∧ ∀ debug, r.debug = some debug → debug.body.expand = debug.body ∧ debug.debug = none := by
  obtain ⟨body, debug⟩ := r
  cases debug with
  | none => simp [expand]
  | some debug =>
      obtain ⟨debugBody, inner⟩ := debug
      simp [expand, eq_comm]

section Lawful

variable [LawfulLayered X]

theorem expand_expand (r : Resource X) : r.expand.expand = r.expand := by
  refine expand_eq_self_iff.mpr ⟨Body.expand_expand r.body, fun debug hdebug => ?_⟩
  obtain ⟨inner, -, rfl⟩ := Option.map_eq_some_iff.mp hdebug
  exact ⟨Body.expand_expand inner.body, rfl⟩

theorem expand_overlay {a b : Resource X} (ha : a.expand = a) (hb : b.expand = b) :
    (a.overlay b).expand = a.overlay b := by
  rw [expand_eq_self_iff] at ha hb ⊢
  rw [overlay_body, overlay_debug]
  refine ⟨Body.expand_overlay ha.1 hb.1, fun debug hdebug => ?_⟩
  rcases Dict.eq_some_of_combine hdebug with hbase | hupper | ⟨x, y, hx, hy, rfl⟩
  · exact ha.2 debug hbase
  · exact hb.2 debug hupper
  · obtain ⟨hxbody, hxdebug⟩ := ha.2 x hx
    obtain ⟨hybody, hydebug⟩ := hb.2 y hy
    rw [overlay_body, overlay_debug, hxdebug, hydebug]
    exact ⟨Body.expand_overlay hxbody hybody, rfl⟩

end Lawful

end Resource

end Manifest.Config
