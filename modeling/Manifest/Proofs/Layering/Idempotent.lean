import Manifest.Proofs.Layering.Grouping
/-!
# Layers that add nothing

An overlay of a config with itself gives the config back, and so do overlays
with the empty config, above or below. Expanding writes down all there is to
write the first time. Merging does both, so that of a merge with the same
config, or with the empty one, only the defaults are left
(`Component.merge_empty_and_self`).
-/

namespace Manifest.Config

variable {α X : Type}

/-! ## Single values -/

@[simp] theorem none_valueOver (upper : Option α) : valueOver none upper = upper := Option.or_none

@[simp] theorem valueOver_self (value : Option α) : valueOver value value = value := Option.or_self

@[simp] theorem empty_textOver (upper : String) : textOver "" upper = upper := by
  unfold textOver
  split
  · rename_i hempty
    exact (String.isEmpty_iff.mp hempty).symm
  · rfl

@[simp] theorem textOver_self (text : String) : textOver text text = text := ite_self text

@[simp] theorem nil_listOver (upper : List α) : listOver [] upper = upper := by
  cases upper <;> rfl

@[simp] theorem listOver_self (values : List α) : listOver values values = values :=
  ite_self values

@[simp] theorem empty_textsOver (upper : Dict String) : textsOver {} upper = upper :=
  Dict.empty_overlay _ upper

@[simp] theorem textsOver_self (texts : Dict String) : textsOver texts texts = texts :=
  Dict.overlay_self (fun _ => rfl) texts

/-! ## Overlays of a value with itself -/

theorem Parameter.overlay_self (p : Parameter) : p.overlay p = p := by
  simp only [Parameter.overlay, valueOver_self]

theorem Volume.overlay_self (v : Volume) : v.overlay v = v := by
  simp only [Volume.overlay, valueOver_self]

theorem Interface.overlay_self (i : Interface) : i.overlay i = i := by
  simp only [Interface.overlay, valueOver_self]

theorem Ingress.overlay_self (i : Ingress) : i.overlay i = i := by
  simp only [Ingress.overlay, valueOver_self]

theorem ComponentInterface.overlay_self (i : ComponentInterface) : i.overlay i = i := by
  simp only [ComponentInterface.overlay, Interface.overlay_self,
    Dict.combine_self Ingress.overlay_self]

theorem Metrics.overlay_self (m : Metrics) : m.overlay m = m := by
  simp only [Metrics.overlay, valueOver_self]

theorem Scaling.overlay_self (s : Scaling) : s.overlay s = s := by
  simp only [Scaling.overlay, valueOver_self, Metrics.overlay_self]

/-- What the upper probe ends in the lower one it has itself, or neither has
it. -/
theorem Probe.overlay_self (p : Probe) : p.overlay p = p := by
  obtain ⟨_, _, _, _, _, path, port, command⟩ := p
  simp only [Probe.overlay, isRequest, valueOver_self, mk.injEq, true_and]
  cases command with
  | some command => cases path <;> cases port <;> simp
  | none => cases path <;> cases port <;> simp

/-- An extension laid over itself stays as it is. -/
class IdempotentLayered (X : Type) [Layered X] : Prop where
  overlay_self (x : X) : Layered.overlay x x = x

instance : IdempotentLayered TaskExtension where
  overlay_self x := by simp only [Layered.overlay, valueOver_self]

instance : IdempotentLayered ServiceExtension where
  overlay_self x := by
    simp only [Layered.overlay, valueOver_self, Dict.overlay_self Interface.overlay_self,
      Dict.combine_self Probe.overlay_self, Dict.combine_self Scaling.overlay_self]

section Resources

variable [Layered X]

omit [Layered X] in
theorem Body.sourceOver_self (b : Body X) : sourceOver b b = (b.image, b.build) := by
  obtain ⟨_, _, image, build⟩ := b
  cases image with
  | some image => rfl
  | none =>
      cases build with
      | none => rfl
      | some build => exact ite_self (none, some build)

variable [IdempotentLayered X]

theorem Body.overlay_self (b : Body X) : b.overlay b = b := by
  simp only [Body.overlay, Body.sourceOver_self, valueOver_self, textOver_self, listOver_self,
    textsOver_self, Dict.overlay_self Volume.overlay_self, IdempotentLayered.overlay_self]

theorem Resource.overlay_self : ∀ r : Resource X, r.overlay r = r
  | ⟨body, none⟩ => by
      rw [overlay_eq, body.overlay_self]
      rfl
  | ⟨body, some debug⟩ => by
      rw [overlay_eq, body.overlay_self, combine, debug.overlay_self]

end Resources

/-! ## Components -/

namespace Component

theorem overlay_empty (c : Component) : c.overlay empty = c := rfl

theorem empty_overlay (c : Component) : empty.overlay c = c := by
  simp only [overlay, empty, empty_textOver, none_valueOver, nil_listOver, empty_textsOver,
    Dict.empty_overlay]

theorem overlay_self (c : Component) : c.overlay c = c := by
  simp only [overlay, textOver_self, valueOver_self, listOver_self, textsOver_self,
    Dict.overlay_self Parameter.overlay_self, Dict.overlay_self Resource.overlay_self,
    Dict.overlay_self ComponentInterface.overlay_self]

/-- Expanding keeps name and tag, so what it stamps is stamped again. -/
theorem expand_expand (c : Component) : c.expand.expand = c.expand := by
  have hnames : c.expand.Covers c := ⟨id, id⟩
  have hreference : c.expand.expand.reference = c.expand.reference := by
    show (if c.name.isEmpty then (if c.name.isEmpty then c.reference else c.ref) else c.ref)
      = if c.name.isEmpty then c.reference else c.ref
    split <;> rfl
  have hparameters := finishing_parameters.mapValues_again hnames c.parameters
  have hservices := finishing_resources.mapValues_again hnames c.services
  have htasks := finishing_resources.mapValues_again hnames c.tasks
  have hinterfaces := finishing_interfaces.mapValues_again hnames c.interfaces
  show Component.mk .. = Component.mk ..
  rw [mk.injEq]
  exact ⟨rfl, rfl, hreference, rfl, rfl, rfl, rfl, rfl, rfl, rfl, rfl, rfl, hparameters, hservices,
    htasks, rfl, hinterfaces⟩

theorem expand_empty : empty.expand = empty := rfl

/-- The empty config is neutral on both sides, and so is the config itself: all
that a merge with them does is to expand. -/
theorem merge_empty_and_self (c : Component) :
    c.merge empty = c.expand ∧ empty.merge c = c.expand ∧ c.merge c = c.expand := by
  refine ⟨?_, ?_, ?_⟩
  · calc c.merge empty
        = (c.expand.overlay empty).expand := by rw [merge, expand_empty]
      _ = c.expand := by rw [overlay_empty, expand_expand]
  · calc empty.merge c
        = (empty.overlay c.expand).expand := by rw [merge, expand_empty]
      _ = c.expand := by rw [empty_overlay, expand_expand]
  · calc c.merge c
        = c.expand.expand := by rw [merge, overlay_self]
      _ = c.expand := expand_expand c

end Component

end Manifest.Config
