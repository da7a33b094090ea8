import Manifest.Proofs.Layering.Associative
/-!
# What layering keeps of every block

The blocks of a config are the bodies of its services and tasks and those of
their debug blocks, which go no deeper. A property that does not look at names
and that expanding and overlays keep (`Body.Stable`) holds of the blocks of a
merge if it holds of those of both layers (`Component.Blocks.merge`).
-/

namespace Manifest.Config

variable {X : Type}

/-- The property holds of the resource and of its debug block, which has no
further one. -/
structure Resource.Flat (P : Body X → Prop) (r : Resource X) : Prop where
  body : P r.body
  debug : ∀ debug, r.debug = some debug → P debug.body ∧ debug.debug = none

/-- The properties hold of the blocks of all services and of all tasks. -/
structure Component.Blocks (P : Body ServiceExtension → Prop) (Q : Body TaskExtension → Prop)
    (c : Component) : Prop where
  services : ∀ key s, c.services.get? key = some s → s.Flat P
  tasks : ∀ key t, c.tasks.get? key = some t → t.Flat Q

structure Body.Stable [Layered X] (P : Body X → Prop) : Prop where
  renamed {b : Body X} (h : P b) (i : Identity) : P { b with identity := i }
  expand {b : Body X} (h : P b) : P b.expand
  overlay {a b : Body X} (ha : P a) (hb : P b) : P (a.overlay b)

section Stable

variable [Layered X] {P : Body X → Prop} (hP : Body.Stable P)
include hP

theorem Resource.Flat.stamp {r : Resource X} (h : r.Flat P) (c : Component) (key : String) :
    (r.stamp c key).Flat P where
  body := hP.renamed h.body _
  debug debug hdebug := by
    obtain ⟨inner, hinner, rfl⟩ := Option.map_eq_some_iff.mp hdebug
    obtain ⟨hbody, hnone⟩ := h.debug inner hinner
    exact ⟨hP.renamed hbody _, hnone⟩

theorem Resource.Flat.expand {r : Resource X} (h : r.Flat P) : r.expand.Flat P where
  body := hP.expand h.body
  debug debug hdebug := by
    obtain ⟨inner, hinner, rfl⟩ := Option.map_eq_some_iff.mp hdebug
    obtain ⟨hbody, -⟩ := h.debug inner hinner
    exact ⟨hP.expand hbody, rfl⟩

theorem Resource.Flat.overlay {a b : Resource X} (ha : a.Flat P) (hb : b.Flat P) :
    (a.overlay b).Flat P where
  body := by
    rw [overlay_body]
    exact hP.overlay ha.body hb.body
  debug debug hdebug := by
    rw [overlay_debug] at hdebug
    rcases Dict.eq_some_of_combine hdebug with hbase | hupper | ⟨x, y, hx, hy, rfl⟩
    · exact ha.debug debug hbase
    · exact hb.debug debug hupper
    · obtain ⟨hxbody, hxdebug⟩ := ha.debug x hx
      obtain ⟨hybody, hydebug⟩ := hb.debug y hy
      rw [overlay_body, overlay_debug, hxdebug, hydebug]
      exact ⟨hP.overlay hxbody hybody, rfl⟩

theorem flat_stamped {d : Dict (Resource X)} (h : ∀ key r, d.get? key = some r → r.Flat P)
    (c : Component) : ∀ key r, (stamped c d).get? key = some r → r.Flat P := by
  intro key r hr
  rw [stamped, Dict.get?_mapValues] at hr
  obtain ⟨given, hgiven, rfl⟩ := Option.map_eq_some_iff.mp hr
  exact ((h key given hgiven).stamp hP c key).expand hP

theorem flat_layered {d₁ d₂ : Dict (Resource X)} (h₁ : ∀ key r, d₁.get? key = some r → r.Flat P)
    (h₂ : ∀ key r, d₂.get? key = some r → r.Flat P) (base upper : Component) :
    ∀ key r, (layered base upper d₁ d₂).get? key = some r → r.Flat P := by
  refine flat_stamped hP (fun key r hr => ?_) _
  rw [Dict.get?_overlay] at hr
  rcases Dict.eq_some_of_combine hr with hbase | hupper | ⟨b, u, hb, hu, rfl⟩
  · exact flat_stamped hP h₁ base key r hbase
  · exact flat_stamped hP h₂ upper key r hupper
  · exact (flat_stamped hP h₁ base key b hb).overlay hP (flat_stamped hP h₂ upper key u hu)

end Stable

theorem Component.Blocks.merge {P : Body ServiceExtension → Prop} {Q : Body TaskExtension → Prop}
    (hP : Body.Stable P) (hQ : Body.Stable Q) {base upper : Component} (hbase : base.Blocks P Q)
    (hupper : upper.Blocks P Q) : (base.merge upper).Blocks P Q where
  services := flat_layered hP hbase.services hupper.services base upper
  tasks := flat_layered hQ hbase.tasks hupper.tasks base upper

end Manifest.Config
