import Manifest.Proofs.Layering.Associative
/-!
# Layers in any grouping

Three configs may be layered from the left or from the right
(`Component.merge_merge`). An overlay may be grouped at will, but each merge
also finishes what it makes: it writes down defaults, and the names of the
merged component. What an inner merge finishes makes no difference in the end
(`Finishing`), since the outer one knows a name wherever the inner one did, and
writes it again.
-/

namespace Manifest.Config

variable {α X : Type}

/-! ## Names of resources -/

namespace Identity

/-- The identity of a resource at a key of a component. -/
def stamped (c : Component) (key : String) (own : Identity) : Identity where
  name := key
  reference := if c.name.isEmpty then own.reference else c.resourceRef key
  tag := textOver own.tag c.tag

end Identity

/-- The component has a name and a tag if the inner one has them. -/
structure Component.Covers (c inner : Component) : Prop where
  name : c.name.isEmpty → inner.name.isEmpty
  tag : c.tag.isEmpty → inner.tag.isEmpty

namespace Component

theorem Covers.refl (c : Component) : c.Covers c := ⟨id, id⟩

theorem covers_base (base upper : Component) : (base.expand.overlay upper.expand).Covers base where
  name h := (textOver_eq_empty.mp h).1
  tag h := (textOver_eq_empty.mp h).1

theorem covers_upper (base upper : Component) :
    (base.expand.overlay upper.expand).Covers upper where
  name h := (textOver_eq_empty.mp h).2
  tag h := (textOver_eq_empty.mp h).2

end Component

namespace Identity

variable {c p q : Component} {i j : Identity}

/-- Only where the component has no name or no tag, the own ones matter. -/
theorem stamped_congr (key : String) (hreference : c.name.isEmpty → i.reference = j.reference)
    (htag : c.tag.isEmpty → i.tag = j.tag) : i.stamped c key = j.stamped c key := by
  simp only [stamped, mk.injEq, true_and]
  refine ⟨?_, ?_⟩
  · split
    · rename_i hname
      exact hreference hname
    · rfl
  · unfold textOver
    split
    · rename_i hempty
      exact htag hempty
    · rfl

theorem reference_stamped (h : c.name.isEmpty) (key : String) (i : Identity) :
    (i.stamped c key).reference = i.reference := if_pos h

theorem tag_stamped (h : c.tag.isEmpty) (key : String) (i : Identity) :
    (i.stamped c key).tag = i.tag := if_pos h

/-- What the inner component wrote is written again. -/
theorem stamped_stamped (h : c.Covers p) (key : String) (i : Identity) :
    (i.stamped p key).stamped c key = i.stamped c key :=
  stamped_congr key (fun hname => reference_stamped (h.name hname) key i)
    fun htag => tag_stamped (h.tag htag) key i

theorem stamped_over (hp : c.Covers p) (hq : c.Covers q) (key : String) (i j : Identity) :
    ((i.stamped p key).over (j.stamped q key)).stamped c key = (i.over j).stamped c key := by
  refine stamped_congr key (fun hname => ?_) fun htag => ?_
  · show textOver (i.stamped p key).reference (j.stamped q key).reference = _
    rw [reference_stamped (hp.name hname), reference_stamped (hq.name hname)]
    rfl
  · show textOver (i.stamped p key).tag (j.stamped q key).tag = _
    rw [tag_stamped (hp.tag htag), tag_stamped (hq.tag htag)]
    rfl

end Identity

namespace Resource

/-- The resource and its debug block under another identity. -/
def renamed (i : Identity) (r : Resource X) : Resource X where
  body := { r.body with identity := i }
  debug := r.debug.map fun debug => { debug with body := { debug.body with identity := i } }

theorem stamp_eq (c : Component) (key : String) (r : Resource X) :
    r.stamp c key = r.renamed (r.body.identity.stamped c key) := rfl

theorem renamed_renamed (i j : Identity) (r : Resource X) :
    (r.renamed j).renamed i = r.renamed i := by
  obtain ⟨body, debug⟩ := r
  cases debug <;> rfl

variable [Layered X] {c p q : Component}

theorem renamed_overlay (i j k : Identity) (a b : Resource X) :
    ((a.renamed j).overlay (b.renamed k)).renamed i = (a.overlay b).renamed i := by
  obtain ⟨a, aDebug⟩ := a
  obtain ⟨b, bDebug⟩ := b
  cases aDebug with
  | none => cases bDebug <;> rfl
  | some aDebug =>
      cases bDebug with
      | none => rfl
      | some bDebug =>
          obtain ⟨aBody, aInner⟩ := aDebug
          obtain ⟨bBody, bInner⟩ := bDebug
          cases aInner <;> cases bInner <;> rfl

theorem identity_overlay (a b : Resource X) :
    (a.overlay b).body.identity = a.body.identity.over b.body.identity := by
  rw [overlay_body]
  rfl

theorem expand_stamp (c : Component) (key : String) (r : Resource X) :
    (r.stamp c key).expand = r.expand.stamp c key := by
  obtain ⟨body, debug⟩ := r
  cases debug <;> rfl

omit [Layered X] in
theorem stamp_stamp (h : c.Covers p) (key : String) (r : Resource X) :
    (r.stamp p key).stamp c key = r.stamp c key := by
  rw [stamp_eq, stamp_eq p, stamp_eq c, renamed_renamed]
  exact congrArg r.renamed (Identity.stamped_stamped h key r.body.identity)

theorem stamp_overlay (hp : c.Covers p) (hq : c.Covers q) (key : String) (a b : Resource X) :
    ((a.stamp p key).overlay (b.stamp q key)).stamp c key = (a.overlay b).stamp c key := by
  rw [stamp_eq c, stamp_eq c, identity_overlay, identity_overlay, stamp_eq, stamp_eq,
    renamed_overlay]
  exact congrArg (a.overlay b).renamed
    (Identity.stamped_over hp hq key a.body.identity b.body.identity)

end Resource

/-! ## What a merge finishes -/

/-- A way to finish the values of a component, each at its key, and what holds
of the finished ones. An overlay of them is finished but for names, and what
an inner component finished may as well not be. -/
structure Finishing (f : α → α → α) (finish : Component → String → α → α) (done : α → Prop) :
    Prop where
  finish_done (c : Component) (key : String) (x : α) : done (finish c key x)
  overlay_done {x y : α} (hx : done x) (hy : done y) : done (f x y)
  names {c p : Component} (hname : c.name = p.name) (htag : c.tag = p.tag) : finish c = finish p
  again {c p : Component} (h : c.Covers p) (key : String) (x : α) :
    finish c key (finish p key x) = finish c key x
  overlay {c p q : Component} (hp : c.Covers p) (hq : c.Covers q) (key : String) {x y : α}
    (hx : done x) (hy : done y) :
    finish c key (f (finish p key x) (finish q key y)) = finish c key (f x y)

/-- The values of `upper` over those of `base`, finished before and after. -/
def finishedOver (finish : Component → String → α → α) (f : α → α → α) (base upper : Component)
    (d₁ d₂ : Dict α) : Dict α :=
  ((d₁.mapValues (finish base)).overlay f (d₂.mapValues (finish upper))).mapValues
    (finish (base.expand.overlay upper.expand))

theorem get?_finishedOver (finish : Component → String → α → α) (f : α → α → α)
    (base upper : Component) (d₁ d₂ : Dict α) (key : String) :
    (finishedOver finish f base upper d₁ d₂).get? key
      = (combine f ((d₁.get? key).map (finish base key)) ((d₂.get? key).map (finish upper key))).map
        (finish (base.expand.overlay upper.expand) key) := by
  rw [finishedOver, Dict.get?_mapValues, Dict.get?_overlay, Dict.get?_mapValues,
    Dict.get?_mapValues]

namespace Finishing

variable {f : α → α → α} {finish : Component → String → α → α} {done : α → Prop}
variable {c p q : Component} {d₁ d₂ : Dict α}

/-- The values of the dictionary are finished. -/
def Done (done : α → Prop) (d : Dict α) : Prop := ∀ key x, d.get? key = some x → done x

theorem mapValues_done (hf : Finishing f finish done) (c : Component) (d : Dict α) :
    Done done (d.mapValues (finish c)) := by
  intro key x hx
  rw [Dict.get?_mapValues] at hx
  obtain ⟨y, -, rfl⟩ := Option.map_eq_some_iff.mp hx
  exact hf.finish_done c key y

theorem dict_overlay_done (hf : Finishing f finish done) (h₁ : Done done d₁) (h₂ : Done done d₂) :
    Done done (d₁.overlay f d₂) := by
  intro key x hx
  rw [Dict.get?_overlay] at hx
  rcases Dict.eq_some_of_combine hx with hbase | hupper | ⟨y, z, hy, hz, rfl⟩
  · exact h₁ key x hbase
  · exact h₂ key x hupper
  · exact hf.overlay_done (h₁ key y hy) (h₂ key z hz)

theorem mapValues_again (hf : Finishing f finish done) (h : c.Covers p) (d : Dict α) :
    (d.mapValues (finish p)).mapValues (finish c) = d.mapValues (finish c) := by
  rw [Dict.mapValues_mapValues]
  exact Dict.mapValues_congr fun key x _ => hf.again h key x

theorem mapValues_overlay (hf : Finishing f finish done) (hp : c.Covers p) (hq : c.Covers q)
    (h₁ : Done done d₁) (h₂ : Done done d₂) :
    ((d₁.mapValues (finish p)).overlay f (d₂.mapValues (finish q))).mapValues (finish c)
      = (d₁.overlay f d₂).mapValues (finish c) := by
  refine Dict.eq_of_get? ?_ fun key => ?_
  · simp only [Dict.keys_mapValues, Dict.keys_overlay]
  · simp only [Dict.get?_mapValues, Dict.get?_overlay]
    cases hx : d₁.get? key with
    | none =>
        cases hy : d₂.get? key with
        | none => rfl
        | some y => exact congrArg some (hf.again hq key y)
    | some x =>
        cases hy : d₂.get? key with
        | none => exact congrArg some (hf.again hp key x)
        | some y => exact congrArg some (hf.overlay hp hq key (h₁ key x hx) (h₂ key y hy))

/-- An inner merge leaves its finishing to the outer one, on the left -/
theorem finishedOver_left (hf : Finishing f finish done) (a b c : Component) (d₁ d₂ d₃ : Dict α) :
    finishedOver finish f (a.merge b) c (finishedOver finish f a b d₁ d₂) d₃
      = (((d₁.mapValues (finish a)).overlay f (d₂.mapValues (finish b))).overlay f
          (d₃.mapValues (finish c))).mapValues
        (finish ((a.merge b).expand.overlay c.expand)) := by
  have hinner := hf.dict_overlay_done (hf.mapValues_done a d₁) (hf.mapValues_done b d₂)
  have hagain : (a.merge b).Covers (a.expand.overlay b.expand) := ⟨id, id⟩
  have houter := hf.mapValues_overlay (Component.covers_base (a.merge b) c)
    (Component.covers_upper (a.merge b) c) hinner (hf.mapValues_done c d₃)
  rw [hf.mapValues_again (.refl c)] at houter
  rw [finishedOver, finishedOver, hf.mapValues_again hagain, houter]

/-- and on the right. -/
theorem finishedOver_right (hf : Finishing f finish done) (a b c : Component)
    (d₁ d₂ d₃ : Dict α) :
    finishedOver finish f a (b.merge c) d₁ (finishedOver finish f b c d₂ d₃)
      = ((d₁.mapValues (finish a)).overlay f ((d₂.mapValues (finish b)).overlay f
          (d₃.mapValues (finish c)))).mapValues
        (finish (a.expand.overlay (b.merge c).expand)) := by
  have hinner := hf.dict_overlay_done (hf.mapValues_done b d₂) (hf.mapValues_done c d₃)
  have hagain : (b.merge c).Covers (b.expand.overlay c.expand) := ⟨id, id⟩
  have houter := hf.mapValues_overlay (Component.covers_base a (b.merge c))
    (Component.covers_upper a (b.merge c)) (hf.mapValues_done a d₁) hinner
  rw [hf.mapValues_again (.refl a)] at houter
  rw [finishedOver, finishedOver, hf.mapValues_again hagain, houter]

theorem finishedOver_assoc (hf : Finishing f finish done) (a b c : Component) (d₁ d₂ d₃ : Dict α)
    (hassoc : ∀ key z, d₃.get? key = some z → ∀ x y,
      f (f x y) (finish c key z) = f x (f y (finish c key z))) :
    finishedOver finish f (a.merge b) c (finishedOver finish f a b d₁ d₂) d₃
      = finishedOver finish f a (b.merge c) d₁ (finishedOver finish f b c d₂ d₃) := by
  have hnames : finish ((a.merge b).expand.overlay c.expand)
      = finish (a.expand.overlay (b.merge c).expand) :=
    hf.names (textOver_assoc ..) (textOver_assoc ..)
  rw [hf.finishedOver_left, hf.finishedOver_right, hnames]
  congr 1
  refine Dict.overlay_assoc fun key x y z _ _ hz => ?_
  rw [Dict.get?_mapValues] at hz
  obtain ⟨w, hw, rfl⟩ := Option.map_eq_some_iff.mp hz
  exact hassoc key w hw x y

end Finishing

/-! ## What components finish -/

/-- Defaults that do not depend on the component are finished by writing them
down. -/
theorem Finishing.of_expand {f : α → α → α} {expand : α → α}
    (hexpand : ∀ x, expand (expand x) = expand x)
    (hoverlay : ∀ {x y}, expand x = x → expand y = y → expand (f x y) = f x y) :
    Finishing f (fun _ _ => expand) fun x => expand x = x where
  finish_done _ _ x := hexpand x
  overlay_done hx hy := hoverlay hx hy
  names _ _ := rfl
  again _ _ x := hexpand x
  overlay _ _ _ _ _ hx hy := by rw [hx, hy]

theorem finishing_parameters : Finishing Parameter.overlay (fun _ _ => Parameter.expand)
    fun p => p.expand = p :=
  .of_expand Parameter.expand_expand Parameter.expand_overlay

theorem finishing_interfaces : Finishing ComponentInterface.overlay
    (fun _ _ => ComponentInterface.expand) fun i => i.expand = i :=
  .of_expand ComponentInterface.expand_expand ComponentInterface.expand_overlay

theorem finishing_resources [Layered X] [LawfulLayered X] :
    Finishing (Resource.overlay (X := X)) (fun c key r => (r.stamp c key).expand)
      fun r => r.expand = r where
  finish_done c key r := Resource.expand_expand _
  overlay_done hx hy := Resource.expand_overlay hx hy
  names {c p} hname htag := by
    funext key r
    rw [Resource.stamp_eq, Resource.stamp_eq, Identity.stamped, Identity.stamped,
      Component.resourceRef, Component.resourceRef, hname, htag]
  again h key r := by
    rw [← Resource.expand_stamp, Resource.stamp_stamp h, Resource.expand_expand]
  overlay {c p q} hp hq key {x y} hx hy := by
    rw [Resource.expand_stamp p, Resource.expand_stamp q, hx, hy, Resource.stamp_overlay hp hq]

/-! ## Components -/

/-- Each probe of the service and of its debug block goes one way. -/
def Resource.ProbesExclusive (r : Service) : Prop :=
  r.body.extension.Exclusive ∧ ∀ debug, r.debug = some debug → debug.body.extension.Exclusive

theorem Resource.ProbesExclusive.uppermost {r : Service} (h : r.ProbesExclusive) (c : Component)
    (key : String) : (r.stamp c key).expand.Each Uppermost := by
  obtain ⟨body, debug⟩ := r
  have hbody : Uppermost (Layered.expand body.extension) := h.1.expand.uppermost
  cases debug with
  | none => exact hbody
  | some debug => exact ⟨hbody, (h.2 debug rfl).expand.uppermost⟩

theorem Resource.each_uppermost_task : ∀ r : Task, r.Each Uppermost
  | ⟨body, none⟩ => body.extension.uppermost
  | ⟨body, some debug⟩ => ⟨body.extension.uppermost, each_uppermost_task debug⟩

namespace Component

/-- Each probe of a service or its debug block goes one way, as validation asks. -/
def ProbesExclusive (c : Component) : Prop :=
  ∀ key r, c.services.get? key = some r → r.ProbesExclusive

theorem ref_congr {c p : Component} (hname : c.name = p.name) (htag : c.tag = p.tag)
    (hinstance : c.instanceName = p.instanceName) : c.ref = p.ref := by
  rw [ref, ref, hname, htag, hinstance]

/-- Without any name there is nothing to derive a ref from. -/
theorem reference_merge_of_isEmpty {base upper : Component} (hbase : base.name.isEmpty)
    (hupper : upper.name.isEmpty) :
    (base.merge upper).reference = textOver base.reference upper.reference := by
  have hempty : (textOver base.name upper.name).isEmpty := textOver_eq_empty.mpr ⟨hbase, hupper⟩
  have hlower : base.expand.reference = base.reference := if_pos hbase
  have hover : upper.expand.reference = upper.reference := if_pos hupper
  calc (base.merge upper).reference
      = textOver base.expand.reference upper.expand.reference := if_pos hempty
    _ = textOver base.reference upper.reference := by rw [hlower, hover]

theorem reference_merge_merge (a b c : Component) :
    ((a.merge b).merge c).reference = (a.merge (b.merge c)).reference := by
  by_cases hempty : (textOver (textOver a.name b.name) c.name).isEmpty
  · obtain ⟨hinner, hc⟩ := textOver_eq_empty.mp hempty
    obtain ⟨ha, hb⟩ := textOver_eq_empty.mp hinner
    have hright : (b.merge c).name.isEmpty := textOver_eq_empty.mpr ⟨hb, hc⟩
    rw [reference_merge_of_isEmpty hinner hc, reference_merge_of_isEmpty ha hb,
      reference_merge_of_isEmpty ha hright, reference_merge_of_isEmpty hb hc, textOver_assoc]
  · have hempty' : ¬ (textOver a.name (textOver b.name c.name)).isEmpty := by
      rwa [← textOver_assoc]
    calc ((a.merge b).merge c).reference
        = ((a.merge b).expand.overlay c.expand).ref := if_neg hempty
      _ = (a.expand.overlay (b.merge c).expand).ref :=
          ref_congr (textOver_assoc ..) (textOver_assoc ..) (valueOver_assoc ..)
      _ = (a.merge (b.merge c)).reference := (if_neg hempty').symm

/-- Layers may be grouped at will, as long as each probe of the uppermost one
goes one way. -/
theorem merge_merge (a b : Component) {c : Component} (hc : c.ProbesExclusive) :
    (a.merge b).merge c = a.merge (b.merge c) := by
  have hparameters := finishing_parameters.finishedOver_assoc a b c
    a.parameters b.parameters c.parameters
    fun _ z _ x y => Parameter.overlay_assoc x y z.expand
  have hservices := finishing_resources.finishedOver_assoc a b c
    a.services b.services c.services
    fun key r hr x y => Resource.overlay_assoc x y ((hc key r hr).uppermost c key)
  have htasks := finishing_resources.finishedOver_assoc a b c
    a.tasks b.tasks c.tasks
    fun _ _ _ x y => Resource.overlay_assoc x y (Resource.each_uppermost_task _)
  have hinterfaces := finishing_interfaces.finishedOver_assoc a b c
    a.interfaces b.interfaces c.interfaces
    fun _ z _ x y => ComponentInterface.overlay_assoc x y z.expand
  show Component.mk .. = Component.mk ..
  rw [mk.injEq]
  exact ⟨textOver_assoc .., textOver_assoc .., reference_merge_merge a b c, valueOver_assoc ..,
    valueOver_assoc .., valueOver_assoc .., valueOver_assoc .., valueOver_assoc ..,
    valueOver_assoc .., listOver_assoc .., valueOver_assoc .., valueOver_assoc ..,
    hparameters, hservices, htasks, textsOver_assoc .., hinterfaces⟩

/-! ### Three layers with probes of both kinds -/

def apiOver (image : Option String) (probe debug : Probe) : Component where
  services := .ofList
    [("api",
      { body := { identity := ⟨"", "", ""⟩, image, extension := { probe } }
        debug := some
          { body := { identity := ⟨"", "", ""⟩, extension := { probe := debug } }, debug := none } })]

/-- The shop as its developer has it. -/
def shopProbed : Component :=
  { apiOver "api:1" { timeout := "9s", path := "/", port := "80" } { command := some ["ping"] } with
    name := "acme/shop" }

def stagingProbed : Component :=
  { apiOver none { command := some ["check"] } { path := "/debug", port := "81" } with
    tag := "staging" }

def productionProbed : Component :=
  apiOver none { path := "/health", port := "8080" } { command := some ["true"] }

theorem probesExclusive_production : productionProbed.ProbesExclusive := by
  intro key r hr
  obtain ⟨-, rfl⟩ := Prod.mk.inj (List.mem_singleton.mp (Dict.get?_eq_some_iff.mp hr))
  refine ⟨fun p hp => ?_, fun debug hdebug p hp => ?_⟩
  · obtain rfl := Option.some.inj hp
    exact .request rfl rfl rfl
  · obtain rfl := Option.some.inj hdebug
    obtain rfl := Option.some.inj hp
    exact .command rfl rfl rfl

/-- The uppermost probe sends requests again, and its defaults hide the time of
the lowest. The names are those of the merged component. -/
theorem merge_merge_probed :
    (shopProbed.merge stagingProbed).merge productionProbed
        = shopProbed.merge (stagingProbed.merge productionProbed)
      ∧ ((shopProbed.merge stagingProbed).merge productionProbed).services.get? "api"
        = some
          { body :=
              { identity := ⟨"api", "acme/shop/api:staging", "staging"⟩
                image := "api:1"
                extension :=
                  { probe := some (Probe.filled { path := "/health", port := "8080" }) } }
            debug := some
              { body :=
                  { identity := ⟨"api", "acme/shop/api:staging", "staging"⟩
                    build := some .implicit
                    extension := { probe := some (Probe.filled { command := some ["true"] }) } }
                debug := none } } :=
  ⟨merge_merge shopProbed stagingProbed probesExclusive_production, rfl⟩

end Component

end Manifest.Config
