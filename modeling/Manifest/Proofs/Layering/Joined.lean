import Manifest.Proofs.Layering.Frame
/-!
# A merge joins dictionaries

Whatever the layers hold, no entry of a merge is lost, doubled or moved
(`Component.joined_merge`). Each dictionary has the keys of the lower layer in
their order and then the new ones of the upper layer in theirs, also inside of
the resources and debug blocks that both layers have. An entry of one layer alone
is there as that layer expands it, and a resource only gets the names that it
has in the merged component.
-/

namespace Manifest

namespace Dict

variable {α : Type}

/-- The keys of the lower layer come first, then the new ones of the upper,
both in their order. -/
def KeysJoined (base upper merged : Dict α) : Prop :=
  merged.keys = base.keys ++ upper.keys.filter (· ∉ base.keys)

/-- What only one layer has is there as it is. -/
structure Joined (base upper merged : Dict α) : Prop where
  keys : KeysJoined base upper merged
  of_base : ∀ key, upper.get? key = none → merged.get? key = base.get? key
  of_upper : ∀ key, base.get? key = none → merged.get? key = upper.get? key

/-- Each text is that of the upper layer if it has the key. -/
structure TextsJoined (base upper merged : Dict String) : Prop where
  keys : KeysJoined base upper merged
  values : ∀ key, merged.get? key = (upper.get? key).or (base.get? key)

theorem joined_overlay (f : α → α → α) (base upper : Dict α) :
    base.Joined upper (base.overlay f upper) where
  keys := keys_overlay f base upper
  of_base key h := by rw [get?_overlay, h, combine_none]
  of_upper key h := by rw [get?_overlay, h, none_combine]

end Dict

namespace Config

variable {α X : Type}

theorem textsJoined_textsOver (base upper : Dict String) :
    base.TextsJoined upper (textsOver base upper) where
  keys := Dict.keys_overlay _ base upper
  values key := by
    rw [textsOver, Dict.get?_overlay]
    cases base.get? key <;> cases upper.get? key <;> rfl

/-! ## Blocks of both layers -/

def ServiceExtension.Joined (base upper merged : ServiceExtension) : Prop :=
  base.interfaces.Joined upper.interfaces merged.interfaces

structure Body.Joined (x : X → X → X → Prop) (base upper merged : Body X) : Prop where
  environment : base.environment.TextsJoined upper.environment merged.environment
  volumes : base.volumes.Joined upper.volumes merged.volumes
  labels : base.labels.TextsJoined upper.labels merged.labels
  extension : x base.extension upper.extension merged.extension

structure Resource.Joined (x : X → X → X → Prop) (base upper merged : Resource X) : Prop where
  body : base.body.Joined x upper.body merged.body
  debug : Nested (fun b u m => b.body.Joined x u.body m.body) base.debug upper.debug merged.debug

/-- What two extensions come to in a merge is joined. -/
def JoinedLayered [Layered X] (x : X → X → X → Prop) : Prop :=
  ∀ b u : X, x b u (Layered.expand (Layered.overlay (Layered.expand b) (Layered.expand u)))

theorem joinedLayered_service : JoinedLayered ServiceExtension.Joined := fun b u =>
  Dict.joined_overlay Interface.overlay b.interfaces u.interfaces

theorem joinedLayered_task : JoinedLayered fun _ _ _ : TaskExtension => True :=
  fun _ _ => trivial

section Resources

variable [Layered X] {x : X → X → X → Prop}

/-- Names, defaults and the extension aside, a body is its own in a merge. -/
theorem Body.joined_overlay (hx : JoinedLayered x) (i j k : Identity) (b u : Body X) :
    b.Joined x u
      { { b with identity := i }.expand.overlay { u with identity := j }.expand with
        identity := k }.expand where
  environment := textsJoined_textsOver b.environment u.environment
  volumes := Dict.joined_overlay Volume.overlay b.volumes u.volumes
  labels := textsJoined_textsOver b.labels u.labels
  extension := hx b.extension u.extension

theorem Resource.joined_overlay (hx : JoinedLayered x) (c base upper : Component) (key : String)
    (b u : Resource X) :
    b.Joined x u
      (((b.stamp base key).expand.overlay (u.stamp upper key).expand).stamp c key).expand where
  body := by
    rw [overlay_eq]
    exact Body.joined_overlay hx _ _ _ b.body u.body
  debug := by
    rw [overlay_eq]
    obtain ⟨bBody, bDebug⟩ := b
    obtain ⟨uBody, uDebug⟩ := u
    rintro bDebug uDebug rfl rfl
    refine ⟨_, rfl, ?_⟩
    dsimp only
    rw [overlay_body]
    exact Body.joined_overlay hx _ _ _ bDebug.body uDebug.body

end Resources

/-! ## Entries of a component -/

/-- A dictionary of a merge has the keys of both layers. An entry of one layer
alone is there as the expanded layer has it, but for what the merge writes into
it. -/
structure Component.JoinedAt (dict : Component → Dict α) (written : String → α → α)
    (base upper merged : Component) : Prop where
  keys : (dict base).KeysJoined (dict upper) (dict merged)
  of_base : ∀ key ∈ (dict base).keys, key ∉ (dict upper).keys →
    (dict merged).get? key = ((dict base.expand).get? key).map (written key)
  of_upper : ∀ key ∈ (dict upper).keys, key ∉ (dict base).keys →
    (dict merged).get? key = ((dict upper.expand).get? key).map (written key)

namespace Finishing

variable {f : α → α → α} {finish : Component → String → α → α} {done : α → Prop}

/-- What the merge writes is all that finishing a finished value does. -/
theorem joinedAt (hf : Finishing f finish done) {dict : Component → Dict α}
    {written : String → α → α} {base upper : Component}
    (hexpand : ∀ c : Component, dict c.expand = (dict c).mapValues (finish c))
    (hmerge : dict (base.merge upper) = finishedOver finish f base upper (dict base) (dict upper))
    (hwritten : ∀ key x, done x →
      finish (base.expand.overlay upper.expand) key x = written key x) :
    Component.JoinedAt dict written base upper (base.merge upper) := by
  have hagain (c : Component) (key : String) (given : Option α) :
      (given.map (finish c key)).map (finish (base.expand.overlay upper.expand) key)
        = (given.map (finish c key)).map (written key) := by
    cases given with
    | none => rfl
    | some x => exact congrArg some (hwritten key _ (hf.finish_done c key x))
  constructor
  · rw [Dict.KeysJoined, hmerge, finishedOver, Dict.keys_mapValues, Dict.keys_overlay,
      Dict.keys_mapValues, Dict.keys_mapValues]
  · intro key _ hupper
    rw [hmerge, get?_finishedOver, Dict.get?_eq_none_iff.mpr hupper, Option.map_none,
      Dict.combine_none, hagain, hexpand, Dict.get?_mapValues]
  · intro key _ hbase
    rw [hmerge, get?_finishedOver, Dict.get?_eq_none_iff.mpr hbase, Option.map_none,
      Dict.none_combine, hagain, hexpand, Dict.get?_mapValues]

end Finishing

/-- Entries of both layers, each finished before their overlay is. -/
theorem nested_finishedOver {r : α → α → α → Prop} {f : α → α → α}
    (finish : Component → String → α → α) (base upper : Component)
    (h : ∀ key b u, r b u
      (finish (base.expand.overlay upper.expand) key
        (f (finish base key b) (finish upper key u))))
    (d₁ d₂ : Dict α) : d₁.Framed r d₂ (finishedOver finish f base upper d₁ d₂) := by
  intro key b u hb hu
  rw [get?_finishedOver, hb, hu]
  exact ⟨_, rfl, h key b u⟩

/-- A resource under the names that it has at a key of a component. -/
def Resource.restamped (c : Component) (key : String) (r : Resource X) : Resource X :=
  r.renamed (r.body.identity.stamped c key)

/-- Once expanded, a resource gets only names from a merge. -/
theorem Resource.expand_restamped [Layered X] (base upper : Component) (key : String)
    {r : Resource X} (h : r.expand = r) :
    (r.stamp (base.expand.overlay upper.expand) key).expand
      = r.restamped (base.merge upper) key := by
  rw [expand_stamp, h]
  rfl

/-- Each dictionary of the merge is joined, and those of the blocks that both
layers have. Tasks have no dictionaries of their own. -/
structure Component.Joined (base upper merged : Component) : Prop where
  parameters : JoinedAt Component.parameters (fun _ p => p) base upper merged
  services : JoinedAt Component.services (Resource.restamped merged) base upper merged
  tasks : JoinedAt Component.tasks (Resource.restamped merged) base upper merged
  interfaces : JoinedAt Component.interfaces (fun _ i => i) base upper merged
  dependencies : base.dependencies.TextsJoined upper.dependencies merged.dependencies
  serviceParts : base.services.Framed (Resource.Joined ServiceExtension.Joined) upper.services
    merged.services
  taskParts : base.tasks.Framed (Resource.Joined fun _ _ _ => True) upper.tasks merged.tasks

/-- Whatever the layers are, their merge joins them: dictionaries have the keys
of the lower layer and then the new ones of the upper, at the top and in the
blocks that both layers have. Texts are those of the upper layer where it has
the key. Any other entry of one layer alone is as that layer expands it, and the
name, the ref and the tag of a resource and of its debug block are those that
it has in the merged component. -/
theorem Component.joined_merge (base upper : Component) : base.Joined upper (base.merge upper) where
  parameters := finishing_parameters.joinedAt (fun _ => rfl) rfl fun _ _ h => h
  services := finishing_resources.joinedAt (fun _ => rfl) rfl
    fun key _ h => Resource.expand_restamped base upper key h
  tasks := finishing_resources.joinedAt (fun _ => rfl) rfl
    fun key _ h => Resource.expand_restamped base upper key h
  interfaces := finishing_interfaces.joinedAt (fun _ => rfl) rfl fun _ _ h => h
  dependencies := textsJoined_textsOver base.dependencies upper.dependencies
  serviceParts := nested_finishedOver (fun c key s => (s.stamp c key).expand) base upper
    (fun key b u => Resource.joined_overlay joinedLayered_service _ base upper key b u)
    base.services upper.services
  taskParts := nested_finishedOver (fun c key t => (t.stamp c key).expand) base upper
    (fun key b u => Resource.joined_overlay joinedLayered_task _ base upper key b u)
    base.tasks upper.tasks

end Config

end Manifest
