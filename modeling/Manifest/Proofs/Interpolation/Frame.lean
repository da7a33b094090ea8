import Manifest.Interpolation.Component
import Manifest.Proofs.Config.Equality
import Manifest.Proofs.Config.Rewriting
import Manifest.Proofs.Interpolation.Memo
import Manifest.Proofs.Scalar
/-!
# Interpolation rewrites texts with expressions

Rendering walks through a value and replaces the texts in which an expression
opens, each by its rendering after the texts before it. Nothing else changes,
so that the rendered JSON of a config is read again, as the config with the
rendered texts.
-/

namespace Manifest.Interpolation

open Json (Rewritten ItemsRewritten MembersRewritten)
open Template (written)

variable {s : Scope} {before texts : List String}

/-! ## One text after others -/

/-- What is remembered after rendering some texts in their order. -/
def Scope.memoAfter (s : Scope) (texts : List String) : Memo :=
  texts.foldl (fun memo text => ((s.render text).run memo).2) []

/-- The rendering of a text after others. -/
def Scope.renderAfter (s : Scope) (before : List String) (text : String) : Rendering :=
  ((s.render text).run (s.memoAfter before)).1

theorem memoAfter_concat (s : Scope) (before : List String) (text : String) :
    s.memoAfter (before ++ [text]) = ((s.render text).run (s.memoAfter before)).2 := by
  rw [Scope.memoAfter, List.foldl_append]
  rfl

/-- A text in which nothing opens stays as it is, and nothing is remembered. -/
theorem render_of_unopened {text : String} (h : s.delimiters.opensIn text = false) (memo : Memo) :
    (s.render text).run memo = (⟨text, []⟩, memo) := by
  obtain ⟨segments, hread, hnone, -⟩ := Template.read_of_unopened h
  have hfinds : Finds (· = memo) (fun _ => none) (s.evaluate s.fuel [])
      (written s.delimiters text) := by
    rw [Template.written_of_read hread, hnone]
    exact fun _ he => absurd he List.not_mem_nil
  obtain ⟨htext, hfaults, hmemo⟩ := renderWith_run hfinds rfl
  rw [replaced_of_unopened h] at htext
  rw [reported_of_unopened h, List.map_eq_nil_iff] at hfaults
  exact Prod.ext (congrArg₂ Rendering.mk htext hfaults) hmemo

/-- What rendering each of the texts keeps holds after all of them. -/
theorem memoAfter_kept {kind : Memo → Prop} (hnil : kind [])
    (h : ∀ text ∈ before, ∀ memo, kind memo → kind ((s.render text).run memo).2) :
    kind (s.memoAfter before) := by
  induction before using List.reverseRecOn with
  | nil => exact hnil
  | append_singleton before last ih =>
      rw [memoAfter_concat]
      refine h last (List.mem_append_right _ (List.mem_singleton_self last)) _ (ih ?_)
      exact fun text htext => h text (List.mem_append_left _ htext)

theorem memoAfter_sound {tree : Json}
    (hpaths : ToldApart
      (writtenPaths s.delimiters tree ++ writtenPaths s.delimiters s.context.toJson))
    (hbefore : before ⊆ tree.texts) :
    MemoSound s (writtenPaths s.delimiters tree ++ writtenPaths s.delimiters s.context.toJson)
      (s.memoAfter before) := by
  refine memoAfter_kept (.nil s _) fun text htext memo hmemo => ?_
  exact (renderWith_run (finds_value hpaths (hbefore htext)) hmemo).2.2

/-- After other texts of a value, a text is rendered as the reference says,
provided that the paths are told apart. -/
theorem renderAfter_eq_reference {tree : Json} {text : String}
    (hpaths : ToldApart
      (writtenPaths s.delimiters tree ++ writtenPaths s.delimiters s.context.toJson))
    (hbefore : before ⊆ tree.texts) (htext : text ∈ tree.texts) :
    (s.renderAfter before text).text = replaced s.value s.delimiters text
      ∧ (s.renderAfter before text).faults.map Prod.fst = reported s.value s.delimiters text := by
  obtain ⟨hreplaced, hreported, -⟩ :=
    renderWith_run (finds_value hpaths htext) (memoAfter_sound hpaths hbefore)
  exact ⟨hreplaced, hreported⟩

/-! ## Texts in a row -/

/-- The property holds of each of the texts and its rendering after those
before it. -/
def EachRendered (s : Scope) (before texts : List String) (p : String → Rendering → Prop) : Prop :=
  ∀ mid text after, texts = mid ++ text :: after → p text (s.renderAfter (before ++ mid) text)

variable {p : String → Rendering → Prop}

theorem eachRendered_nil : EachRendered s before [] p := by
  intro mid text after hsplit
  exact absurd hsplit (List.append_ne_nil_of_right_ne_nil mid (List.cons_ne_nil text after)).symm

theorem eachRendered_singleton {text : String} :
    EachRendered s before [text] p ↔ p text (s.renderAfter before text) := by
  constructor
  · intro h
    have hfirst := h [] text [] rfl
    rwa [List.append_nil] at hfirst
  · intro h mid other after hsplit
    rcases List.singleton_eq_append_iff.mp hsplit with ⟨rfl, hcons⟩ | ⟨-, hnil⟩
    · obtain ⟨rfl, -⟩ := List.cons.inj hcons
      rwa [List.append_nil]
    · cases hnil

theorem eachRendered_append {more : List String} :
    EachRendered s before (texts ++ more) p
      ↔ EachRendered s before texts p ∧ EachRendered s (before ++ texts) more p := by
  constructor
  · intro h
    constructor
    · rintro mid text after rfl
      exact h mid text (after ++ more) (by rw [List.append_assoc, List.cons_append])
    · rintro mid text after rfl
      rw [List.append_assoc]
      exact h (texts ++ mid) text after (by rw [List.append_assoc])
  · rintro ⟨hfirst, hmore⟩ mid text after hsplit
    rcases List.append_eq_append_iff.mp hsplit with ⟨later, rfl, hlater⟩ | ⟨here, hhere, hcons⟩
    · have hp := hmore later text after hlater
      rwa [List.append_assoc] at hp
    · rcases List.cons_eq_append_iff.mp hcons with ⟨rfl, hcons⟩ | ⟨rest, rfl, -⟩
      · rw [List.append_nil] at hhere
        have hp := hmore [] text after hcons.symm
        rwa [List.append_nil, hhere] at hp
      · exact hfirst mid text rest hhere

/-! ## Whole values -/

/-- A run over some texts, after others: it leaves the memo of all of them, it
reports nothing exactly if no rendering has a fault, and its result is
related as the texts are to their renderings. -/
structure Walked {α : Type} (s : Scope) (before texts : List String)
    (related : (String → String → Prop) → α → Prop) (run : (α × List Diagnostic) × Memo) :
    Prop where
  memo : run.2 = s.memoAfter (before ++ texts)
  faultless : run.1.2 = [] ↔ EachRendered s before texts fun _ r => r.faults = []
  result : ∀ R, (EachRendered s before texts fun text r => R text r.text) → related R run.1.1

theorem walked_plain {tree : Json} (htexts : tree.texts = [])
    (hself : ∀ R, Rewritten R tree tree) :
    Walked s before tree.texts (Rewritten · tree) ((tree, []), s.memoAfter before) where
  memo := by rw [htexts, List.append_nil]
  faultless := by
    rw [htexts]
    exact iff_of_true rfl eachRendered_nil
  result := fun R _ => hself R

theorem walked_text (path text : String) :
    Walked s before [text] (Rewritten · (.string text))
      ((s.renderValue path (.string text)).run (s.memoAfter before)) := by
  cases hopens : s.delimiters.opensIn text with
  | false =>
      have hrender := render_of_unopened hopens (s.memoAfter before)
      simp only [Scope.renderValue, hopens]
      constructor
      · rw [memoAfter_concat, hrender]
        rfl
      · rw [eachRendered_singleton, Scope.renderAfter, hrender]
        exact iff_of_true rfl rfl
      · intro R h
        rw [eachRendered_singleton, Scope.renderAfter, hrender] at h
        exact .string h
  | true =>
      simp only [Scope.renderValue, Scope.renderAt, hopens]
      constructor
      · rw [memoAfter_concat]
        rfl
      · rw [eachRendered_singleton]
        exact List.map_eq_nil_iff
      · intro R h
        rw [eachRendered_singleton] at h
        exact .string h

mutual

theorem walked_renderValue : ∀ (path : String) (tree : Json) (before : List String),
    Walked s before tree.texts (Rewritten · tree)
      ((s.renderValue path tree).run (s.memoAfter before))
  | path, .string text, before => walked_text path text
  | path, .array items, before => by
      have hitems := walked_renderItems path 0 items before
      exact ⟨hitems.memo, hitems.faultless, fun R h => .array (hitems.result R h)⟩
  | path, .object members, before => by
      have hmembers := walked_renderMembers path members before
      exact ⟨hmembers.memo, hmembers.faultless, fun R h => .object (hmembers.result R h)⟩
  | _, .null, _ => walked_plain rfl fun _ => .null
  | _, .bool b, _ => walked_plain rfl fun _ => .bool b
  | _, .int i, _ => walked_plain rfl fun _ => .int i
  | _, .float f, _ => walked_plain rfl fun _ => .float f

theorem walked_renderItems : ∀ (path : String) (index : Nat) (items : List Json)
    (before : List String), Walked s before (Json.itemTexts items) (ItemsRewritten · items)
      ((s.renderItems path index items).run (s.memoAfter before))
  | _, _, [], before => {
      memo := by
        rw [Json.itemTexts, List.append_nil]
        rfl
      faultless := iff_of_true rfl eachRendered_nil
      result := fun _ _ => .nil }
  | path, index, item :: rest, before => by
      have hitem := walked_renderValue (PropertyPath.item path index) item before
      have hrest := walked_renderItems path (index + 1) rest (before ++ item.texts)
      rw [← hitem.memo] at hrest
      refine ⟨?_, ?_, fun R h => ?_⟩
      · rw [Json.itemTexts, ← List.append_assoc]
        exact hrest.memo
      · rw [Json.itemTexts, eachRendered_append, ← hitem.faultless, ← hrest.faultless]
        exact List.append_eq_nil_iff
      · obtain ⟨hfirst, hmore⟩ := eachRendered_append.mp h
        exact .cons (hitem.result R hfirst) (hrest.result R hmore)

theorem walked_renderMembers : ∀ (path : String) (members : Json.Members) (before : List String),
    Walked s before (Json.memberTexts members) (MembersRewritten · members)
      ((s.renderMembers path members).run (s.memoAfter before))
  | _, [], before => {
      memo := by
        rw [Json.memberTexts, List.append_nil]
        rfl
      faultless := iff_of_true rfl eachRendered_nil
      result := fun _ _ => .nil }
  | path, (k, v) :: rest, before => by
      have hvalue := walked_renderValue (PropertyPath.join path k) v before
      have hrest := walked_renderMembers path rest (before ++ v.texts)
      rw [← hvalue.memo] at hrest
      refine ⟨?_, ?_, fun R h => ?_⟩
      · rw [Json.memberTexts, ← List.append_assoc]
        exact hrest.memo
      · rw [Json.memberTexts, eachRendered_append, ← hvalue.faultless, ← hrest.faultless]
        exact List.append_eq_nil_iff
      · obtain ⟨hfirst, hmore⟩ := eachRendered_append.mp h
        exact .cons k (hvalue.result R hfirst) (hrest.result R hmore)

end

/-! ## Configs -/

variable {c c' : Config.Component} {R : String → String → Prop}

/-- The walk through a config, as it is rendered. -/
def Scope.walk (s : Scope) (c : Config.Component) : (Json × List Diagnostic) × Memo :=
  (s.renderValue "" c.toJson.sorted).run []

theorem walked_config (s : Scope) (c : Config.Component) :
    Walked s [] c.toJson.sorted.texts (Rewritten · c.toJson.sorted) (s.walk c) :=
  walked_renderValue "" c.toJson.sorted []

theorem interpolate_eq (h : Config.Reader.component? (s.walk c).1.1 = some c') :
    interpolate s c = unlessInvalid (s.walk c).1.2 c' := by
  unfold Scope.walk at h ⊢
  unfold interpolate renderComponent
  generalize (s.renderValue "" c.toJson.sorted).run [] = run at h ⊢
  obtain ⟨⟨rendered, problems⟩, memo⟩ := run
  simp only [h]
  rfl

/-- The renderings in a config are related to its texts, and a text in which
nothing opens is related to itself only. -/
structure Keeps (s : Scope) (c : Config.Component) (R : String → String → Prop) : Prop where
  texts : EachRendered s [] c.toJson.sorted.texts fun text r => R text r.text
  unchanged : ∀ {old new}, R old new → s.delimiters.opensIn old = false → new = old

/-- The rendered JSON is read as the config with the rendered texts. -/
theorem exists_read (hdelimiters : s.delimiters = {}) (hstorable : c.Storable)
    (hdate : ∀ t, c.instanceDate = some t → Instant.read? t.text = some t) (h : Keeps s c R) :
    ∃ c', Config.Reader.component? (s.walk c).1.1 = some c' ∧ c.Rewritten R c' := by
  refine Config.Reader.survives_component hstorable (fun t ht new hnew => ?_) _
    ((walked_config s c).result R h.texts)
  -- No expression opens in a date, and so it is read as it was written.
  have hunopened : s.delimiters.opensIn t.text = false := by
    rw [hdelimiters]
    exact (Undollared.instant t).opensIn
  rw [h.unchanged hnew hunopened]
  exact hdate t ht

/-- How the text becomes another one: it stays as it is, or an expression
opens in it and it is rendered without a fault, after the texts before it. -/
structure Scope.Replaces (s : Scope) (texts : List String) (old new : String) : Prop where
  unchanged : s.delimiters.opensIn old = false → new = old
  rendered : ∃ before after, texts = before ++ old :: after
    ∧ s.renderAfter before old = { text := new, faults := [] }

theorem renderAfter_of_unopened {text : String} (h : s.delimiters.opensIn text = false)
    (before : List String) : s.renderAfter before text = ⟨text, []⟩ := by
  rw [Scope.renderAfter, render_of_unopened h]

theorem keeps_unopened (s : Scope) (c : Config.Component) :
    Keeps s c fun old new => s.delimiters.opensIn old = false → new = old where
  texts := by
    intro mid text after _ hopens
    rw [renderAfter_of_unopened hopens]
  unchanged := fun h => h

theorem keeps_replaces (h : (s.walk c).1.2 = []) :
    Keeps s c (s.Replaces c.toJson.sorted.texts) where
  texts := by
    intro mid text after hsplit
    have hfaults := (walked_config s c).faultless.mp h mid text after hsplit
    refine ⟨fun hopens => ?_, mid, after, hsplit, ?_⟩
    · rw [renderAfter_of_unopened hopens]
    · exact congrArg (Rendering.mk _) hfaults
  unchanged := fun h => h.unchanged

theorem eachRendered_of_unopened (h : ∀ text ∈ c.toJson.texts, s.delimiters.opensIn text = false) :
    EachRendered s [] c.toJson.sorted.texts fun text r => r = ⟨text, []⟩ := by
  intro mid text after hsplit
  have hmem : text ∈ c.toJson.sorted.texts :=
    hsplit ▸ List.mem_append_right mid (List.mem_cons_self ..)
  exact renderAfter_of_unopened (h text (Json.texts_sorted_subset c.toJson hmem)) _

theorem keeps_eq (h : ∀ text ∈ c.toJson.texts, s.delimiters.opensIn text = false) :
    Keeps s c Eq where
  texts := by
    intro mid text after hsplit
    rw [eachRendered_of_unopened h mid text after hsplit]
  unchanged := fun h _ => h.symm

theorem walk_faultless (h : ∀ text ∈ c.toJson.texts, s.delimiters.opensIn text = false) :
    (s.walk c).1.2 = [] := by
  refine (walked_config s c).faultless.mpr fun mid text after hsplit => ?_
  rw [eachRendered_of_unopened h mid text after hsplit]

theorem keeps_reference (hpaths : ToldApart (writtenPaths s.delimiters c.toJson.sorted
      ++ writtenPaths s.delimiters s.context.toJson)) :
    Keeps s c fun old new => new = replaced s.value s.delimiters old where
  texts := by
    intro mid text after hsplit
    have hbefore : mid ⊆ c.toJson.sorted.texts := by
      rw [hsplit]
      exact List.subset_append_left mid (text :: after)
    have htext : text ∈ c.toJson.sorted.texts :=
      hsplit ▸ List.mem_append_right mid (List.mem_cons_self ..)
    exact (renderAfter_eq_reference hpaths hbefore htext).1
  unchanged := fun h hopens => h.trans (replaced_of_unopened hopens)

theorem rewritten_of_interpolate (hdelimiters : s.delimiters = {}) (hstorable : c.Storable)
    (hdate : ∀ t, c.instanceDate = some t → Instant.read? t.text = some t)
    (hok : interpolate s c = .ok c') (h : (s.walk c).1.2 = [] → Keeps s c R) :
    c.Rewritten R c' := by
  obtain ⟨read, hread, -⟩ := exists_read hdelimiters hstorable hdate (keeps_unopened s c)
  obtain ⟨hproblems, rfl⟩ := eq_of_unlessInvalid ((interpolate_eq hread).symm.trans hok)
  obtain ⟨read', hread', hrewritten⟩ := exists_read hdelimiters hstorable hdate (h hproblems)
  obtain rfl : read = read' := Option.some.inj (hread.symm.trans hread')
  exact hrewritten

/-- Where paths are told apart, each text is replaced as the reference says,
wherever it stands. -/
theorem rewritten_replaced (hdelimiters : s.delimiters = {}) (hstorable : c.Storable)
    (hdate : ∀ t, c.instanceDate = some t → Instant.read? t.text = some t)
    (hpaths : ToldApart (writtenPaths s.delimiters c.toJson.sorted
      ++ writtenPaths s.delimiters s.context.toJson))
    (hok : interpolate s c = .ok c') :
    c.Rewritten (fun old new => new = replaced s.value s.delimiters old) c' :=
  rewritten_of_interpolate hdelimiters hstorable hdate hok fun _ => keeps_reference hpaths

/-- Interpolating never fails because of the JSON in between. A config that it
gives is the config with the texts rendered in which an expression opens, so
that its commands have the same numbers of arguments whatever the context;
where no expression opens at all, it is the same config. -/
theorem interpolate_frame (s : Scope) (c : Config.Component) (hdelimiters : s.delimiters = {})
    (hstorable : c.Storable)
    (hdate : ∀ t, c.instanceDate = some t → Instant.read? t.text = some t) :
    interpolate s c ≠ .error .malformedData
    ∧ (∀ c', interpolate s c = .ok c' →
        c.Rewritten (s.Replaces c.toJson.sorted.texts) c'
        ∧ (∀ key, (c'.services.get? key).map Config.Service.argumentCounts
            = (c.services.get? key).map Config.Service.argumentCounts)
        ∧ ∀ key, (c'.tasks.get? key).map Config.Task.argumentCounts
            = (c.tasks.get? key).map Config.Task.argumentCounts)
    ∧ ((∀ text ∈ c.toJson.texts, s.delimiters.opensIn text = false) →
        ∃ c', interpolate s c = .ok c' ∧ c.Rewritten Eq c' ∧ c.same c' = true) := by
  refine ⟨?_, fun c' hc' => ?_, fun hunopened => ?_⟩
  · obtain ⟨read, hread, -⟩ := exists_read hdelimiters hstorable hdate (keeps_unopened s c)
    rw [interpolate_eq hread, unlessInvalid]
    split <;> simp
  · have hrewritten :=
      rewritten_of_interpolate hdelimiters hstorable hdate hc' keeps_replaces
    exact ⟨hrewritten,
      fun key => map_eq_of_rel (hrewritten.services.values key)
        Config.Service.Rewritten.argumentCounts,
      fun key => map_eq_of_rel (hrewritten.tasks.values key)
        Config.Task.Rewritten.argumentCounts⟩
  · obtain ⟨read, hread, hrewritten⟩ :=
      exists_read hdelimiters hstorable hdate (keeps_eq hunopened)
    refine ⟨read, ?_, hrewritten, hrewritten.same hstorable⟩
    rw [interpolate_eq hread, walk_faultless hunopened]
    rfl

/-- A config with what JSON could lose: a date, a default that is null, numbers
and an argument with an expression. -/
def datedConfig : Config.Component where
  name := "acme/web"
  tag := "latest"
  reference := "acme/web:latest"
  instanceDate := some ⟨86400, 500000000⟩
  parameters := .ofList
    [("region", { default := some none }),
      ("ratio", { default := some (some (.float (.finite false (pow2 52) (-53)))) }),
      ("limit", { default := some (some (.int 3)) })]
  services := .ofList
    [("api",
      { body := {
          identity := { name := "web--api", reference := "web--api", tag := "latest" }
          command := some ["serve", "--region", "$\x7b\x7b parameters.region \x7d\x7d"]
          extension := {} }
        debug := none })]

/-- The value of the parameter is two words. -/
def datedScope : Scope where
  context := ⟨[("parameters", .object [("region", .string "eu west")])]⟩

theorem interpolate_datedConfig :
    datedScope.delimiters = {} ∧ datedConfig.Storable
      ∧ (∀ t, datedConfig.instanceDate = some t → Instant.read? t.text = some t)
      ∧ ∃ c', interpolate datedScope datedConfig = .ok c'
        ∧ datedConfig.Rewritten (datedScope.Replaces datedConfig.toJson.sorted.texts) c'
        ∧ (c'.services.get? "api").bind (fun r => r.body.command)
          = some ["serve", "--region", "eu west"] := by
  have hstorable : datedConfig.Storable := by
    have hvalues : datedConfig.parameters.values = [{ default := some none },
        { default := some (some (.float (.finite false (pow2 52) (-53)))) },
        { default := some (some (.int 3)) }] := by decide
    rw [Config.Component.Storable, hvalues]
    simp [Scalar.Storable, Binary64.isFinite, pow2]
  have hdate : ∀ t, datedConfig.instanceDate = some t → Instant.read? t.text = some t := by
    intro t ht
    obtain rfl := Option.some.inj ht
    decide
  have hcommand : (interpolate datedScope datedConfig).map
      (fun c' => (c'.services.get? "api").bind fun r => r.body.command)
        = .ok (some ["serve", "--region", "eu west"]) := by decide +kernel
  obtain ⟨c', hok, hargs⟩ := ok_of_map_eq_ok hcommand
  obtain ⟨-, hframe, -⟩ := interpolate_frame datedScope datedConfig rfl hstorable hdate
  exact ⟨rfl, hstorable, hdate, c', hok, (hframe c' hok).1, hargs⟩

end Manifest.Interpolation
