import Manifest.Proofs.Compiler.Exclusive
import Manifest.Proofs.Layering.Grouping
import Manifest.Proofs.Slug.Reader
import Manifest.Proofs.Spec.Keys
import Mathlib.Data.List.TakeWhile
/-!
# Names and refs of layered configs

The rules ask for a name of one or two segments and for a tag, and the check
for keys that are segments. Normalising gives every block its identity from
them, and each merge stamps the identities anew. So whatever is layered from
compiled configs has refs that can be read (`Component.Named`): a resource is a
service of its component, or, where the name has no account, what looks like a
component of an account.
-/

namespace Manifest

/-! ## Names of components -/

namespace Config.Component

open Slug (IsSegment IsTag)

theorem splitName_of_slash {name : String} {account own : List Char} (h : '/' ∉ account)
    (hname : name.toList = account ++ '/' :: own) :
    splitName name = (some (String.ofList account), String.ofList own) := by
  have hother : ∀ c ∈ account, decide (c ≠ '/') = true := fun c hc =>
    decide_eq_true fun heq => h (heq ▸ hc)
  simp only [splitName, hname, List.dropWhile_append_of_pos hother,
    List.takeWhile_append_of_pos hother]
  simp

theorem splitName_of_plain {name : String} (h : '/' ∉ name.toList) :
    splitName name = (none, name) := by
  have hother : ∀ c ∈ name.toList, decide (c ≠ '/') = true := fun c hc =>
    decide_eq_true fun heq => h (heq ▸ hc)
  simp only [splitName, List.dropWhile_eq_nil_iff.mpr hother]

/-- The name is one segment, or an account and a segment. -/
def Split (name : String) : Option String → String → Prop
  | some account, own => IsSegment account ∧ IsSegment own ∧ name = account ++ "/" ++ own
  | none, own => IsSegment own ∧ name = own

/-- A name that the rules allow is split in the same way by everyone. -/
theorem split_splitName {name : String} {account : Option String} {own : String}
    (h : Slug.splitComponentName? name = some (account, own)) :
    splitName name = (account, own) ∧ Split name account own := by
  cases account with
  | some account =>
      obtain ⟨haccount, hown, rfl⟩ := Slug.splitComponentName?_eq_pair_iff.mp h
      have hchars : (account ++ "/" ++ own).toList = account.toList ++ '/' :: own.toList := by simp
      have hsplit := splitName_of_slash (haccount.not_mem (by simp)) hchars
      rw [String.ofList_toList, String.ofList_toList] at hsplit
      exact ⟨hsplit, haccount, hown, rfl⟩
  | none =>
      obtain ⟨hown, rfl⟩ := Slug.splitComponentName?_eq_single_iff.mp h
      exact ⟨splitName_of_plain (hown.not_mem (by simp)), hown, rfl⟩

/-- The slug that the ref of the resource at a key is read as: a service of the
component or, where the name has no account, a component of what would be one. -/
def resourceSlug (c : Component) (key : String) : Slug :=
  match c.account? with
  | some account => .ofServiceVersion account c.ownName key c.tag
  | none => .ofComponentVersion c.ownName key c.tag

end Config.Component

/-! ## Identities of blocks -/

namespace Config

variable {X : Type}

/-- The property holds of the identity of the resource and of that of its debug
block. -/
structure Resource.Identities (p : Identity → Prop) (r : Resource X) : Prop where
  body : p r.body.identity
  debug : ∀ debug, r.debug = some debug → p debug.body.identity

theorem Resource.Identities.imp {p q : Identity → Prop} {r : Resource X} (h : r.Identities p)
    (hpq : ∀ i, p i → q i) : r.Identities q where
  body := hpq _ h.body
  debug debug hdebug := hpq _ (h.debug debug hdebug)

/-- The property holds at each key of the identities there. -/
structure Component.Identities (p : String → Identity → Prop) (c : Component) : Prop where
  services : ∀ key s, c.services.get? key = some s → s.Identities (p key)
  tasks : ∀ key t, c.tasks.get? key = some t → t.Identities (p key)

theorem Component.Identities.imp {p q : String → Identity → Prop} {c : Component}
    (h : c.Identities p) (hpq : ∀ key i, p key i → q key i) : c.Identities q where
  services key s hs := (h.services key s hs).imp (hpq key)
  tasks key t ht := (h.tasks key t ht).imp (hpq key)

theorem textOver_of_ne_empty {upper : String} (h : upper ≠ "") (base : String) :
    textOver base upper = upper :=
  if_neg fun hempty => h (String.isEmpty_iff.mp hempty)

theorem valueOver_eq_none {α : Type} {base upper : Option α} (hbase : base = none)
    (hupper : upper = none) : valueOver base upper = none := by
  rw [hbase, hupper]
  rfl

open Normalization (identity)

/-- A component with a name and a tag stamps both on its resources, whatever
they were called. -/
theorem identities_stamped [Layered X] {c : Component} (hname : c.name ≠ "") (htag : c.tag ≠ "")
    {d : Dict (Resource X)} {key : String} {r : Resource X}
    (h : (stamped c d).get? key = some r) : r.Identities (· = identity c key) := by
  rw [stamped, Dict.get?_mapValues] at h
  obtain ⟨given, -, rfl⟩ := Option.map_eq_some_iff.mp h
  have hidentity : given.body.identity.stamped c key = identity c key := by
    have hnonempty : ¬ c.name.isEmpty := fun hempty => hname (String.isEmpty_iff.mp hempty)
    rw [Identity.stamped, if_neg hnonempty, textOver_of_ne_empty htag]
    rfl
  rw [Resource.stamp_eq, hidentity]
  refine ⟨rfl, fun debug hdebug => ?_⟩
  obtain ⟨inner, hinner, rfl⟩ := Option.map_eq_some_iff.mp hdebug
  obtain ⟨innermost, -, rfl⟩ := Option.map_eq_some_iff.mp hinner
  rfl

/-! ## Named components -/

namespace Component

open Slug (IsSegment IsTag)

/-- The component has a name and a tag that the rules allow, its ref is made of
them, and it is no instance. Keys are segments, and each block has the identity
of its key. -/
structure Named (c : Component) : Prop where
  name : (Slug.splitComponentName? c.name).isSome
  tag : IsTag c.tag
  reference : c.reference = c.ref
  instanceId : c.instanceId = none
  instanceName : c.instanceName = none
  instanceDate : c.instanceDate = none
  serviceKeys : ∀ key ∈ c.services.keys, IsSegment key
  taskKeys : ∀ key ∈ c.tasks.keys, IsSegment key
  stamps : c.Identities fun key i => i = identity c key

variable {c base upper : Component}

theorem Named.split (h : c.Named) : Split c.name c.account? c.ownName := by
  obtain ⟨⟨account, own⟩, hsplit⟩ := Option.isSome_iff_exists.mp h.name
  obtain ⟨heq, hname⟩ := split_splitName hsplit
  rw [account?, ownName, heq]
  exact hname

theorem Named.name_ne_empty (h : c.Named) : c.name ≠ "" := by
  intro heq
  have hname := h.name
  rw [heq] at hname
  exact absurd hname (by decide)

theorem Named.reference_eq (h : c.Named) : c.reference = c.name ++ ":" ++ c.tag := by
  rw [h.reference, ref, h.instanceName]
  exact String.append_empty

theorem Named.identities (h : c.Named) :
    c.Identities fun key i => IsSegment key ∧ i = identity c key where
  services key s hs :=
    have hkey := h.serviceKeys key (Dict.mem_keys_iff.mpr ⟨s, hs⟩)
    (h.stamps.services key s hs).imp fun _ hi => ⟨hkey, hi⟩
  tasks key t ht :=
    have hkey := h.taskKeys key (Dict.mem_keys_iff.mpr ⟨t, ht⟩)
    (h.stamps.tasks key t ht).imp fun _ hi => ⟨hkey, hi⟩

/-! ### Refs -/

theorem Named.read_reference (h : c.Named) {account : String}
    (haccount : c.account? = some account) :
    Slug.read .componentVersion c.reference
      = .ok (.ofComponentVersion account c.ownName c.tag) := by
  have hsplit := h.split
  rw [haccount] at hsplit
  obtain ⟨ha, hown, hname⟩ := hsplit
  rw [h.reference_eq, hname]
  exact Slug.read_eq_ok.mpr
    (Slug.ofText?_of_wellFormed (.componentVersion ha hown h.tag) (.inl rfl))

/-- A resource is called by the text of its slug. -/
theorem Named.text_resourceSlug (h : c.Named) {key : String} (hkey : IsSegment key) :
    (c.resourceSlug key).WellFormed ∧ c.resourceRef key = (c.resourceSlug key).text := by
  have hsplit := h.split
  rw [resourceRef, resourceSlug]
  cases haccount : c.account? with
  | some account =>
      rw [haccount] at hsplit
      obtain ⟨ha, hown, hname⟩ := hsplit
      rw [hname]
      exact ⟨.serviceVersion ha hown hkey h.tag, rfl⟩
  | none =>
      rw [haccount] at hsplit
      obtain ⟨hown, hname⟩ := hsplit
      rw [hname]
      exact ⟨.componentVersion hown hkey h.tag, rfl⟩

/-- A resource is read as a service if its component has an account, and as a
component if not. -/
theorem Named.read_resourceRef (h : c.Named) {key : String} (hkey : IsSegment key) :
    Slug.read (c.resourceSlug key).kind (c.resourceRef key) = .ok (c.resourceSlug key) := by
  obtain ⟨hwellFormed, htext⟩ := h.text_resourceSlug hkey
  exact Slug.read_eq_ok.mpr (Slug.ofText?_of_wellFormed hwellFormed (.inl htext))

/-- Each block has a ref that is read as the slug of its key. -/
theorem Named.read_identities (h : c.Named) : c.Identities fun key i =>
    Slug.read (c.resourceSlug key).kind i.reference = .ok (c.resourceSlug key) := by
  refine h.identities.imp ?_
  rintro key i ⟨hkey, rfl⟩
  exact h.read_resourceRef hkey

/-! ### Merges -/

theorem name_merge (h : upper.Named) (base : Component) : (base.merge upper).name = upper.name :=
  textOver_of_ne_empty h.name_ne_empty base.name

theorem tag_merge (h : upper.Named) (base : Component) : (base.merge upper).tag = upper.tag :=
  textOver_of_ne_empty h.tag.ne_empty base.tag

theorem Named.merge (hbase : base.Named) (hupper : upper.Named) : (base.merge upper).Named := by
  have hname := name_merge hupper base
  have htag := tag_merge hupper base
  have hne : (base.merge upper).name ≠ "" := hname ▸ hupper.name_ne_empty
  have htagNe : (base.merge upper).tag ≠ "" := htag ▸ hupper.tag.ne_empty
  constructor
  case name => exact hname ▸ hupper.name
  case tag => exact htag ▸ hupper.tag
  case reference => exact if_neg fun hempty => hne (String.isEmpty_iff.mp hempty)
  case instanceId => exact valueOver_eq_none hbase.instanceId hupper.instanceId
  case instanceName => exact valueOver_eq_none hbase.instanceName hupper.instanceName
  case instanceDate => exact valueOver_eq_none hbase.instanceDate hupper.instanceDate
  case serviceKeys =>
    intro key hkey
    exact (mem_services_merge.mp hkey).elim (hbase.serviceKeys key) (hupper.serviceKeys key)
  case taskKeys =>
    intro key hkey
    exact (mem_tasks_merge.mp hkey).elim (hbase.taskKeys key) (hupper.taskKeys key)
  case stamps =>
    exact ⟨fun _ _ => identities_stamped hne htagNe, fun _ _ => identities_stamped hne htagNe⟩

end Component

end Config

/-! ## Compiled components -/

namespace Normalization

open Config (Component)

variable {X Y : Type} {e : Extension X Y} {d : Delimiters}

theorem identities_resource {c : Component} {resources : Dict (Spec.Resource X)} {key : String}
    {r : Config.Resource Y}
    (h : (resources.mapValues fun key r => resource e d (identity c key) r).get? key = some r) :
    r.Identities (· = identity c key) := by
  rw [Dict.get?_mapValues] at h
  obtain ⟨given, -, rfl⟩ := Option.map_eq_some_iff.mp h
  refine ⟨rfl, fun debug hdebug => ?_⟩
  obtain ⟨inner, -, rfl⟩ := Option.map_eq_some_iff.mp hdebug
  rfl

end Normalization

namespace Compiler

open Config (Component)
open Validation (objection_eq_none eq_false_of_objectIf)

variable {s : Settings} {ps : Perspectives} {d : SourceDocument} {c : Component}

theorem componentRules_eq_nil {spec : Spec.Component} (h : Validation.validate ps spec = []) :
    Validation.applyRules Validation.componentRules ps "" spec = [] := by
  simp only [Validation.validate, List.append_eq_nil_iff] at h
  exact h.1.1.1.1.1.1

theorem named_of_compileDocument (h : compileDocument s ps d = .ok c) : c.Named := by
  obtain ⟨spec, hspec, rfl⟩ := exists_outline h
  obtain ⟨-, hvalid⟩ := parseSpec_ok hspec
  obtain ⟨fs, -, hrooted⟩ := rooted_of_parseSpec hspec
  have hrules := componentRules_eq_nil hvalid
  constructor
  case name =>
    have hrule := eq_false_of_objectIf (objection_eq_none hrules (.head _) rfl)
    exact Option.isNone_eq_false_iff.mp hrule
  case tag =>
    show Slug.IsTag (spec.tag.getD Slug.defaultTag)
    cases htag : spec.tag with
    | none => exact Slug.isTag_defaultTag
    | some tag =>
        have hrule := objection_eq_none hrules (.tail _ (.tail _ (.head _))) rfl
        dsimp only at hrule
        rw [htag] at hrule
        have hbad := eq_false_of_objectIf hrule
        exact Slug.isTagText_iff.mp (by simpa using hbad)
  case reference => rfl
  case instanceId => rfl
  case instanceName => rfl
  case instanceDate => rfl
  case serviceKeys =>
    rw [Normalization.keys_services_outline]
    exact fun key hkey => Slug.isNameText_iff.mp (hrooted.isName_services key hkey)
  case taskKeys =>
    rw [Normalization.keys_tasks_outline]
    exact fun key hkey => Slug.isNameText_iff.mp (hrooted.isName_tasks key hkey)
  case stamps =>
    exact ⟨fun _ _ => Normalization.identities_resource,
      fun _ _ => Normalization.identities_resource⟩

/-- Developers name a component with its account. -/
theorem isSome_account?_of_developer (h : compileDocument s ps d = .ok c)
    (hps : ps.developer = true) : c.account?.isSome := by
  have hnamed := named_of_compileDocument h
  obtain ⟨spec, hspec, rfl⟩ := exists_outline h
  obtain ⟨-, hvalid⟩ := parseSpec_ok hspec
  have happlies : ps.intersects [.developer] = true := by
    simp [Perspectives.intersects, Perspectives.contains, hps]
  have hrule := objection_eq_none (componentRules_eq_nil hvalid) (.tail _ (.head _)) happlies
  dsimp only at hrule
  obtain ⟨⟨account, own⟩, hsplit⟩ := Option.isSome_iff_exists.mp hnamed.name
  have haccount : (Normalization.outline s.delimiters spec).account? = account :=
    congrArg Prod.fst (Component.split_splitName hsplit).1
  rw [haccount]
  cases account with
  | some account => rfl
  | none =>
      have hname : Slug.splitComponentName? spec.name = some (none, own) := hsplit
      rw [hname] at hrule
      cases hrule

theorem named_of_composed (h : Composed c) : c.Named := by
  induction h with
  | compiled h => exact named_of_compileDocument h
  | merged _ _ hbase hupper => exact hbase.merge hupper

end Compiler

end Manifest
