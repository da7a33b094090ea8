import Manifest.Proofs.Config.Rewritten
import Manifest.Proofs.Config.Tree
import Manifest.Proofs.Dict
import Manifest.Proofs.Json.Rewriting
import Manifest.Proofs.Outcome
/-!
# A config with other texts is read back

The JSON of a config can be read again after it was sorted and its texts were
replaced, and what is read is the config with the new texts. A part of a
config `Survives` if its reader gives this of its JSON, and each part does
because its fields do. What a text may become is left open, but for dates:
those are read again only if they stayed as they were.
-/

namespace Manifest.Config.Reader

open Json (Members Rewritten ItemsRewritten Rewrites member?)

variable {α β : Type} {R : String → String → Prop}

/-! ## Values -/

/-- However the texts in the sorted value are replaced, the reader takes it,
and the property holds of what it gives. -/
def Survives (R : String → String → Prop) (read : Json → Option α) (value : Json)
    (p : α → Prop) : Prop :=
  ∀ value', Rewritten R value.sorted value' → Gives (read value') p

theorem survives_text (text : String) : Survives R Json.asString? (.string text) (R text) := by
  intro value' h
  cases h with
  | string h => exact .pure h

theorem survives_bool (b : Bool) : Survives R bool? (.bool b) (b = ·) := by
  intro value' h
  cases h with
  | bool => exact .pure rfl

theorem gives_texts : ∀ {texts : List String} {items' : List Json},
    ItemsRewritten R (Json.sortedItems (texts.map .string)) items' →
      Gives (items'.mapM Json.asString?) (List.Forall₂ R texts)
  | [], _, h => by
      cases h with
      | nil => exact .pure .nil
  | text :: texts, _, h => by
      cases h with
      | cons hitem hrest =>
          rw [List.mapM_cons]
          exact (survives_text text _ hitem).bind fun _ hfirst =>
            (gives_texts hrest).bind fun _ hmore => .pure (.cons hfirst hmore)

theorem survives_texts (texts : List String) :
    Survives R texts? (.ofTexts texts) (List.Forall₂ R texts) := by
  intro value' h
  cases h with
  | array h => exact gives_texts h

theorem survives_scalar {v : Scalar} (hv : v.Storable) :
    Survives R scalar? v.toJson (v.Rewritten R) := by
  intro value' h
  cases v with
  | bool b =>
      cases h
      exact .pure (.bool b)
  | int i =>
      cases h
      have hsmall : i < pow2 63 := hv
      rw [scalar?, if_pos hsmall]
      exact .pure (.int i)
  | float f =>
      have hfinite : f.isFinite = true := hv
      rw [Scalar.toJson, Json.sorted, if_pos hfinite] at h
      cases h
      exact .pure (.float f)
  | string s =>
      cases h with
      | string h => exact .pure (.string h)

theorem isNull_of_rewritten {value value' : Json} (h : Rewritten R value value') :
    value'.isNull = value.isNull := by
  cases h <;> rfl

theorem Survives.optional {read : Json → Option α} {value : Json} {p : α → Prop}
    (h : Survives R read value p) (hvalue : value.sorted.isNull = false) :
    Survives R (optional read) value (Gives · p) := by
  intro value' hrewritten
  have hread := h value' hrewritten
  have hnull := (isNull_of_rewritten hrewritten).trans hvalue
  cases value' with
  | null => cases hnull
  | bool | int | float | string | array | object => exact hread.map fun _ ha => .pure ha

/-! ## Dictionaries -/

theorem gives_mapM {f : α → Option β} {p : α → β → Prop} : ∀ {items : List α},
    (∀ item ∈ items, Gives (f item) (p item)) → Gives (items.mapM f) (List.Forall₂ p items)
  | [], _ => .pure .nil
  | item :: items, h => by
      rw [List.mapM_cons]
      exact (h item (List.mem_cons_self ..)).bind fun _ hfirst =>
        (gives_mapM fun other hother => h other (List.mem_cons_of_mem _ hother)).bind
          fun _ hrest => .pure (.cons hfirst hrest)

theorem mem_of_member? {name : String} {value : Json} : ∀ {members : Members},
    member? name members = some value → (name, value) ∈ members
  | (k, v) :: rest, h => by
      rw [member?] at h
      split at h
      · next hk =>
          obtain rfl := Option.some.inj h
          exact hk ▸ List.mem_cons_self ..
      · exact List.mem_cons_of_mem _ (mem_of_member? h)

theorem field?_dictJson (encode : α → Json) (d : Dict α) (key : String) :
    (dictJson encode d).field? key = (d.get? key).map encode := by
  rw [dictJson, Json.field?, Json.members?, Option.bind_some, Dict.get?]
  induction d.entries with
  | nil => rfl
  | cons entry rest ih =>
      obtain ⟨k, v⟩ := entry
      rw [List.map_cons, member?, Dict.find?]
      split
      · rfl
      · exact ih

/-- What was read under a name comes from the value that the dictionary has
there. -/
def ReadFrom (r : α → β → Prop) (d : Dict α) (name : String) (entry : String × β) : Prop :=
  entry.1 = name ∧ ∃ a, d.get? name = some a ∧ r a entry.2

theorem names_of_readFrom {r : α → β → Prop} {d : Dict α} {fs : Members}
    {entries : List (String × β)}
    (h : List.Forall₂ (fun member entry => ReadFrom r d member.1 entry) fs entries) :
    entries.map Prod.fst = fs.map Prod.fst := by
  induction h with
  | nil => rfl
  | cons hfirst _ ih => rw [List.map_cons, List.map_cons, hfirst.1, ih]

theorem rewritten_of_readFrom {encode : α → Json} {r : α → α → Prop} {d : Dict α} {fs : Members}
    {entries : List (String × α)} (hfs : Rewrites R (dictJson encode d) fs)
    (h : List.Forall₂ (fun member entry => ReadFrom r d member.1 entry) fs entries) :
    d.Rewritten r (.ofList entries) := by
  have hnames := names_of_readFrom h
  have hnodup : (entries.map Prod.fst).Nodup := hnames ▸ hfs.nodup
  have hentries := Dict.entries_ofList hnodup
  constructor
  · rw [Dict.keys, hentries, hnames]
    exact hfs.sorted
  · intro key
    have hfield := field?_dictJson encode d key
    cases hkey : d.get? key with
    | none =>
        rw [hkey] at hfield
        have hmissing : (Dict.ofList entries).get? key = none := by
          rw [Dict.get?_eq_none_iff, Dict.keys, hentries, hnames]
          exact Json.member?_eq_none_iff.mp (hfs.missing hfield)
        rw [hmissing]
        exact .none
    | some a =>
        rw [hkey] at hfield
        obtain ⟨v', hv', -⟩ := hfs.found hfield
        obtain ⟨⟨k, b⟩, hentry, hname, a', ha', hr⟩ := exists_of_forall₂ h _ (mem_of_member? hv')
        obtain rfl : k = key := hname
        obtain rfl : a = a' := Option.some.inj (hkey.symm.trans ha')
        have hfound : (Dict.ofList entries).get? k = some b :=
          Dict.get?_eq_some_iff.mpr (hentries.symm ▸ hentry)
        rw [hfound]
        exact .some hr

theorem survives_dict {read : Json → Option α} {encode : α → Json} {r : α → α → Prop} {d : Dict α}
    (h : ∀ key a, d.get? key = some a → Survives R read (encode a) (r a)) :
    Survives R (dict? read) (dictJson encode d) (d.Rewritten r) := by
  intro value' hrewritten
  have hnodup : ((d.entries.map fun entry => (entry.1, encode entry.2)).map Prod.fst).Nodup := by
    simpa [List.map_map, Function.comp_def] using d.nodup
  obtain ⟨fs, rfl, hfs⟩ := Json.rewrites_of_rewritten hnodup hrewritten
  have hread : ∀ member ∈ fs,
      Gives ((read member.2).map (member.1, ·)) (ReadFrom r d member.1) := by
    rintro ⟨k, v'⟩ hmember
    obtain ⟨v, hv⟩ := hfs.exists_field? (List.mem_map_of_mem hmember)
    have hfield := field?_dictJson encode d k
    obtain ⟨a, ha, rfl⟩ := Option.map_eq_some_iff.mp (hfield.symm.trans hv)
    obtain ⟨v'', hfound, hvalue⟩ := hfs.found hv
    have hsame : member? k fs = some v' := Json.member?_of_mem hfs.nodup hmember
    obtain rfl : v' = v'' := Option.some.inj (hsame.symm.trans hfound)
    exact (h k a ha v' hvalue).map fun b hb => ⟨rfl, a, ha, hb⟩
  exact (gives_mapM hread).bind fun entries hentries =>
    .pure (rewritten_of_readFrom hfs hentries)

theorem survives_textDict (d : Dict String) :
    Survives R (dict? Json.asString?) (dictJson .string d) (d.Rewritten R) :=
  survives_dict fun _ text _ => survives_text text

/-! ## Fields -/

variable {value : Json} {fs : Members} {name : String}

theorem gives_required {read : Json → Option α} {v : Json} {p : α → Prop}
    (hfs : Rewrites R value fs) (hv : value.field? name = some v) (h : Survives R read v p) :
    Gives (required? fs name read) p := by
  obtain ⟨v', hv', hrewritten⟩ := hfs.found hv
  rw [required?, hv']
  exact h v' hrewritten

theorem gives_fieldOr {read : Json → Option α} {default : α} {p : α → Prop}
    (hfs : Rewrites R value fs) (h : ∀ v, value.field? name = some v → Survives R read v p)
    (hdefault : value.field? name = none → p default) :
    Gives (fieldOr? fs name default read) p := by
  unfold fieldOr?
  cases hv : value.field? name with
  | none =>
      rw [hfs.missing hv]
      exact .pure (hdefault hv)
  | some v =>
      obtain ⟨v', hv', hrewritten⟩ := hfs.found hv
      rw [hv']
      exact h v hv v' hrewritten

/-- A field that is always written. -/
theorem gives_written {read : Json → Option α} {default : α} {v : Json} {p : α → Prop}
    (hfs : Rewrites R value fs) (hv : value.field? name = some v) (h : Survives R read v p) :
    Gives (fieldOr? fs name default read) p := by
  refine gives_fieldOr hfs (fun v' hv' => ?_) fun hnone => ?_
  · obtain rfl := Option.some.inj (hv.symm.trans hv')
    exact h
  · cases hv.symm.trans hnone

/-- A field that is written only if it has a value. -/
theorem gives_field {read : Json → Option α} {encode : α → Json} {a : Option α} {r : α → α → Prop}
    (hfs : Rewrites R value fs) (ha : value.field? name = a.map encode)
    (h : ∀ x, a = some x → Survives R read (encode x) (r x))
    (hnull : ∀ x, (encode x).sorted.isNull = false) :
    Gives (field? fs name read) (Option.Rel r a) := by
  unfold field?
  refine gives_fieldOr hfs (fun v hv => ?_) (fun hnone => ?_)
  · obtain ⟨x, rfl, rfl⟩ := Option.map_eq_some_iff.mp (ha.symm.trans hv)
    intro value' hrewritten
    obtain ⟨o, ho, b, rfl, hb⟩ := (h x rfl).optional (hnull x) value' hrewritten
    exact ⟨some b, ho, .some hb⟩
  · have hmissing : a = none := Option.map_eq_none_iff.mp (ha.symm.trans hnone)
    rw [hmissing]
    exact .none

theorem gives_text {a : Option String} (hfs : Rewrites R value fs)
    (ha : value.field? name = a.map .string) : Gives (text? fs name) (Option.Rel R a) :=
  gives_field hfs ha (fun text _ => survives_text text) fun _ => rfl

theorem gives_texts_field {a : Option (List String)} (hfs : Rewrites R value fs)
    (ha : value.field? name = a.map .ofTexts) :
    Gives (field? fs name texts?) (Option.Rel (List.Forall₂ R) a) :=
  gives_field hfs ha (fun texts _ => survives_texts texts) fun _ => rfl

theorem gives_bool {a : Option Bool} (hfs : Rewrites R value fs)
    (ha : value.field? name = a.map .bool) : Gives (field? fs name bool?) (a = ·) := by
  obtain ⟨b, hb, hrel⟩ := gives_field hfs ha (fun b _ => survives_bool b) fun _ => rfl
  exact ⟨b, hb, eq_of_rel_eq hrel⟩

theorem gives_dict {read : Json → Option α} {encode : α → Json} {d : Dict α} {r : α → α → Prop}
    (hfs : Rewrites R value fs) (hd : value.field? name = some (dictJson encode d))
    (h : ∀ key a, d.get? key = some a → Survives R read (encode a) (r a)) :
    Gives (fieldOr? fs name {} (dict? read)) (d.Rewritten r) :=
  gives_written hfs hd (survives_dict h)

/-- A field that is written only if its value is not empty. -/
theorem gives_unlessEmpty {read : Json → Option α} {default : α} {empty : Bool} {v : Json}
    {p : α → Prop} (hfs : Rewrites R value fs)
    (hv : value.field? name = if empty then none else some v) (h : Survives R read v p)
    (hdefault : empty = true → p default) : Gives (fieldOr? fs name default read) p := by
  cases empty with
  | false => exact gives_written hfs hv h
  | true =>
      refine gives_fieldOr hfs (fun v hv' => ?_) fun _ => hdefault rfl
      cases hv.symm.trans hv'

theorem gives_textsUnlessEmpty {texts : List String} (hfs : Rewrites R value fs)
    (ha : value.field? name = if texts.isEmpty then none else some (.ofTexts texts)) :
    Gives (fieldOr? fs name [] texts?) (List.Forall₂ R texts) := by
  refine gives_unlessEmpty hfs ha (survives_texts texts) fun hempty => ?_
  rw [List.isEmpty_iff.mp hempty]
  exact .nil

theorem rewritten_of_isEmpty {d : Dict α} {r : α → α → Prop} (h : d.isEmpty = true) :
    d.Rewritten r {} where
  sorted := List.Pairwise.nil
  values := by
    intro key
    have hnone : d.get? key = none := by
      rw [Dict.get?, List.isEmpty_iff.mp h, Dict.find?]
    rw [hnone]
    exact .none

theorem gives_dictUnlessEmpty {d : Dict String} (hfs : Rewrites R value fs)
    (ha : value.field? name = if d.isEmpty then none else some (dictJson .string d)) :
    Gives (fieldOr? fs name {} (dict? Json.asString?)) (d.Rewritten R) :=
  gives_unlessEmpty hfs ha (survives_textDict d) rewritten_of_isEmpty

/-! ## Objects -/

/-- All members are known. -/
theorem known?_of_record {names known : List String} (h : Record names value)
    (hnames : names ⊆ known) (hfs : Rewrites R value fs) : known? known fs = some fs := by
  obtain ⟨members, rfl, hfields⟩ := h
  have hall : fs.filter (fun member => known.contains member.1) = fs := by
    refine List.filter_eq_self.mpr fun member hmember => ?_
    obtain ⟨v, hv⟩ := hfs.exists_field? (List.mem_map_of_mem hmember)
    have hmem : (member.1, v) ∈ members := mem_of_member? hv
    have hname : member.1 ∈ members.map Prod.fst :=
      List.mem_map.mpr ⟨(member.1, v), hmem, rfl⟩
    exact List.contains_iff_mem.mpr (hnames (hfields.names.subset hname))
  have hfound : known? known fs = if (fs.map Prod.fst).Nodup then some fs else none :=
    congrArg (fun found : Members => if (found.map Prod.fst).Nodup then some found else none) hall
  rw [hfound, if_pos hfs.nodup]

theorem survives_object {names : List String} {p : α → Prop} {read : Json → Option α}
    (h : Record names value) (hnames : names.Nodup)
    (hread : ∀ fs, Rewrites R value fs → Gives (read (.object fs)) p) :
    Survives R read value p := by
  intro value' hrewritten
  obtain ⟨members, rfl, hfields⟩ := h
  obtain ⟨fs, rfl, hfs⟩ := Json.rewrites_of_rewritten (hfields.names.nodup hnames) hrewritten
  exact hread fs hfs

theorem survives_fields {names known : List String} {p : α → Prop} {read : Members → Option α}
    (h : Record names value) (hnames : names.Nodup) (hknown : names ⊆ known)
    (hread : ∀ fs, Rewrites R value fs → Gives (read fs) p) :
    Survives R (fun v => fields? known v >>= read) value p := by
  refine survives_object h hnames fun fs hfs => ?_
  rw [fields?, known?_of_record h hknown hfs]
  exact hread fs hfs

/-! ## Looking up what was written -/

@[simp] theorem field?_object (name : String) (members : Members) :
    Json.field? name (.object members) = member? name members := rfl

@[simp] theorem member?_cons (name k : String) (v : Json) (rest : Members) :
    member? name ((k, v) :: rest) = if k = name then some v else member? name rest := rfl

@[simp] theorem member?_nil (name : String) : member? name [] = none := rfl

@[simp] theorem member?_append (name : String) (members more : Members) :
    member? name (members ++ more) = (member? name members).or (member? name more) := by
  induction members with
  | nil => rfl
  | cons member rest ih =>
      obtain ⟨k, v⟩ := member
      rw [List.cons_append, member?, member?]
      split
      · rfl
      · exact ih

@[simp] theorem member?_optional (name other : String) (encode : α → Json) (a : Option α) :
    member? name (Config.optional other encode a)
      = if other = name then a.map encode else none := by
  cases a with
  | none => exact (ite_self _).symm
  | some a => rfl

@[simp] theorem member?_optionalText (name other : String) (a : Option String) :
    member? name (optionalText other a) = if other = name then a.map .string else none :=
  member?_optional name other .string a

@[simp] theorem member?_textsUnlessEmpty (name other : String) (texts : List String) :
    member? name (textsUnlessEmpty other texts)
      = if other = name then if texts.isEmpty then none else some (.ofTexts texts) else none := by
  unfold textsUnlessEmpty
  split
  · exact (ite_self _).symm
  · rfl

@[simp] theorem member?_dictUnlessEmpty (name other : String) (d : Dict String) :
    member? name (dictUnlessEmpty other d)
      = if other = name then if d.isEmpty then none else some (dictJson .string d) else none := by
  unfold dictUnlessEmpty
  split
  · exact (ite_self _).symm
  · rfl

/-! ## Parts of a resource -/

/-- A default that is null is no default that is left out. -/
theorem survives_default {v : Option Scalar} (hv : ∀ value, v = some value → value.Storable) :
    Survives R (fun value => (optional scalar? value).map some)
      ((v.map Scalar.toJson).getD .null)
      (Option.Rel (Option.Rel (Scalar.Rewritten R)) (some v)) := by
  intro value' hrewritten
  cases v with
  | none =>
      cases hrewritten
      exact .pure (.some .none)
  | some v =>
      have hv := hv v rfl
      have hnull : v.toJson.sorted.isNull = false := by
        cases v with
        | float f =>
            have hfinite : f.isFinite = true := hv
            rw [Scalar.toJson, Json.sorted, if_pos hfinite]
            rfl
        | bool | int | string => rfl
      obtain ⟨o, ho, w, rfl, hw⟩ := (survives_scalar hv).optional hnull value' hrewritten
      have hsome : Gives (optional scalar? value') (Option.Rel (Scalar.Rewritten R) (some v)) :=
        ⟨some w, ho, .some hw⟩
      exact hsome.map fun _ hrel => .some hrel

theorem survives_parameter {p : Parameter}
    (hp : ∀ value, p.default = some (some value) → value.Storable) :
    Survives R parameter? p.toJson (p.Rewritten R) := by
  refine survives_fields p.record_toJson (by decide) (List.Subset.refl _) fun fs hfs => ?_
  have hdefault : p.toJson.field? "default"
      = p.default.map fun v => (v.map Scalar.toJson).getD .null := by simp [Parameter.toJson]
  have hread : Gives (fieldOr? fs "default" none fun v => (optional scalar? v).map some)
      (Option.Rel (Option.Rel (Scalar.Rewritten R)) p.default) := by
    refine gives_fieldOr hfs (fun v hv => ?_) fun hnone => ?_
    · obtain ⟨v, hvalue, rfl⟩ := Option.map_eq_some_iff.mp (hdefault.symm.trans hv)
      rw [hvalue]
      exact survives_default fun value heq => hp value (heq ▸ hvalue)
    · rw [Option.map_eq_none_iff.mp (hdefault.symm.trans hnone)]
      exact .none
  exact (gives_bool hfs (by simp [Parameter.toJson])).bind fun _ hrequired =>
    (gives_text hfs (by simp [Parameter.toJson])).bind fun _ hdescription =>
    hread.bind fun _ hdefault => .pure ⟨hrequired, hdescription, hdefault⟩

theorem survives_build (b : Build) : Survives R build? b.toJson (b.Rewritten R) := by
  refine survives_fields b.record_toJson (by decide) (List.Subset.refl _) fun fs hfs => ?_
  exact (gives_text hfs (by simp [Build.toJson])).bind fun _ hcontext =>
    (gives_text hfs (by simp [Build.toJson])).bind fun _ hdockerfile =>
    (gives_text hfs (by simp [Build.toJson])).bind fun _ htarget =>
    (gives_dictUnlessEmpty hfs (by simp [Build.toJson])).bind fun _ hargs =>
    .pure ⟨hcontext, hdockerfile, htarget, hargs⟩

theorem survives_volume (v : Volume) : Survives R volume? v.toJson (v.Rewritten R) := by
  refine survives_fields v.record_toJson (by decide) (List.Subset.refl _) fun fs hfs => ?_
  exact (gives_text hfs (by simp [Volume.toJson])).bind fun _ hmountPath =>
    (gives_text hfs (by simp [Volume.toJson])).bind fun _ hhostPath =>
    (gives_text hfs (by simp [Volume.toJson])).bind fun _ hkey =>
    (gives_text hfs (by simp [Volume.toJson])).bind fun _ hdescription =>
    (gives_text hfs (by simp [Volume.toJson])).bind fun _ hreadonly =>
    .pure ⟨hmountPath, hhostPath, hkey, hdescription, hreadonly⟩

/-- The fields of an interface may stand among others. -/
theorem gives_interfaceOf {i : Interface} (hfs : Rewrites R value fs)
    (hi : ∀ name ∈ interfaceNames, value.field? name = member? name i.members) :
    Gives (interfaceOf? fs) (i.Rewritten R) :=
  (gives_text hfs ((hi _ (by decide)).trans (by simp [Interface.members]))).bind
    fun _ hdescription =>
  (gives_text hfs ((hi _ (by decide)).trans (by simp [Interface.members]))).bind fun _ hhost =>
  (gives_text hfs ((hi _ (by decide)).trans (by simp [Interface.members]))).bind fun _ hport =>
  (gives_text hfs ((hi _ (by decide)).trans (by simp [Interface.members]))).bind
    fun _ hprotocol =>
  (gives_text hfs ((hi _ (by decide)).trans (by simp [Interface.members]))).bind
    fun _ husername =>
  (gives_text hfs ((hi _ (by decide)).trans (by simp [Interface.members]))).bind
    fun _ hpassword =>
  (gives_text hfs ((hi _ (by decide)).trans (by simp [Interface.members]))).bind fun _ hurl =>
  (gives_text hfs ((hi _ (by decide)).trans (by simp [Interface.members]))).bind fun _ hsticky =>
  .pure ⟨hdescription, hhost, hport, hprotocol, husername, hpassword, hurl, hsticky⟩

theorem survives_interface (i : Interface) : Survives R interface? i.toJson (i.Rewritten R) :=
  survives_fields i.record_toJson (by decide) (List.Subset.refl _) fun _ hfs =>
    gives_interfaceOf hfs fun _ _ => rfl

theorem survives_ingress (i : Ingress) : Survives R ingress? i.toJson (i.Rewritten R) := by
  refine survives_fields i.record_toJson (by decide) (List.Subset.refl _) fun fs hfs => ?_
  exact (gives_bool hfs (by simp [Ingress.toJson])).bind fun _ henabled =>
    (gives_text hfs (by simp [Ingress.toJson])).bind fun _ hsubdomain =>
    .pure ⟨henabled, hsubdomain⟩

theorem survives_componentInterface (i : ComponentInterface) :
    Survives R componentInterface? i.toJson (i.Rewritten R) := by
  refine survives_object i.record_toJson (by decide) fun fs hfs => ?_
  have hknown : known? ("ingress" :: interfaceNames) fs = some fs :=
    known?_of_record i.record_toJson (by decide) hfs
  have hinterface : ∀ name ∈ interfaceNames,
      i.toJson.field? name = member? name i.interface.members := by
    intro name hname
    have hother : "ingress" ≠ name := by
      rintro rfl
      revert hname
      decide
    simp [ComponentInterface.toJson, hother]
  have hingress : i.toJson.field? "ingress" = i.ingress.map Ingress.toJson := by
    simp [ComponentInterface.toJson, Interface.members]
  show Gives (known? ("ingress" :: interfaceNames) fs >>= _) _
  rw [hknown]
  exact (gives_interfaceOf hfs hinterface).bind fun _ hi =>
    (gives_field hfs hingress (fun i _ => survives_ingress i) fun _ => rfl).bind fun _ hingress =>
    .pure ⟨hi, hingress⟩

theorem survives_probe (p : Probe) : Survives R probe? p.toJson (p.Rewritten R) := by
  refine survives_fields p.record_toJson (by decide) (List.Subset.refl _) fun fs hfs => ?_
  exact (gives_text hfs (by simp [Probe.toJson])).bind fun _ hsuccessThreshold =>
    (gives_text hfs (by simp [Probe.toJson])).bind fun _ hfailureThreshold =>
    (gives_text hfs (by simp [Probe.toJson])).bind fun _ htimeout =>
    (gives_text hfs (by simp [Probe.toJson])).bind fun _ hinterval =>
    (gives_text hfs (by simp [Probe.toJson])).bind fun _ hinitialDelay =>
    (gives_text hfs (by simp [Probe.toJson])).bind fun _ hpath =>
    (gives_text hfs (by simp [Probe.toJson])).bind fun _ hport =>
    (gives_texts_field hfs (by simp [Probe.toJson])).bind fun _ hcommand =>
    .pure ⟨hsuccessThreshold, hfailureThreshold, htimeout, hinterval, hinitialDelay, hpath, hport,
      hcommand⟩

theorem survives_metrics (m : Metrics) : Survives R metrics? m.toJson (m.Rewritten R) := by
  refine survives_fields m.record_toJson (by decide) (List.Subset.refl _) fun fs hfs => ?_
  exact (gives_text hfs (by simp [Metrics.toJson])).bind fun _ hcpu =>
    (gives_text hfs (by simp [Metrics.toJson])).bind fun _ hmemory => .pure ⟨hcpu, hmemory⟩

theorem survives_scaling (s : Scaling) : Survives R scaling? s.toJson (s.Rewritten R) := by
  refine survives_fields s.record_toJson (by decide) (List.Subset.refl _) fun fs hfs => ?_
  exact (gives_text hfs (by simp [Scaling.toJson])).bind fun _ hminReplicas =>
    (gives_text hfs (by simp [Scaling.toJson])).bind fun _ hmaxReplicas =>
    (gives_written hfs (by simp [Scaling.toJson]) (survives_metrics s.metrics)).bind
      fun _ hmetrics => .pure ⟨hminReplicas, hmaxReplicas, hmetrics⟩

/-! ## Resources -/

/-- The members of an extension are read back from among those of a resource. -/
structure ExtensionSurvives {X : Type} (R : String → String → Prop) (encode : X → Members)
    (reader : ExtensionReader X) (rel : X → X → Prop) : Prop where
  fields : ∀ x, Fields reader.names (encode x)
  names : (bodyNames ++ ["debug"] ++ reader.names).Nodup
  gives : ∀ {x : X} {value : Json} {fs : Members}, Rewrites R value fs →
    (∀ name ∈ reader.names, value.field? name = member? name (encode x)) →
      Gives (reader.read? fs) (rel x)

theorem extensionSurvives_service : ExtensionSurvives R ServiceExtension.members serviceExtension
    (ServiceExtension.Rewritten R) where
  fields := ServiceExtension.fields_members
  names := by decide
  gives := by
    intro x value fs hfs hx
    exact (gives_dict hfs ((hx _ (by decide)).trans (by simp [ServiceExtension.members]))
        fun _ i _ => survives_interface i).bind fun _ hinterfaces =>
      (gives_field hfs ((hx _ (by decide)).trans (by simp [ServiceExtension.members]))
        (fun p _ => survives_probe p) fun _ => rfl).bind fun _ hprobe =>
      (gives_text hfs ((hx _ (by decide)).trans (by simp [ServiceExtension.members]))).bind
        fun _ hreplicas =>
      (gives_field hfs ((hx _ (by decide)).trans (by simp [ServiceExtension.members]))
        (fun s _ => survives_scaling s) fun _ => rfl).bind fun _ hscaling =>
      .pure ⟨hinterfaces, hprobe, hreplicas, hscaling⟩

theorem extensionSurvives_task : ExtensionSurvives R TaskExtension.members taskExtension
    (TaskExtension.Rewritten R) where
  fields := TaskExtension.fields_members
  names := by decide
  gives := by
    intro x value fs hfs hx
    exact (gives_text hfs ((hx _ (by decide)).trans (by simp [TaskExtension.members]))).bind
      fun _ hschedule => .pure ⟨hschedule⟩

section Resources

variable {X : Type} {encode : X → Members} {reader : ExtensionReader X} {rel : X → X → Prop}

theorem member?_eq_none_of_fields {names : List String} {members : Members}
    (h : Fields names members) (hname : name ∉ names) : member? name members = none :=
  Json.member?_eq_none_iff.mpr fun hmem => hname (h.names.subset hmem)

/-- What stands under the name of a field of the body, of the debug block, and
of a field of the extension. -/
structure Parts (encode : X → Members) (extensionNames : List String) (r : Resource X) : Prop where
  body : ∀ name ∈ bodyNames, (r.toJson encode).field? name = member? name r.body.members
  debug : (r.toJson encode).field? "debug" = r.debug.map (Resource.toJson encode)
  extension : ∀ name ∈ extensionNames,
    (r.toJson encode).field? name = member? name (encode r.body.extension)

theorem parts_toJson (h : ExtensionSurvives R encode reader rel) (r : Resource X) :
    Parts encode reader.names r := by
  obtain ⟨hinner, hextension, hapart⟩ := List.nodup_append.mp h.names
  obtain ⟨-, -, hdebug⟩ := List.nodup_append.mp hinner
  have hbody := Body.fields_members r.body
  have hfields := h.fields r.body.extension
  have hfield : ∀ name, (r.toJson encode).field? name = (member? name r.body.members).or
      ((if "debug" = name then r.debug.map (Resource.toJson encode) else none).or
        (member? name (encode r.body.extension))) := by
    intro name
    rcases r with ⟨body, _ | debug⟩
    · simp [Resource.toJson]
    · by_cases hname : "debug" = name
      · simp [Resource.toJson, hname]
      · simp [Resource.toJson, hname]
  constructor
  · intro name hname
    have hnotDebug : "debug" ≠ name := fun heq => hdebug name hname "debug" (by simp) heq.symm
    have hnotExtension : name ∉ reader.names := fun hmem =>
      hapart name (List.mem_append_left _ hname) name hmem rfl
    rw [hfield, if_neg hnotDebug, member?_eq_none_of_fields hfields hnotExtension]
    simp
  · have hnotBody : "debug" ∉ bodyNames := by decide
    have hnotExtension : "debug" ∉ reader.names := fun hmem =>
      hapart "debug" (by simp) "debug" hmem rfl
    rw [hfield, if_pos rfl, member?_eq_none_of_fields hbody hnotBody,
      member?_eq_none_of_fields hfields hnotExtension]
    simp
  · intro name hname
    have hnotBody : name ∉ bodyNames := fun hmem =>
      hapart name (List.mem_append_left _ hmem) name hname rfl
    have hnotDebug : "debug" ≠ name := fun heq =>
      hapart "debug" (by simp) name hname heq
    rw [hfield, if_neg hnotDebug, member?_eq_none_of_fields hbody hnotBody]
    simp

theorem gives_body (h : ExtensionSurvives R encode reader rel) {r : Resource X}
    (hfs : Rewrites R (r.toJson encode) fs) :
    Gives (body? reader fs) (r.body.Rewritten R rel) := by
  have hparts := parts_toJson h r
  have hrecord := r.record_toJson h.fields h.names
  have hknown : known? (sharedNames ++ reader.names) fs = some fs :=
    known?_of_record hrecord (List.Subset.refl _) hfs
  have hlookup : ∀ {name : String} {v : Option Json}, name ∈ bodyNames →
      member? name r.body.members = v → (r.toJson encode).field? name = v :=
    fun hname hv => (hparts.body _ hname).trans hv
  unfold body?
  rw [hknown]
  exact (gives_required hfs (hlookup (by decide) (by simp [Body.members])) (survives_text _)).bind
      fun _ hname =>
    (gives_required hfs (hlookup (by decide) (by simp [Body.members])) (survives_text _)).bind
      fun _ hreference =>
    (gives_required hfs (hlookup (by decide) (by simp [Body.members])) (survives_text _)).bind
      fun _ htag =>
    (gives_text hfs (hlookup (by decide) (by simp [Body.members]))).bind fun _ hdescription =>
    (gives_text hfs (hlookup (by decide) (by simp [Body.members]))).bind fun _ himage =>
    (gives_field hfs (hlookup (by decide) (by simp [Body.members]))
      (fun b _ => survives_build b) fun _ => rfl).bind fun _ hbuild =>
    (gives_texts_field hfs (hlookup (by decide) (by simp [Body.members]))).bind fun _ hcommand =>
    (gives_texts_field hfs (hlookup (by decide) (by simp [Body.members]))).bind
      fun _ hentrypoint =>
    (gives_dict hfs (hlookup (by decide) (by simp [Body.members]))
      fun _ text _ => survives_text text).bind fun _ henvironment =>
    (gives_dict hfs (hlookup (by decide) (by simp [Body.members]))
      fun _ volume _ => survives_volume volume).bind fun _ hvolumes =>
    (gives_text hfs (hlookup (by decide) (by simp [Body.members]))).bind fun _ hcpu =>
    (gives_text hfs (hlookup (by decide) (by simp [Body.members]))).bind fun _ hmemory =>
    (gives_textsUnlessEmpty hfs (hlookup (by decide) (by simp [Body.members]))).bind
      fun _ hdependsOn =>
    (gives_dictUnlessEmpty hfs (hlookup (by decide) (by simp [Body.members]))).bind
      fun _ hlabels =>
    (h.gives hfs hparts.extension).bind fun _ hextension =>
    .pure ⟨⟨hname, hreference, htag⟩, hdescription, himage, hbuild, hcommand, hentrypoint,
      henvironment, hvolumes, hcpu, hmemory, hdependsOn, hlabels, hextension⟩

theorem debugOf?_of_missing : ∀ {fs : Members}, member? "debug" fs = none →
    debugOf? reader fs = some none
  | [], _ => rfl
  | (k, v) :: rest, h => by
      rw [member?] at h
      split at h
      · cases h
      · next hk =>
          unfold debugOf?
          rw [if_neg hk]
          exact debugOf?_of_missing h

theorem debugOf?_of_found {v : Json} (hv : v.isNull = false) : ∀ {fs : Members},
    member? "debug" fs = some v → debugOf? reader fs = (resource? reader v).map some
  | (k, v') :: rest, h => by
      rw [member?] at h
      unfold debugOf?
      split at h
      · next hk =>
          obtain rfl := Option.some.inj h
          rw [if_pos hk]
          cases v' with
          | null => cases hv
          | bool | int | float | string | array | object => rfl
      · next hk =>
          rw [if_neg hk]
          exact debugOf?_of_found hv h

theorem isNull_resource (encode : X → Members) (r : Resource X) :
    (r.toJson encode).sorted.isNull = false := by
  rcases r with ⟨body, _ | debug⟩ <;> rfl

theorem survives_resource (h : ExtensionSurvives R encode reader rel) : ∀ r : Resource X,
    Survives R (resource? reader) (r.toJson encode) (r.Rewritten R rel)
  | ⟨body, debug⟩ => by
      have hrecord := Resource.record_toJson h.fields h.names ⟨body, debug⟩
      refine survives_object hrecord h.names fun fs hfs => ?_
      have hbody := gives_body h hfs
      have hparts := parts_toJson h ⟨body, debug⟩
      rw [resource?]
      refine hbody.bind fun b hb => ?_
      cases debug with
      | none =>
          rw [debugOf?_of_missing (hfs.missing hparts.debug)]
          exact .pure (.plain hb)
      | some debug =>
          obtain ⟨v, hv, hrewritten⟩ := hfs.found hparts.debug
          have hnull : v.isNull = false :=
            (isNull_of_rewritten hrewritten).trans (isNull_resource encode debug)
          have hinner := survives_resource h debug v hrewritten
          rw [debugOf?_of_found hnull hv]
          obtain ⟨d, hd, hdebug⟩ := hinner
          rw [hd]
          exact .pure (.debug hb hdebug)

end Resources

theorem survives_service (s : Service) : Survives R service? (serviceJson s) (s.Rewritten R) :=
  survives_resource extensionSurvives_service s

theorem survives_task (t : Task) : Survives R task? (taskJson t) (t.Rewritten R) :=
  survives_resource extensionSurvives_task t

/-! ## Components -/

/-- What is read is the config rewritten, as far as its parameters are. -/
theorem survives_componentWith {c : Component} {q : Parameter → Parameter → Prop}
    (hdate : ∀ t, c.instanceDate = some t → ∀ new, R t.text new → Instant.read? new = some t)
    (hparameter : ∀ key p, c.parameters.get? key = some p →
      Survives R parameter? p.toJson (q p)) :
    Survives R component? c.toJson (c.RewrittenWith R q) := by
  have hrecord : Record c.fieldNames c.toJson := c.exists_fields
  have hnames : c.fieldNames.Nodup := by
    rw [Component.fieldNames]
    cases c.instanceDate.isSome <;> decide
  refine survives_fields hrecord hnames ?_ fun fs hfs => ?_
  · rw [Component.fieldNames]
    cases c.instanceDate.isSome <;> decide
  have hread : ∀ t, c.instanceDate = some t →
      Survives R (fun v => v.asString?.bind Instant.read?) (.string t.text) (t = ·) := by
    intro t ht value' hrewritten
    obtain ⟨new, htext, hnew⟩ := survives_text t.text value' hrewritten
    have hbind : value'.asString?.bind Instant.read? = Instant.read? new := by
      rw [htext, Option.bind_some]
    exact ⟨t, hbind.trans (hdate t ht new hnew), rfl⟩
  exact (gives_required hfs (by simp [Component.toJson]) (survives_text c.name)).bind
      fun _ hname =>
    (gives_required hfs (by simp [Component.toJson]) (survives_text c.tag)).bind fun _ htag =>
    (gives_required hfs (by simp [Component.toJson]) (survives_text c.reference)).bind
      fun _ hreference =>
    (gives_text hfs (by simp [Component.toJson])).bind fun _ hinstanceId =>
    (gives_text hfs (by simp [Component.toJson])).bind fun _ hinstanceName =>
    (gives_field hfs (by simp [Component.toJson]) hread fun _ => rfl).bind
      fun _ hinstanceDate =>
    (gives_text hfs (by simp [Component.toJson])).bind fun _ hparent =>
    (gives_text hfs (by simp [Component.toJson])).bind fun _ hlocalParent =>
    (gives_text hfs (by simp [Component.toJson])).bind fun _ hdescription =>
    (gives_textsUnlessEmpty hfs (by simp [Component.toJson])).bind fun _ hkeywords =>
    (gives_text hfs (by simp [Component.toJson])).bind fun _ hauthor =>
    (gives_text hfs (by simp [Component.toJson])).bind fun _ hhomepage =>
    (gives_dict hfs (by simp [Component.toJson]) hparameter).bind fun _ hparameters =>
    (gives_dict hfs (by simp [Component.toJson]) fun _ s _ => survives_service s).bind
      fun _ hservices =>
    (gives_dict hfs (by simp [Component.toJson]) fun _ t _ => survives_task t).bind
      fun _ htasks =>
    (gives_dict hfs (by simp [Component.toJson]) fun _ text _ => survives_text text).bind
      fun _ hdependencies =>
    (gives_dict hfs (by simp [Component.toJson]) fun _ i _ => survives_componentInterface i).bind
      fun _ hinterfaces =>
    .pure {
      rest := {
        name := hname, tag := htag, reference := hreference, instanceId := hinstanceId
        instanceName := hinstanceName, instanceDate := eq_of_rel_eq hinstanceDate
        parent := hparent, localParent := hlocalParent, description := hdescription
        keywords := hkeywords, author := hauthor, homepage := hhomepage
        parameters := rewritten_of_isEmpty rfl, services := hservices, tasks := htasks
        dependencies := hdependencies, interfaces := hinterfaces }
      parameters := hparameters }

theorem survives_component {c : Component} (hstorable : c.Storable)
    (hdate : ∀ t, c.instanceDate = some t → ∀ new, R t.text new → Instant.read? new = some t) :
    Survives R component? c.toJson (c.Rewritten R) := by
  have hparameter : ∀ key p, c.parameters.get? key = some p →
      Survives R parameter? p.toJson (p.Rewritten R) := by
    intro key p hp
    have hmem : (key, p) ∈ c.parameters.entries := Dict.get?_eq_some_iff.mp hp
    exact survives_parameter (hstorable p (List.mem_map.mpr ⟨(key, p), hmem, rfl⟩))
  intro value' hvalue
  obtain ⟨c', hread, hrewritten⟩ := survives_componentWith hdate hparameter value' hvalue
  exact ⟨c', hread, hrewritten.rewritten⟩

end Manifest.Config.Reader
