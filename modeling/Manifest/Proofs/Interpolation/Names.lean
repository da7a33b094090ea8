import Manifest.Proofs.Compiler.Naming
import Manifest.Proofs.Interpolation.Frame
/-!
# Interpolation keeps names, tags and refs

Names, tags and the refs made of them are written in few characters. If the
opening delimiter has another one, as the default has, no expression opens in
them, and a config that is interpolated is still named as before
(`named_of_interpolate`). This needs nothing of the defaults of parameters, which
JSON does not hold in all cases.
-/

namespace Manifest

/-! ## The characters of refs -/

namespace Slug

/-- The characters of names and tags, and what stands between them in a ref. -/
def isWrittenChar (c : Char) : Bool :=
  isWordChar c || c = '.' || c = '-' || c = '/' || c = ':'

/-- The text is made of such characters. -/
def Written (text : String) : Prop := ∀ c ∈ text.toList, isWrittenChar c = true

theorem Written.append {a b : String} (ha : Written a) (hb : Written b) : Written (a ++ b) := by
  intro c hc
  rw [String.toList_append, List.mem_append] at hc
  exact hc.elim (ha c) (hb c)

theorem written_slash : Written "/" := by
  simp [Written, isWrittenChar]

theorem written_colon : Written ":" := by
  simp [Written, isWrittenChar]

theorem isWrittenChar_of_wordChar {c : Char} (h : WordChar c) : isWrittenChar c = true := by
  simp only [isWrittenChar, isWordChar_iff.mpr h, Bool.true_or]

theorem IsSegment.written {text : String} (h : IsSegment text) : Written text := by
  intro c hc
  have href := isRefChar_of_isName (isNameText_iff.mpr h) c hc
  rw [isRefChar, Bool.or_eq_true, decide_eq_true_iff] at href
  rcases href with hname | rfl
  · exact isWrittenChar_of_wordChar (Or.inr (Or.inl (isNameChar_iff.mp hname)))
  · decide

theorem IsTag.written {text : String} (h : IsTag text) : Written text := by
  obtain ⟨first, rest, hchars, hfirst, hrest⟩ := h.started
  intro c hc
  rw [hchars, List.mem_cons] at hc
  rcases hc with rfl | hc
  · exact isWrittenChar_of_wordChar hfirst
  · rcases hrest c hc with hword | rfl | rfl
    · exact isWrittenChar_of_wordChar hword
    · decide
    · decide

end Slug

/-- The opening delimiter has a character that no name, tag or ref has. -/
def Delimiters.Apart (d : Delimiters) : Prop :=
  ∃ c ∈ d.opening.toList, Slug.isWrittenChar c = false

theorem Delimiters.Apart.opensIn {d : Delimiters} (h : d.Apart) {text : String}
    (htext : Slug.Written text) : d.opensIn text = false := by
  obtain ⟨c, hc, hother⟩ := h
  have hnone : Text.breakOn? d.opening.toList text.toList = none := by
    rw [Option.eq_none_iff_forall_ne_some]
    rintro ⟨before, rest⟩ hbreak
    have hmem : c ∈ text.toList := by
      rw [Text.eq_append_of_breakOn? hbreak]
      exact List.mem_append_left _ (List.mem_append_right _ hc)
    rw [htext c hmem] at hother
    cases hother
  rw [Delimiters.opensIn, hnone]
  exact Bool.and_false _

theorem apart_default : ({} : Delimiters).Apart := by
  refine ⟨'$', ?_, by decide⟩
  rw [Delimiters.opening_default]
  exact List.mem_cons_self ..

/-! ## Named configs with other texts -/

theorem Dict.Rewritten.exists_of_get? {α : Type} {r : α → α → Prop} {d d' : Dict α} {key : String}
    {a' : α} (h : d.Rewritten r d') (ha' : d'.get? key = some a') :
    ∃ a, d.get? key = some a ∧ r a a' := by
  have hvalues := h.values key
  rw [ha'] at hvalues
  generalize d.get? key = found at hvalues
  cases hvalues with
  | some hr => exact ⟨_, rfl, hr⟩

namespace Config

open Slug (Written)
open Normalization (identity)

/-- A text in the characters of refs is related to itself only. -/
def KeepsWritten (R : String → String → Prop) : Prop :=
  ∀ old new, Written old → R old new → new = old

variable {X : Type} {x : X → X → Prop} {R : String → String → Prop} {i i' : Identity}

theorem Identity.Rewritten.eq_of_written (h : i.Rewritten R i') (hR : KeepsWritten R)
    (hname : Written i.name) (hreference : Written i.reference) (htag : Written i.tag) :
    i' = i := by
  obtain ⟨name, reference, tag⟩ := i
  obtain ⟨name', reference', tag'⟩ := i'
  obtain rfl : name' = name := hR _ _ hname h.name
  obtain rfl : reference' = reference := hR _ _ hreference h.reference
  obtain rfl : tag' = tag := hR _ _ htag h.tag
  rfl

/-- What is kept of every identity holds of a resource and of its debug block. -/
theorem Resource.Rewritten.identities {p : Identity → Prop} {r r' : Resource X}
    (h : r.Rewritten R x r') (hr : r.Identities p)
    (hp : ∀ i i', p i → i.Rewritten R i' → p i') : r'.Identities p := by
  cases h with
  | plain body => exact ⟨hp _ _ hr.body body.identity, fun debug hdebug => by cases hdebug⟩
  | debug body inner =>
      refine ⟨hp _ _ hr.body body.identity, fun debug hdebug => ?_⟩
      obtain rfl := Option.some.inj hdebug
      have hinner := hr.debug _ rfl
      cases inner with
      | plain body => exact hp _ _ hinner body.identity
      | debug body _ => exact hp _ _ hinner body.identity

/-- The same for the resources of a dictionary. -/
theorem identities_of_rewritten {p : String → Identity → Prop} {d d' : Dict (Resource X)}
    (hd : d.Rewritten (Resource.Rewritten R x) d')
    (hold : ∀ key r, d.get? key = some r → r.Identities (p key))
    (hp : ∀ key ∈ d.keys, ∀ i i', p key i → i.Rewritten R i' → p key i') {key : String}
    {r' : Resource X} (hr' : d'.get? key = some r') : r'.Identities (p key) := by
  obtain ⟨r, hr, hrewritten⟩ := hd.exists_of_get? hr'
  exact hrewritten.identities (hold key r hr) (hp key (Dict.mem_keys_iff.mpr ⟨r, hr⟩))

namespace Component

variable {c c' : Component} {q : Parameter → Parameter → Prop}

theorem Named.written_name (h : c.Named) : Written c.name := by
  have hsplit := h.split
  cases haccount : c.account? with
  | some account =>
      rw [haccount] at hsplit
      obtain ⟨ha, hown, hname⟩ := hsplit
      rw [hname]
      exact (ha.written.append Slug.written_slash).append hown.written
  | none =>
      rw [haccount] at hsplit
      obtain ⟨hown, hname⟩ := hsplit
      rw [hname]
      exact hown.written

theorem Named.written_reference (h : c.Named) : Written c.reference := by
  rw [h.reference_eq]
  exact (h.written_name.append Slug.written_colon).append h.tag.written

theorem Named.written_resourceRef (h : c.Named) {key : String} (hkey : Slug.IsSegment key) :
    Written (c.resourceRef key) := by
  have hpath := (h.written_name.append Slug.written_slash).append hkey.written
  exact (hpath.append Slug.written_colon).append h.tag.written

/-- A named component whose texts are rewritten, but for those in the
characters of refs, has its name, its tag and its refs as before. -/
theorem Named.rewritten (h : c.Named) (hR : KeepsWritten R) (hc : c.RewrittenWith R q c') :
    c'.Named ∧ c'.name = c.name ∧ c'.tag = c.tag := by
  have hname : c'.name = c.name := hR _ _ h.written_name hc.rest.name
  have htag : c'.tag = c.tag := hR _ _ h.tag.written hc.rest.tag
  have hinstance : c'.instanceName = none := by
    have hrel : Option.Rel R c.instanceName c'.instanceName := hc.rest.instanceName
    rw [h.instanceName] at hrel
    exact eq_none_of_rel hrel
  have hidentity : ∀ key, identity c' key = identity c key := by
    intro key
    rw [identity, identity, resourceRef, resourceRef, hname, htag]
  have hkept : ∀ key, Slug.IsSegment key → ∀ i i', i = identity c key →
      i.Rewritten R i' → i' = identity c key := by
    rintro key hkey i i' rfl hi
    exact hi.eq_of_written hR hkey.written (h.written_resourceRef hkey) h.tag.written
  have hstamps : c'.Identities fun key i => i = identity c key :=
    ⟨fun _ _ => identities_of_rewritten hc.rest.services h.stamps.services
        fun key hkey => hkept key (h.serviceKeys key hkey),
      fun _ _ => identities_of_rewritten hc.rest.tasks h.stamps.tasks
        fun key hkey => hkept key (h.taskKeys key hkey)⟩
  refine ⟨?_, hname, htag⟩
  constructor
  case name => exact hname ▸ h.name
  case tag => exact htag ▸ h.tag
  case reference =>
    rw [hR _ _ h.written_reference hc.rest.reference, h.reference_eq, ref, hinstance, hname, htag]
    exact String.append_empty.symm
  case instanceId =>
    have hrel : Option.Rel R c.instanceId c'.instanceId := hc.rest.instanceId
    rw [h.instanceId] at hrel
    exact eq_none_of_rel hrel
  case instanceName => exact hinstance
  case instanceDate => exact hc.rest.instanceDate.symm.trans h.instanceDate
  case serviceKeys =>
    exact fun key hkey => h.serviceKeys key (hc.rest.services.mem_keys_iff.mpr hkey)
  case taskKeys =>
    exact fun key hkey => h.taskKeys key (hc.rest.tasks.mem_keys_iff.mpr hkey)
  case stamps => exact hstamps.imp fun key i hi => hi.trans (hidentity key).symm

end Component

namespace Reader

variable {R : String → String → Prop}

/-- A default is read even where it is not what was written, as a number that
is infinite. -/
theorem survives_defaultOfAny (v : Option Scalar) :
    Survives R (fun value => (optional scalar? value).map some)
      ((v.map Scalar.toJson).getD .null) fun _ => True := by
  intro value' hvalue
  rcases v with _ | b | i | f | text
  · cases hvalue
    exact .pure trivial
  · cases hvalue
    exact .pure trivial
  · cases hvalue
    exact .pure trivial
  · change Json.Rewritten R (if f.isFinite then .float f else .null) value' at hvalue
    split at hvalue
    · cases hvalue
      exact .pure trivial
    · cases hvalue
      exact .pure trivial
  · cases hvalue
    exact .pure trivial

theorem survives_parameterOfAny (p : Parameter) :
    Survives R parameter? p.toJson fun _ => True := by
  refine survives_fields p.record_toJson (by decide) (List.Subset.refl _) fun fs hfs => ?_
  have hdefault : p.toJson.field? "default"
      = p.default.map fun v => (v.map Scalar.toJson).getD .null := by simp [Parameter.toJson]
  have hread : Gives (fieldOr? fs "default" none fun v => (optional scalar? v).map some)
      fun _ => True := by
    refine gives_fieldOr hfs (fun v hv => ?_) fun _ => trivial
    obtain ⟨v, -, rfl⟩ := Option.map_eq_some_iff.mp (hdefault.symm.trans hv)
    exact survives_defaultOfAny v
  have hrequired : p.toJson.field? "required" = p.required.map .bool := by
    simp [Parameter.toJson]
  have hdescription : p.toJson.field? "description" = p.description.map .string := by
    simp [Parameter.toJson]
  exact (gives_bool hfs hrequired).bind fun _ _ => (gives_text hfs hdescription).bind fun _ _ =>
    hread.bind fun _ _ => .pure trivial

end Reader

end Config

/-! ## Interpolating -/

namespace Interpolation

open Config (Component)

variable {s : Scope} {c c' : Component}

theorem keepsWritten_of_apart {d : Delimiters} (h : d.Apart) :
    Config.KeepsWritten fun old new => d.opensIn old = false → new = old :=
  fun _ _ hwritten hkept => hkept (h.opensIn hwritten)

/-- The rendered JSON of a config without a date is read, whatever its
parameters default to. -/
theorem exists_readWith {R : String → String → Prop} (hdate : c.instanceDate = none)
    (h : Keeps s c R) : ∃ c', Config.Reader.component? (s.walk c).1.1 = some c'
      ∧ c.RewrittenWith R (fun _ _ => True) c' := by
  refine Config.Reader.survives_componentWith (fun t ht => ?_)
    (fun _ p _ => Config.Reader.survives_parameterOfAny p) _ ((walked_config s c).result R h.texts)
  cases hdate.symm.trans ht

/-- A config without a date is interpolated if no expression opens in it. -/
theorem exists_of_unopened (hdate : c.instanceDate = none)
    (h : ∀ text ∈ c.toJson.texts, s.delimiters.opensIn text = false) :
    ∃ c', interpolate s c = .ok c' := by
  obtain ⟨read, hread, -⟩ := exists_readWith hdate (keeps_eq h)
  refine ⟨read, ?_⟩
  rw [interpolate_eq hread, walk_faultless h]
  rfl

/-- A named component has the same name, tag and refs when it is interpolated,
if the delimiters cannot stand in them. -/
theorem named_of_interpolate (h : c.Named) (hdelimiters : s.delimiters.Apart)
    (hok : interpolate s c = .ok c') : c'.Named ∧ c'.name = c.name ∧ c'.tag = c.tag := by
  obtain ⟨read, hread, hrewritten⟩ := exists_readWith h.instanceDate (keeps_unopened s c)
  obtain ⟨-, rfl⟩ := eq_of_unlessInvalid ((interpolate_eq hread).symm.trans hok)
  exact h.rewritten (keepsWritten_of_apart hdelimiters) hrewritten

end Interpolation

end Manifest
