import Manifest.Proofs.Slug.Reader
/-!
# Conversion of slugs

A slug is its kind and what it has of six parts, so converting it to another kind comes
down to selecting the parts of that kind (`select`), and it succeeds if they are there, but
for a tag, which has a default (`convert?_eq`). That makes conversion indifferent
to detours: a slug that was converted before has kept every part that the first kind uses,
and a second conversion cannot tell it from the slug it came from
(`given?_select`, `agree_convert`).
-/

namespace Manifest

/-! ## Parts -/

/-- What a slug may be made of. -/
inductive Slug.Part where
  | account
  | component
  | service
  | tag
  | environmentAccount
  | environment
deriving DecidableEq, Repr

/-- The parts that a kind uses. -/
def SlugKind.parts : SlugKind → List Slug.Part
  | .component => [.account, .component]
  | .componentVersion | .interfaces => [.account, .component, .tag]
  | .service => [.account, .component, .service]
  | .serviceVersion => [.account, .component, .service, .tag]
  | .environment => [.environmentAccount, .environment]
  | .serviceInstance =>
    [.account, .component, .service, .tag, .environmentAccount, .environment]
  | .gateway => []

namespace Slug

variable {s t m r : Slug} {kind via : SlugKind} {p : Part} {v : String}

def get? (s : Slug) : Part → Option String
  | .account => s.account
  | .component => s.component
  | .service => s.service
  | .tag => s.tag
  | .environmentAccount => s.environmentAccount
  | .environment => s.environment

/-- A part of the slug, where a missing tag is the default one. -/
def given? (s : Slug) (p : Part) : Option String :=
  if p = .tag then some s.tagText else s.get? p

def madeOf (kind : SlugKind) (parts : Part → Option String) : Slug where
  kind := kind
  account := parts .account
  component := parts .component
  service := parts .service
  tag := parts .tag
  environmentAccount := parts .environmentAccount
  environment := parts .environment

/-- The parts of the slug that a kind uses, as a slug of that kind. -/
def select (s : Slug) (kind : SlugKind) : Slug :=
  madeOf kind fun p => if p ∈ kind.parts then s.given? p else none

/-- The slug has every part that the kind uses, apart from the tag. -/
def Covers (s : Slug) (kind : SlugKind) : Prop :=
  ∀ p ∈ kind.parts, p ≠ .tag → (s.get? p).isSome

theorem eq_of_parts (hkind : s.kind = t.kind) (h : ∀ p, s.get? p = t.get? p) : s = t := by
  obtain ⟨_, _, _, _, _, _, _⟩ := s
  obtain ⟨_, _, _, _, _, _, _⟩ := t
  rw [Slug.mk.injEq]
  exact ⟨hkind, h .account, h .component, h .service, h .tag, h .environmentAccount,
    h .environment⟩

@[simp] theorem get?_madeOf (kind : SlugKind) (parts : Part → Option String) (p : Part) :
    (madeOf kind parts).get? p = parts p := by
  cases p <;> rfl

theorem get?_select : (s.select kind).get? p = if p ∈ kind.parts then s.given? p else none :=
  get?_madeOf kind _ p

theorem given?_tag : s.given? .tag = some s.tagText := if_pos rfl

theorem given?_of_ne_tag (h : p ≠ .tag) : s.given? p = s.get? p := if_neg h

theorem given?_of_get? (h : s.get? p = some v) : s.given? p = some v := by
  by_cases htag : p = .tag
  · subst htag
    have htext : s.tag = some v := h
    rw [given?_tag, tagText, htext, Option.getD_some]
  · rw [given?_of_ne_tag htag, h]

/-- Every part that the kind uses is there once a tag has its default. -/
theorem Covers.exists_given (h : s.Covers kind) (hp : p ∈ kind.parts) :
    ∃ v, s.given? p = some v := by
  by_cases htag : p = .tag
  · subst htag
    exact ⟨s.tagText, given?_tag⟩
  · rw [given?_of_ne_tag htag]
    exact Option.isSome_iff_exists.mp (h p hp htag)

/-! ## Conversion selects -/

instance : Decidable (s.Covers kind) :=
  inferInstanceAs (Decidable (∀ p ∈ kind.parts, p ≠ .tag → (s.get? p).isSome))

/-- A conversion selects the parts of its kind, if they are there. -/
theorem convert?_eq (s : Slug) (kind : SlugKind) :
    s.convert? kind = if s.Covers kind then some (s.select kind) else none := by
  obtain ⟨_, account, component, service, tag, place, environment⟩ := s
  cases kind with
  | gateway => rfl
  | component | componentVersion | interfaces => cases account <;> cases component <;> rfl
  | service | serviceVersion =>
      cases account <;> cases component <;> cases service <;> rfl
  | environment => cases place <;> cases environment <;> rfl
  | serviceInstance =>
      cases account <;> cases component <;> cases service <;> cases place <;>
        cases environment <;> rfl

theorem convert_eq_ok_iff : s.convert kind = .ok r ↔ s.Covers kind ∧ r = s.select kind := by
  rw [convert, convert?_eq]
  by_cases hcovers : s.Covers kind
  · rw [if_pos hcovers]
    constructor
    · intro h
      exact ⟨hcovers, (Except.ok.inj h).symm⟩
    · rintro ⟨-, rfl⟩
      rfl
  · rw [if_neg hcovers]
    constructor
    · intro h
      cases h
    · rintro ⟨h, -⟩
      exact absurd h hcovers

theorem exists_convert_iff : (∃ r, s.convert kind = .ok r) ↔ s.Covers kind := by
  constructor
  · rintro ⟨r, h⟩
    exact (convert_eq_ok_iff.mp h).1
  · intro h
    exact ⟨s.select kind, convert_eq_ok_iff.mpr ⟨h, rfl⟩⟩

theorem convert_kind (h : s.WellFormed) : s.convert s.kind = .ok s := by
  cases h <;> rfl

/-! ## What is selected is well formed -/

/-- What a part has to look like. -/
def Part.Fits : Part → String → Prop
  | .tag => IsTag
  | .account | .component | .service | .environmentAccount | .environment => IsSegment

theorem WellFormed.fits (h : s.WellFormed) (hv : s.get? p = some v) : p.Fits v := by
  cases h <;> cases p <;> cases hv <;> assumption

theorem WellFormed.fits_given (h : s.WellFormed) (hv : s.given? p = some v) : p.Fits v := by
  cases hpart : s.get? p with
  | some w =>
      rw [given?_of_get? hpart] at hv
      obtain rfl := Option.some.inj hv
      exact h.fits hpart
  | none =>
      by_cases htag : p = .tag
      · subst htag
        have hnone : s.tag = none := hpart
        rw [given?_tag, tagText, hnone, Option.getD_none] at hv
        obtain rfl := Option.some.inj hv
        exact isTag_defaultTag
      · rw [given?_of_ne_tag htag, hpart] at hv
        cases hv

theorem WellFormed.select (h : s.WellFormed) (hcovers : s.Covers kind) :
    (s.select kind).WellFormed := by
  have hpart (p : Part) (hp : p ∈ kind.parts) : ∃ v, s.given? p = some v ∧ p.Fits v := by
    obtain ⟨v, hv⟩ := hcovers.exists_given hp
    exact ⟨v, hv, h.fits_given hv⟩
  cases kind with
  | component =>
      obtain ⟨account, ha, haccount⟩ := hpart .account (by decide)
      obtain ⟨component, hc, hcomponent⟩ := hpart .component (by decide)
      show WellFormed (.mk .component (s.given? .account) (s.given? .component) none none none
        none)
      rw [ha, hc]
      exact .component haccount hcomponent
  | componentVersion =>
      obtain ⟨account, ha, haccount⟩ := hpart .account (by decide)
      obtain ⟨component, hc, hcomponent⟩ := hpart .component (by decide)
      obtain ⟨tag, ht, htag⟩ := hpart .tag (by decide)
      show WellFormed (.mk .componentVersion (s.given? .account) (s.given? .component) none
        (s.given? .tag) none none)
      rw [ha, hc, ht]
      exact .componentVersion haccount hcomponent htag
  | service =>
      obtain ⟨account, ha, haccount⟩ := hpart .account (by decide)
      obtain ⟨component, hc, hcomponent⟩ := hpart .component (by decide)
      obtain ⟨service, hs, hservice⟩ := hpart .service (by decide)
      show WellFormed (.mk .service (s.given? .account) (s.given? .component) (s.given? .service)
        none none none)
      rw [ha, hc, hs]
      exact .service haccount hcomponent hservice
  | serviceVersion =>
      obtain ⟨account, ha, haccount⟩ := hpart .account (by decide)
      obtain ⟨component, hc, hcomponent⟩ := hpart .component (by decide)
      obtain ⟨service, hs, hservice⟩ := hpart .service (by decide)
      obtain ⟨tag, ht, htag⟩ := hpart .tag (by decide)
      show WellFormed (.mk .serviceVersion (s.given? .account) (s.given? .component)
        (s.given? .service) (s.given? .tag) none none)
      rw [ha, hc, hs, ht]
      exact .serviceVersion haccount hcomponent hservice htag
  | environment =>
      obtain ⟨place, hp, hplace⟩ := hpart .environmentAccount (by decide)
      obtain ⟨environment, he, henvironment⟩ := hpart .environment (by decide)
      show WellFormed (.mk .environment none none none none (s.given? .environmentAccount)
        (s.given? .environment))
      rw [hp, he]
      exact .environment hplace henvironment
  | serviceInstance =>
      obtain ⟨account, ha, haccount⟩ := hpart .account (by decide)
      obtain ⟨component, hc, hcomponent⟩ := hpart .component (by decide)
      obtain ⟨service, hs, hservice⟩ := hpart .service (by decide)
      obtain ⟨tag, ht, htag⟩ := hpart .tag (by decide)
      obtain ⟨place, hp, hplace⟩ := hpart .environmentAccount (by decide)
      obtain ⟨environment, he, henvironment⟩ := hpart .environment (by decide)
      show WellFormed (.mk .serviceInstance (s.given? .account) (s.given? .component)
        (s.given? .service) (s.given? .tag) (s.given? .environmentAccount) (s.given? .environment))
      rw [ha, hc, hs, ht, hp, he]
      exact .serviceInstance haccount hcomponent hservice htag hplace henvironment
  | interfaces =>
      obtain ⟨account, ha, haccount⟩ := hpart .account (by decide)
      obtain ⟨component, hc, hcomponent⟩ := hpart .component (by decide)
      obtain ⟨tag, ht, htag⟩ := hpart .tag (by decide)
      show WellFormed (.mk .interfaces (s.given? .account) (s.given? .component) none
        (s.given? .tag) none none)
      rw [ha, hc, ht]
      exact .interfaces haccount hcomponent htag
  | gateway =>
      exact .gateway

/-! ## Conversion by way of another kind -/

/-- Both give the same slug, or both object in the same words, to slugs that may be
written in different ways. -/
inductive Agree : (x y : Except Failure Slug) → Prop
  | ok (r : Slug) : Agree (.ok r) (.ok r)
  | error (text other description : String) :
      Agree (.error (.invalidSlug text description)) (.error (.invalidSlug other description))

theorem given?_congr (h : m.get? p = s.get? p) : m.given? p = s.given? p := by
  cases hpart : s.get? p with
  | some v => rw [given?_of_get? (h.trans hpart), given?_of_get? hpart]
  | none =>
      by_cases htag : p = .tag
      · subst htag
        have htags : m.tag = s.tag := h
        rw [given?_tag, given?_tag, tagText, tagText, htags]
      · rw [given?_of_ne_tag htag, given?_of_ne_tag htag, h]

section

variable (h : ∀ p ∈ kind.parts, m.given? p = s.given? p)
include h

theorem covers_congr : m.Covers kind ↔ s.Covers kind := by
  refine forall₂_congr fun p hp => forall_congr' fun htag => ?_
  rw [← given?_of_ne_tag htag, ← given?_of_ne_tag htag, h p hp]

theorem select_congr : m.select kind = s.select kind := by
  refine eq_of_parts rfl fun p => ?_
  rw [get?_select, get?_select]
  split
  · next hp => exact h p hp
  · rfl

theorem convert?_congr : m.convert? kind = s.convert? kind := by
  rw [convert?_eq, convert?_eq, select_congr h]
  simp only [covers_congr h]

/-- A conversion that fails is blamed on the same kind: an instance has the parts of the
version that is tried first, and its environment. -/
theorem blamedKind_congr : m.blamedKind kind = s.blamedKind kind := by
  by_cases hkind : kind = .serviceInstance
  · subst hkind
    have hversion : m.convert? .serviceVersion = s.convert? .serviceVersion := by
      refine convert?_congr fun p hp => h p ?_
      revert hp
      cases p <;> simp [SlugKind.parts]
    have henvironment : m.environment = s.environment :=
      h .environment (by simp [SlugKind.parts])
    rw [blamedKind, blamedKind, hversion, henvironment]
  · rw [blamedKind, blamedKind, decide_eq_false hkind]
    rfl

theorem agree_convert : Agree (m.convert kind) (s.convert kind) := by
  rw [convert, convert, convert?_congr h, blamedKind_congr h]
  cases s.convert? kind with
  | some r => exact .ok r
  | none => exact .error _ _ _

end

/-- A slug that was converted before is as good as the slug it came from, for a kind that
uses nothing of it that was lost on the way. -/
theorem given?_select (h : p ∈ kind.parts → (s.get? p).isSome → p ∈ via.parts)
    (hp : p ∈ kind.parts) : (s.select via).given? p = s.given? p := by
  by_cases hvia : p ∈ via.parts
  · have hselected : (s.select via).get? p = s.given? p := by
      rw [get?_select, if_pos hvia]
    cases hgiven : s.given? p with
    | some v => exact given?_of_get? (hselected.trans hgiven)
    | none =>
        have htag : p ≠ .tag := by
          rintro rfl
          rw [given?_tag] at hgiven
          cases hgiven
        rw [given?_of_ne_tag htag, hselected, hgiven]
  · have hlost : s.get? p = none := by
      rw [← Option.not_isSome_iff_eq_none]
      exact fun hsome => hvia (h hp hsome)
    refine given?_congr ?_
    rw [get?_select, if_neg hvia, hlost]

/-- A well-formed slug converts to its own kind as itself and to another kind exactly if
it has the parts of that kind apart from the tag. The result is the well-formed slug of that
kind with those parts, and is read back from its text. And where a conversion on the way
keeps what the last one needs, the last one ends as it would have ended without it. -/
theorem convert_selects (h : s.WellFormed) :
    s.convert s.kind = .ok s
      ∧ (∀ kind, (∃ r, s.convert kind = .ok r)
          ↔ ∀ p ∈ kind.parts, p ≠ .tag → (s.get? p).isSome)
      ∧ (∀ kind r, s.convert kind = .ok r →
          r.kind = kind ∧ r.WellFormed ∧ read kind r.text = .ok r
            ∧ ∀ p, r.get? p = if p ∈ kind.parts then s.given? p else none)
      ∧ ∀ via kind m, s.convert via = .ok m →
          (∀ p ∈ kind.parts, (s.get? p).isSome → p ∈ via.parts) →
          Agree (m.convert kind) (s.convert kind) := by
  refine ⟨convert_kind h, fun kind => exists_convert_iff, ?_, ?_⟩
  · intro kind r hr
    obtain ⟨hcovers, rfl⟩ := convert_eq_ok_iff.mp hr
    have hselected := h.select hcovers
    exact ⟨rfl, hselected, read_eq_ok.mpr (ofText?_of_wellFormed hselected (.inl rfl)),
      fun p => get?_select⟩
  · intro via kind m hm hkept
    obtain ⟨-, rfl⟩ := convert_eq_ok_iff.mp hm
    exact agree_convert fun p hp => given?_select (hkept p) hp

/-- A service has all that interfaces need but for the tag; by way of them it loses its
own name, which an environment does not ask for. -/
theorem convert_selects_of_api :
    (ofService "acme" "shop" "api").WellFormed
      ∧ (ofService "acme" "shop" "api").convert .service = .ok (ofService "acme" "shop" "api")
      ∧ read .interfaces (ofInterfaces "acme" "shop" "latest").text
        = .ok (ofInterfaces "acme" "shop" "latest")
      ∧ (¬ ∃ r, (ofService "acme" "shop" "api").convert .serviceInstance = .ok r)
      ∧ Agree ((ofInterfaces "acme" "shop" "latest").convert .environment)
        ((ofService "acme" "shop" "api").convert .environment) := by
  have hformed : (ofService "acme" "shop" "api").WellFormed :=
    .service (isNameText_iff.mp (by decide)) (isNameText_iff.mp (by decide))
      (isNameText_iff.mp (by decide))
  obtain ⟨hself, hdefined, hresult, hdetour⟩ := convert_selects hformed
  refine ⟨hformed, hself, (hresult .interfaces _ rfl).2.2.1, ?_, ?_⟩
  · rw [hdefined .serviceInstance]
    intro hcovers
    exact absurd (hcovers .environment (by decide) (by decide)) (by decide)
  · refine hdetour .interfaces .environment _ rfl ?_
    intro p hp
    cases p with
    | environmentAccount | environment => exact fun hsome => absurd hsome (by decide)
    | account | component | service | tag => exact absurd hp (by decide)

end Slug

end Manifest
