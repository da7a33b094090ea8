import Manifest.Proofs.Slug.Reader
/-!
# Detecting the kind of a slug

A text of unknown kind is tried as one kind after the other. What a kind reads
has as many slashes and colons as what it writes, or lacks the colon of a
default tag, so that no kind reads what a later one has written, except for
interfaces (`interfaces_of_tried`). A slug is therefore detected from its written
form (`detect_canonical`), unless it is a version of a component with the tag of
an interfaces slug.
-/

namespace Manifest

namespace SlugKind

/-- The slashes in the written form of a kind. -/
def slashes : SlugKind → Nat
  | .gateway => 0
  | .component | .componentVersion | .environment | .interfaces => 1
  | .service | .serviceVersion => 2
  | .serviceInstance => 3

/-- The colons in the written form of a kind. -/
def colons : SlugKind → Nat
  | .componentVersion | .serviceVersion | .serviceInstance | .interfaces => 1
  | .component | .service | .environment | .gateway => 0

/-- The kinds that are tried before this one. -/
def tried (kind : SlugKind) : List SlugKind := detectionOrder.takeWhile (· ≠ kind)

theorem exists_detectionOrder {kind : SlugKind} (h : kind ≠ .environment) :
    ∃ later, detectionOrder = kind.tried ++ kind :: later := by
  cases kind with
  | environment => exact absurd rfl h
  | component | componentVersion | service | serviceVersion | serviceInstance | interfaces
    | gateway => exact ⟨_, rfl⟩

theorem mem_all (kind : SlugKind) : kind ∈ all := by
  cases kind <;> simp [all]

end SlugKind

namespace Slug

variable {s : Slug} {text : String}

/-! ## Separators -/

def slashes (text : String) : Nat := text.toList.count '/'

def colons (text : String) : Nat := text.toList.count ':'

@[simp] theorem slashes_append (a b : String) : slashes (a ++ b) = slashes a + slashes b := by
  rw [slashes, String.toList_append, List.count_append]
  rfl

@[simp] theorem colons_append (a b : String) : colons (a ++ b) = colons a + colons b := by
  rw [colons, String.toList_append, List.count_append]
  rfl

@[simp] theorem slashes_slash : slashes "/" = 1 := by simp [slashes]

@[simp] theorem colons_slash : colons "/" = 0 := by simp [colons]

@[simp] theorem slashes_colon : slashes ":" = 0 := by simp [slashes]

@[simp] theorem colons_colon : colons ":" = 1 := by simp [colons]

theorem colons_eq_zero_iff : colons text = 0 ↔ ':' ∉ text.toList := List.count_eq_zero

theorem IsTag.slashes_eq (h : IsTag text) : slashes text = 0 :=
  List.count_eq_zero.mpr (h.not_mem (by simp))

theorem IsTag.colons_eq (h : IsTag text) : colons text = 0 :=
  List.count_eq_zero.mpr (h.not_mem (by simp))

theorem separators_twoNames {a b : String} (ha : IsSegment a) (hb : IsSegment b) :
    slashes (a ++ "/" ++ b) = 1 ∧ colons (a ++ "/" ++ b) = 0 := by
  have hsegment {name : String} (h : IsSegment name) : slashes name = 0 :=
    List.count_eq_zero.mpr (h.not_mem (by simp))
  refine ⟨?_, colons_eq_zero_iff.mpr (not_mem_twoNames ha hb (by simp))⟩
  simp [hsegment ha, hsegment hb]

theorem separators_threeNames {a b c : String} (ha : IsSegment a) (hb : IsSegment b)
    (hc : IsSegment c) :
    slashes (a ++ "/" ++ b ++ "/" ++ c) = 2 ∧ colons (a ++ "/" ++ b ++ "/" ++ c) = 0 := by
  have hfirst := separators_twoNames ha hb
  have hlast := separators_twoNames hb hc
  simp only [slashes_append, colons_append, slashes_slash, colons_slash] at hfirst hlast ⊢
  omega

/-- A tag adds its colon to the separators of a path. -/
theorem separators_tagged (path : String) {tag : String} (ht : IsTag tag) :
    slashes (path ++ ":" ++ tag) = slashes path
      ∧ colons (path ++ ":" ++ tag) = colons path + 1 := by
  simp [ht.slashes_eq, ht.colons_eq]

theorem separators_componentVersion {account component tag : String} (ha : IsSegment account)
    (hc : IsSegment component) (ht : IsTag tag) :
    slashes (ofComponentVersion account component tag).text = 1
      ∧ colons (ofComponentVersion account component tag).text = 1 := by
  have hpath := separators_twoNames ha hc
  have htagged := separators_tagged (account ++ "/" ++ component) ht
  rw [hpath.1, hpath.2] at htagged
  exact htagged

theorem separators_serviceVersion {account component service tag : String}
    (ha : IsSegment account) (hc : IsSegment component) (hs : IsSegment service)
    (ht : IsTag tag) :
    slashes (ofServiceVersion account component service tag).text = 2
      ∧ colons (ofServiceVersion account component service tag).text = 1 := by
  have hpath := separators_threeNames ha hc hs
  have htagged := separators_tagged (account ++ "/" ++ component ++ "/" ++ service) ht
  rw [hpath.1, hpath.2] at htagged
  exact htagged

/-- A slug is written with the separators of its kind. -/
theorem WellFormed.separators (h : s.WellFormed) :
    slashes s.text = s.kind.slashes ∧ colons s.text = s.kind.colons := by
  cases h with
  | component ha hc => exact separators_twoNames ha hc
  | componentVersion ha hc ht => exact separators_componentVersion ha hc ht
  | service ha hc hs => exact separators_threeNames ha hc hs
  | serviceVersion ha hc hs ht => exact separators_serviceVersion ha hc hs ht
  | environment ha he => exact separators_twoNames ha he
  | @serviceInstance account component service tag place environment ha hc hs ht hp he =>
      have hversion := separators_serviceVersion ha hc hs ht
      have hplace := separators_twoNames hp he
      have hat : slashes "@" = 0 ∧ colons "@" = 0 := ⟨by simp [slashes], by simp [colons]⟩
      show slashes ((ofServiceVersion account component service tag).text ++ "@"
          ++ (place ++ "/" ++ environment)) = 3
        ∧ colons ((ofServiceVersion account component service tag).text ++ "@"
          ++ (place ++ "/" ++ environment)) = 1
      rw [slashes_append, slashes_append, colons_append, colons_append]
      omega
  | @interfaces account component tag ha hc ht =>
      have hversion := separators_componentVersion ha hc ht
      have hsuffix : slashes interfacesSuffix = 0 ∧ colons interfacesSuffix = 0 :=
        ⟨by simp [slashes, interfacesSuffix], by simp [colons, interfacesSuffix]⟩
      show slashes ((ofComponentVersion account component tag).text ++ interfacesSuffix) = 1
        ∧ colons ((ofComponentVersion account component tag).text ++ interfacesSuffix) = 1
      rw [slashes_append, colons_append]
      omega
  | gateway =>
      show slashes gatewayText = 0 ∧ colons gatewayText = 0
      exact ⟨by simp [slashes, gatewayText], by simp [colons, gatewayText]⟩

/-- Without its tag, a slug is written with one colon less. -/
theorem Abbreviates.separators (h : Abbreviates text s) :
    slashes text = slashes s.text ∧ colons text + 1 = colons s.text := by
  obtain ⟨before, after, hs, rfl⟩ := h.cut
  have hlatest : slashes ":latest" = 0 ∧ colons ":latest" = 1 :=
    ⟨by simp [slashes], by simp [colons]⟩
  rw [hs]
  simp only [slashes_append, colons_append, hlatest]
  omega

/-! ## What is tried first -/

/-- What a kind reads has the separators of the kind, or lacks the colon of a
tag. -/
theorem separators_of_ofText? {kind : SlugKind} (h : ofText? kind text = some s) :
    slashes text = kind.slashes
      ∧ (colons text = kind.colons ∨ kind ∈ versionKinds ∧ colons text + 1 = kind.colons) := by
  obtain ⟨rfl, hwellFormed, htext⟩ := wellFormed_of_ofText? h
  obtain ⟨hslashes, hcolons⟩ := hwellFormed.separators
  rcases htext with rfl | habbreviates
  · exact ⟨hslashes, Or.inl hcolons⟩
  · have hcut := habbreviates.separators
    exact ⟨hcut.1.trans hslashes, Or.inr ⟨habbreviates.kind, hcut.2.trans hcolons⟩⟩

/-- Among the kinds that are tried before another one, only interfaces read as
many separators as that one writes, namely those of a version of a component. -/
theorem interfaces_of_tried {kind other : SlugKind} (hkind : kind ≠ .environment)
    (hother : other ∈ kind.tried) (hslashes : kind.slashes = other.slashes)
    (hcolons : kind.colons = other.colons
      ∨ other ∈ versionKinds ∧ kind.colons + 1 = other.colons) :
    kind = .componentVersion ∧ other = .interfaces := by
  have hall : SlugKind.all.all (fun kind => kind = .environment || kind.tried.all fun other =>
      !(decide (kind.slashes = other.slashes) && (decide (kind.colons = other.colons)
          || decide (other ∈ versionKinds) && decide (kind.colons + 1 = other.colons)))
        || (kind = .componentVersion && other = .interfaces)) = true := by
    decide
  have hthis := List.all_eq_true.mp hall kind kind.mem_all
  rw [decide_eq_false hkind, Bool.false_or] at hthis
  have hcase := List.all_eq_true.mp hthis other hother
  rcases hcolons with hcolons | ⟨hversion, hcolons⟩
  · simpa [hslashes, hcolons] using hcase
  · simpa [hslashes, hcolons, hversion] using hcase

/-- A slug is detected if its kind reads it, and no kind that is tried before
does. -/
theorem detect_eq_ok_iff : detect text = .ok s ↔ s.kind ≠ .environment
    ∧ ofText? s.kind text = some s ∧ ∀ other ∈ s.kind.tried, ofText? other text = none := by
  have hdetect : detect text = .ok s ↔ detect? text = some s := by
    unfold detect
    cases detect? text with
    | none => simp
    | some found => simp
  rw [hdetect, detect?, List.findSome?_eq_some_iff]
  constructor
  · rintro ⟨earlier, kind, later, horder, hread, hearlier⟩
    obtain ⟨rfl, -⟩ := wellFormed_of_ofText? hread
    have hnew : s.kind ∉ earlier := by
      intro hmem
      rw [hearlier _ hmem] at hread
      cases hread
    have htried : s.kind.tried = earlier := by
      rw [SlugKind.tried, horder, List.takeWhile_append_of_pos, List.takeWhile_cons_of_neg,
        List.append_nil]
      · simp
      · intro other hother
        exact decide_eq_true fun heq => hnew (heq ▸ hother)
    refine ⟨?_, hread, htried ▸ hearlier⟩
    intro henvironment
    rw [henvironment] at horder
    have hmem : SlugKind.environment ∈ SlugKind.detectionOrder := by simp [horder]
    exact absurd hmem (by decide)
  · rintro ⟨hkind, hread, htried⟩
    obtain ⟨later, horder⟩ := SlugKind.exists_detectionOrder hkind
    exact ⟨s.kind.tried, s.kind, later, horder, hread, htried⟩

theorem wellFormed_of_detect (h : detect text = .ok s) : s.WellFormed :=
  (wellFormed_of_ofText? (detect_eq_ok_iff.mp h).2.1).2.1

/-- Only one text is detected as the gateway. -/
theorem kind_ne_gateway (h : detect text = .ok s) (htext : text ≠ gatewayText) :
    s.kind ≠ .gateway := by
  obtain ⟨-, hread, -⟩ := detect_eq_ok_iff.mp h
  intro hkind
  rw [hkind] at hread
  obtain ⟨rfl, heq⟩ := ofText?_gateway.mp hread
  exact htext heq

/-! ## Detecting what is written -/

section

variable {account component tag : String}

theorem text_componentVersion : (ofComponentVersion account component tag).text
    = account ++ "/" ++ component ++ ":" ++ tag := rfl

/-- An interfaces slug is written like a version with a longer tag. -/
theorem text_interfaces : (ofInterfaces account component tag).text
    = (ofComponentVersion account component (tag ++ interfacesSuffix)).text := by
  rw [text_componentVersion, ← String.append_assoc]
  rfl

/-- Where interfaces read a version of a component, its tag ends in the suffix
of interfaces. -/
theorem exists_tag_of_interfaces (h : (ofComponentVersion account component tag).WellFormed)
    (hread : ofText? .interfaces (ofComponentVersion account component tag).text = some s) :
    ∃ own, IsTag own ∧ tag = own ++ interfacesSuffix := by
  obtain ⟨account', component', own, ⟨ha', hc', hown⟩, rfl, htext⟩ := ofText?_interfaces.mp hread
  rw [text_interfaces, text_componentVersion, text_componentVersion] at htext
  cases h with
  | componentVersion ha hc ht =>
      have hpath := not_mem_twoNames ha hc (c := ':') (by simp)
      have htag := ht.not_mem (c := ':') (by simp)
      have hchars : (account ++ "/" ++ component).toList ++ ':' :: tag.toList
          = (account' ++ "/" ++ component').toList ++ ':' :: (own ++ interfacesSuffix).toList := by
        simpa using congrArg String.toList htext
      obtain ⟨-, hown'⟩ := Text.append_cons_inj hpath htag hchars
      exact ⟨own, hown, (String.toList_inj.mp hown').symm⟩

end

/-- What is read from a slug's written form by a kind that is tried before its
own. -/
theorem interfaces_of_reads (h : s.WellFormed) (hkind : s.kind ≠ .environment)
    {other : SlugKind} (hother : other ∈ s.kind.tried) {found : Slug}
    (hread : ofText? other s.text = some found) :
    s.kind = .componentVersion ∧ other = .interfaces := by
  obtain ⟨hslashes, hcolons⟩ := separators_of_ofText? hread
  rw [h.separators.1] at hslashes
  rw [h.separators.2] at hcolons
  exact interfaces_of_tried hkind hother hslashes hcolons

/-- A slug is detected from its written form, unless it is a version of a
component that interfaces read. -/
theorem detect_text (h : s.WellFormed) (hkind : s.kind ≠ .environment)
    (hinterfaces : s.kind = .componentVersion → ofText? .interfaces s.text = none) :
    detect s.text = .ok s := by
  refine detect_eq_ok_iff.mpr ⟨hkind, ofText?_of_wellFormed h (Or.inl rfl), ?_⟩
  intro other hother
  cases hread : ofText? other s.text with
  | none => rfl
  | some found =>
      obtain ⟨hversion, rfl⟩ := interfaces_of_reads h hkind hother hread
      rw [hinterfaces hversion] at hread
      cases hread

/-- A version of a component with the tag of an interfaces slug is detected as
that. -/
theorem detect_text_interfaces {account component tag : String} (htag : IsTag tag)
    (h : (ofComponentVersion account component (tag ++ interfacesSuffix)).WellFormed) :
    detect (ofComponentVersion account component (tag ++ interfacesSuffix)).text
      = .ok (ofInterfaces account component tag) := by
  cases h with
  | componentVersion ha hc _ =>
      rw [← text_interfaces]
      exact detect_text (.interfaces ha hc htag) SlugKind.noConfusion SlugKind.noConfusion

/-- Without a colon, a text that may have a tag has none. -/
theorem TaggedAs.eq_of_colons {path tag rest : String} (h : TaggedAs text.toList path tag rest)
    (hcolons : colons text = 0) : tag = "latest" ∧ text = path ++ rest := by
  rcases h with h | ⟨htag, h⟩
  · rw [String.toList_inj.mp h] at hcolons
    simp only [colons_append, colons_colon] at hcolons
    omega
  · exact ⟨htag, String.toList_inj.mp h⟩

/-- A text other than what its slug is written as is an instance without a tag:
other versions without one are detected as what they are versions of. -/
theorem instance_of_detect (h : detect text = .ok s) (hne : text ≠ s.text) :
    s.kind = .serviceInstance ∧ s.tag = some "latest" ∧ ':' ∉ text.toList
      ∧ text = s.serviceText ++ "@" ++ s.environmentText := by
  obtain ⟨-, hread, htried⟩ := detect_eq_ok_iff.mp h
  obtain ⟨-, hwellFormed, hwritten⟩ := wellFormed_of_ofText? hread
  have habbreviates := hwritten.resolve_left hne
  have hkind : s.kind = .componentVersion ∨ s.kind = .serviceVersion
      ∨ s.kind = .serviceInstance := by
    simpa [versionKinds] using habbreviates.kind
  have hcolons : colons text = 0 := by
    have hone : s.kind.colons = 1 := by
      rcases hkind with hkind | hkind | hkind <;> rw [hkind] <;> rfl
    have hwritten := habbreviates.separators.2.trans hwellFormed.separators.2
    omega
  rcases hkind with hkind | hkind | hkind
  · rw [hkind] at hread htried
    obtain ⟨account, component, tag, ⟨ha, hc, -⟩, rfl, htagged⟩ := ofText?_componentVersion.mp hread
    have htext : text = (ofComponent account component).text :=
      (htagged.eq_of_colons hcolons).2.trans String.append_empty
    have hnone := htried .component (by decide)
    rw [ofText?_component.mpr ⟨account, component, ⟨ha, hc⟩, rfl, htext⟩] at hnone
    cases hnone
  · rw [hkind] at hread htried
    obtain ⟨account, component, service, tag, ⟨ha, hc, hs, -⟩, rfl, htagged⟩ :=
      serviceVersion?_eq_some_iff.mp hread
    have htext : text = (ofService account component service).text :=
      (htagged.eq_of_colons hcolons).2.trans String.append_empty
    have hnone := htried .service (by decide)
    rw [ofText?_service.mpr ⟨account, component, service, ⟨ha, hc, hs⟩, rfl, htext⟩] at hnone
    cases hnone
  · rw [hkind] at hread
    obtain ⟨account, component, service, tag, place, environment, -, rfl, htagged⟩ :=
      ofText?_serviceInstance.mp hread
    obtain ⟨rfl, htext⟩ := htagged.eq_of_colons hcolons
    refine ⟨rfl, rfl, colons_eq_zero_iff.mp hcolons, ?_⟩
    rw [htext, placeText, ← String.append_assoc]
    rfl

/-- An instance with the default tag is written with it in front of its place. -/
theorem text_of_latest (hkind : s.kind = .serviceInstance) (htag : s.tag = some "latest") :
    s.text = s.serviceText ++ ":latest" ++ "@" ++ s.environmentText := by
  rw [← String.toList_inj]
  simp [text, hkind, tagText, htag]

/-- Detecting a slug and writing it gives the text again, but for the tag that
an instance may lack, and the same slug is detected from that. Every well-formed
slug is detected from its written form; environments are not, since they are
written like components, and a version of a component whose tag is that of an
interfaces slug is taken for one. -/
theorem detect_canonical (text : String) (s : Slug) :
    (detect text = .ok s →
      (s.text = text
        ∨ s.kind = .serviceInstance ∧ ':' ∉ text.toList ∧ ∃ version place,
          text = version ++ "@" ++ place ∧ s.text = version ++ ":latest" ++ "@" ++ place)
      ∧ detect s.text = .ok s)
    ∧ (s.WellFormed → s.kind ≠ .environment →
      (∀ account component tag, IsTag tag →
        s = ofComponentVersion account component (tag ++ "-interfaces") →
          detect s.text = .ok (ofInterfaces account component tag))
      ∧ ((∀ tag, IsTag tag → s.kind = .componentVersion → s.tag ≠ some (tag ++ "-interfaces")) →
          detect s.text = .ok s)) := by
  refine ⟨fun h => ?_, fun hwellFormed hkind => ⟨?_, fun htag => ?_⟩⟩
  · by_cases htext : text = s.text
    · rw [← htext]
      exact ⟨Or.inl rfl, h⟩
    · obtain ⟨hinstance, htag, hcolon, hplain⟩ := instance_of_detect h htext
      obtain ⟨hkind, -⟩ := detect_eq_ok_iff.mp h
      refine ⟨Or.inr ⟨hinstance, hcolon, _, _, hplain, text_of_latest hinstance htag⟩,
        detect_text (wellFormed_of_detect h) hkind ?_⟩
      rw [hinstance]
      exact fun hversion => SlugKind.noConfusion hversion
  · rintro account component tag htag rfl
    exact detect_text_interfaces htag hwellFormed
  · refine detect_text hwellFormed hkind fun hversion => ?_
    cases hwellFormed with
    | componentVersion ha hc ht =>
        rw [Option.eq_none_iff_forall_ne_some]
        intro found hread
        obtain ⟨own, hown, heq⟩ := exists_tag_of_interfaces (.componentVersion ha hc ht) hread
        exact htag own hown rfl (congrArg some heq)
    | component | service | serviceVersion | environment | serviceInstance | interfaces
      | gateway => cases hversion

/-- An instance without its tag, and versions of a component with the tag of an
interfaces slug and with another one. -/
theorem detect_canonical_of_shop :
    (∃ s, detect "acme/shop/api@acme/prod" = .ok s ∧ s.text = "acme/shop/api:latest@acme/prod"
      ∧ detect s.text = .ok s)
    ∧ detect (ofComponentVersion "acme" "shop" "v1-interfaces").text
      = .ok (ofInterfaces "acme" "shop" "v1")
    ∧ detect (ofComponentVersion "acme" "shop" "v1").text
      = .ok (ofComponentVersion "acme" "shop" "v1") := by
  have haccount : IsSegment "acme" := isNameText_iff.mp (by decide)
  have hcomponent : IsSegment "shop" := isNameText_iff.mp (by decide)
  have htag : IsTag "v1" := isTagText_iff.mp (by decide)
  have hlong : IsTag "v1-interfaces" := isTagText_iff.mp (by decide)
  refine ⟨?_, ?_, ?_⟩
  · have hdetect : detect "acme/shop/api@acme/prod"
        = .ok (ofServiceInstance (ofServiceVersion "acme" "shop" "api" "latest")
          (ofEnvironment "acme" "prod")) := by
      rfl
    exact ⟨_, hdetect, by decide, ((detect_canonical _ _).1 hdetect).2⟩
  · obtain ⟨hinterfaces, -⟩ := (detect_canonical "" _).2
      (.componentVersion haccount hcomponent hlong) SlugKind.noConfusion
    exact hinterfaces "acme" "shop" "v1" htag rfl
  · obtain ⟨-, hother⟩ := (detect_canonical "" _).2
      (.componentVersion haccount hcomponent htag) SlugKind.noConfusion
    refine hother fun tag _ _ heq => ?_
    have hlength := congrArg String.length (Option.some.inj heq)
    rw [String.length_append] at hlength
    have htwo : "v1".length = 2 := rfl
    have hsuffix : "-interfaces".length = 11 := rfl
    omega

end Slug

end Manifest
