import Manifest.Proofs.Slug
/-!
# Reading a slug undoes writing it

The reader of a kind accepts exactly the written forms of the well-formed
slugs of that kind, and of the kinds with a version also the form without the
default tag (`read_eq_ok_iff`). The pieces between `@`, `:` and `/` are the
parts, because no part holds a separator that it is cut at.
-/

namespace Manifest.Slug

variable {s : Slug} {cs : List Char}

/-! ## Paths of names -/

theorem names?_eq_some_iff {names : List String} :
    names? cs = some names ↔ names ≠ [] ∧ (∀ name ∈ names, IsSegment name)
      ∧ cs = ['/'].intercalate (names.map String.toList) := by
  have hall : (Text.splitOn '/' cs).all isName = true
      ↔ ∀ piece ∈ Text.splitOn '/' cs, IsSegment (String.ofList piece) := by
    rw [List.all_eq_true]
    refine forall₂_congr fun piece _ => ?_
    rw [← isNameText_iff, isNameText, String.toList_ofList]
  simp only [names?]
  constructor
  · intro h
    split at h
    · next hpieces =>
        rw [hall] at hpieces
        obtain rfl := Option.some.inj h
        refine ⟨by simp [Text.splitOn_ne_nil], ?_, ?_⟩
        · intro name hname
          obtain ⟨piece, hpiece, rfl⟩ := List.mem_map.mp hname
          exact hpieces piece hpiece
        · simp [List.map_map, Function.comp_def, Text.intercalate_splitOn]
    · cases h
  · rintro ⟨hne, hnames, hcs⟩
    have hcut : Text.splitOn '/' cs = names.map String.toList := by
      refine Text.splitOn_eq_iff.mpr ⟨by simp [hne], ?_, hcs⟩
      intro piece hpiece
      obtain ⟨name, hname, rfl⟩ := List.mem_map.mp hpiece
      exact (hnames name hname).not_mem (by simp)
    rw [hcut] at hall ⊢
    rw [if_pos (hall.mpr fun piece hpiece => ?_)]
    · simp [List.map_map, Function.comp_def]
    · obtain ⟨name, hname, rfl⟩ := List.mem_map.mp hpiece
      rw [String.ofList_toList]
      exact hnames name hname

theorem twoNames?_eq_some_iff {a b : String} :
    twoNames? cs = some (a, b)
      ↔ IsSegment a ∧ IsSegment b ∧ cs = (a ++ "/" ++ b).toList := by
  have hnames : twoNames? cs = some (a, b) ↔ names? cs = some [a, b] := by
    unfold twoNames?
    split
    · next h => simp [h]
    · next hother =>
        refine iff_of_false (by simp) fun h => hother a b h
  rw [hnames, names?_eq_some_iff]
  simp [and_assoc]

theorem threeNames?_eq_some_iff {a b c : String} :
    threeNames? cs = some (a, b, c)
      ↔ IsSegment a ∧ IsSegment b ∧ IsSegment c ∧ cs = (a ++ "/" ++ b ++ "/" ++ c).toList := by
  have hnames : threeNames? cs = some (a, b, c) ↔ names? cs = some [a, b, c] := by
    unfold threeNames?
    split
    · next h => simp [h]
    · next hother =>
        refine iff_of_false (by simp) fun h => hother a b c h
  rw [hnames, names?_eq_some_iff]
  simp [and_assoc]

/-! ## Names of components -/

theorem splitComponentName?_eq_pair_iff {text account name : String} :
    splitComponentName? text = some (some account, name)
      ↔ IsSegment account ∧ IsSegment name ∧ text = account ++ "/" ++ name := by
  have hnames : splitComponentName? text = some (some account, name)
      ↔ names? text.toList = some [account, name] := by
    unfold splitComponentName?
    split
    · next h => simp [h]
    · next h => simp [h]
    · next hother _ =>
        refine iff_of_false (by simp) fun h => hother account name h
  have htext : (account ++ "/" ++ name).toList = account.toList ++ '/' :: name.toList := by simp
  rw [hnames, names?_eq_some_iff, ← String.toList_inj, htext]
  simp [and_assoc]

theorem splitComponentName?_eq_single_iff {text name : String} :
    splitComponentName? text = some (none, name) ↔ IsSegment name ∧ text = name := by
  have hnames : splitComponentName? text = some (none, name)
      ↔ names? text.toList = some [name] := by
    unfold splitComponentName?
    split
    · next h => simp [h]
    · next h => simp [h]
    · next hother =>
        refine iff_of_false (by simp) fun h => hother name h
  rw [hnames, names?_eq_some_iff]
  simp [String.toList_inj]

/-! ## Tags -/

theorem isTag_defaultTag : IsTag defaultTag := isTagText_iff.mp (by decide)

theorem isTagText_ofList {tag : List Char} : isTag tag = true ↔ IsTag (String.ofList tag) := by
  rw [← isTagText_iff, isTagText, String.toList_ofList]

/-- The text is a path, its tag behind a colon and a rest; the default tag may
be left out. -/
def TaggedAs (cs : List Char) (path tag rest : String) : Prop :=
  cs = (path ++ ":" ++ tag ++ rest).toList ∨ tag = defaultTag ∧ cs = (path ++ rest).toList

theorem TaggedAs.append {path tag : String} (h : TaggedAs cs path tag "") (rest : String) :
    TaggedAs (cs ++ rest.toList) path tag rest := by
  rcases h with rfl | ⟨rfl, rfl⟩
  · exact Or.inl (by simp)
  · exact Or.inr ⟨rfl, by simp⟩

theorem TaggedAs.exists_append {path tag rest : String} (h : TaggedAs cs path tag rest) :
    ∃ before, cs = before ++ rest.toList ∧ TaggedAs before path tag "" := by
  rcases h with rfl | ⟨rfl, rfl⟩
  · exact ⟨(path ++ ":" ++ tag).toList, by simp, Or.inl (by simp)⟩
  · exact ⟨path.toList, by simp, Or.inr ⟨rfl, by simp⟩⟩

theorem TaggedAs.not_mem {path tag : String} {c : Char} (h : TaggedAs cs path tag "")
    (hpath : c ∉ path.toList) (htag : c ∉ tag.toList) (hcolon : c ≠ ':') : c ∉ cs := by
  rcases h with rfl | ⟨-, rfl⟩
  · simp [hpath, htag, hcolon]
  · simpa using hpath

theorem tagged?_eq_some_iff {path tag : String} (hpath : ':' ∉ path.toList) :
    tagged? cs = some (path.toList, tag) ↔ IsTag tag ∧ TaggedAs cs path tag "" := by
  have hwith : (path ++ ":" ++ tag ++ "").toList = path.toList ++ ':' :: tag.toList := by simp
  have hwithout : (path ++ "").toList = path.toList := by simp
  rw [TaggedAs, hwith, hwithout]
  unfold tagged?
  constructor
  · intro h
    split at h
    · next before hpieces =>
        obtain ⟨rfl, rfl⟩ := Prod.mk.inj (Option.some.inj h)
        exact ⟨isTag_defaultTag, Or.inr ⟨rfl, (Text.splitOn_eq_singleton_iff.mp hpieces).2⟩⟩
    · next before behind hpieces =>
        split at h
        · next htag =>
            obtain ⟨rfl, rfl⟩ := Prod.mk.inj (Option.some.inj h)
            obtain ⟨-, -, hcs⟩ := Text.splitOn_eq_pair_iff.mp hpieces
            refine ⟨isTagText_ofList.mp htag, Or.inl ?_⟩
            rw [hcs, String.toList_ofList]
        · cases h
    · cases h
  · rintro ⟨htag, rfl | ⟨rfl, rfl⟩⟩
    · have hpieces := Text.splitOn_eq_pair_iff.mpr ⟨hpath, htag.not_mem (by simp), rfl⟩
      have hchars : Slug.isTag tag.toList = true := isTagText_iff.mpr htag
      rw [hpieces]
      dsimp only
      rw [if_pos hchars, String.ofList_toList]
    · rw [Text.splitOn_eq_singleton_iff.mpr ⟨hpath, rfl⟩]

theorem interfacesTag?_eq_some_iff {tag : String} :
    interfacesTag? cs = some tag ↔ IsTag tag ∧ cs = (tag ++ interfacesSuffix).toList := by
  simp only [interfacesTag?, Option.bind_eq_bind, Option.bind_eq_some_iff]
  constructor
  · rintro ⟨rest, hrest, h⟩
    split at h
    · next htag =>
        obtain rfl := Option.some.inj h
        refine ⟨isTagText_ofList.mp htag, ?_⟩
        have hreverse := congrArg List.reverse (Text.eq_append_of_dropStart? hrest)
        rw [List.reverse_reverse, List.reverse_append, List.reverse_reverse] at hreverse
        rw [hreverse, String.toList_append, String.toList_ofList]
    · cases h
  · rintro ⟨htag, rfl⟩
    refine ⟨tag.toList.reverse, ?_, ?_⟩
    · rw [String.toList_append, List.reverse_append]
      exact Text.dropStart?_append _ _
    · have hchars : Slug.isTag tag.toList = true := isTagText_iff.mpr htag
      rw [List.reverse_reverse, if_pos hchars, String.ofList_toList]

/-- A slug with a tag is written with it or, if the tag is the default one,
also without it. -/
theorem taggedAs_iff {text path tag rest : String}
    (hkind : s.kind ∈ versionKinds) (htag : s.tag = some tag)
    (htext : s.text = path ++ ":" ++ tag ++ rest) (hpath : ':' ∉ path.toList)
    (hrest : ':' ∉ rest.toList) :
    TaggedAs text.toList path tag rest ↔ text = s.text ∨ Abbreviates text s := by
  rw [TaggedAs, String.toList_inj, String.toList_inj, htext]
  refine or_congr Iff.rfl ⟨?_, ?_⟩
  · rintro ⟨rfl, rfl⟩
    refine ⟨hkind, htag, path, rest, ?_, rfl⟩
    rw [htext, ← String.toList_inj]
    simp [defaultTag]
  · rintro ⟨-, hdefault, before, after, hcut, rfl⟩
    obtain rfl : tag = "latest" := Option.some.inj (htag.symm.trans hdefault)
    refine ⟨rfl, ?_⟩
    have hlatest : ':' ∉ ("latest" ++ rest).toList := by simp [hrest]
    have hchars : path.toList ++ ':' :: ("latest" ++ rest).toList
        = before.toList ++ ':' :: ("latest" ++ after).toList := by
      have hlists := congrArg String.toList (htext.symm.trans hcut)
      simpa using hlists
    obtain ⟨hbefore, hafter⟩ := Text.append_cons_inj hpath hlatest hchars
    obtain rfl := String.toList_inj.mp hbefore
    have hrest' := String.toList_inj.mp hafter
    obtain rfl : after = rest := by simpa using hrest'
    rfl

/-! ## Versions and environments -/

theorem not_mem_twoNames {a b : String} {c : Char} (ha : IsSegment a) (hb : IsSegment b)
    (hc : c ∈ [':', '@']) : c ∉ (a ++ "/" ++ b).toList := by
  have hsegment : c ∈ ['/', ':', '@'] := List.mem_cons_of_mem _ hc
  have hslash : c ≠ '/' := by
    rintro rfl
    exact absurd hc (by decide)
  simp [ha.not_mem hsegment, hb.not_mem hsegment, hslash]

theorem not_mem_threeNames {a b d : String} {c : Char} (ha : IsSegment a) (hb : IsSegment b)
    (hd : IsSegment d) (hc : c ∈ [':', '@']) : c ∉ (a ++ "/" ++ b ++ "/" ++ d).toList := by
  have htwo := not_mem_twoNames ha hb hc
  have hlast := not_mem_twoNames hb hd hc
  simp only [String.toList_append, List.mem_append, not_or] at htwo hlast ⊢
  exact ⟨⟨htwo, hlast.1.2⟩, hlast.2⟩

theorem environment?_eq_some_iff : environment? cs = some s ↔ ∃ account environment,
    IsSegment account ∧ IsSegment environment ∧ s = ofEnvironment account environment
      ∧ cs = s.text.toList := by
  simp only [environment?, Option.bind_eq_bind, Option.bind_eq_some_iff, Prod.exists,
    twoNames?_eq_some_iff]
  constructor
  · rintro ⟨account, environment, ⟨haccount, henvironment, hcs⟩, hs⟩
    obtain rfl := Option.some.inj hs
    exact ⟨account, environment, haccount, henvironment, rfl, hcs⟩
  · rintro ⟨account, environment, haccount, henvironment, rfl, hcs⟩
    exact ⟨account, environment, ⟨haccount, henvironment, hcs⟩, rfl⟩

theorem serviceVersion?_eq_some_iff : serviceVersion? cs = some s ↔
    ∃ account component service tag, (IsSegment account ∧ IsSegment component
      ∧ IsSegment service ∧ IsTag tag) ∧ s = ofServiceVersion account component service tag
      ∧ TaggedAs cs (account ++ "/" ++ component ++ "/" ++ service) tag "" := by
  simp only [serviceVersion?, Option.bind_eq_bind, Option.bind_eq_some_iff, Prod.exists,
    threeNames?_eq_some_iff]
  constructor
  · rintro ⟨path, tag, htagged, account, component, service, ⟨ha, hc, hsv, rfl⟩, hs⟩
    obtain rfl := Option.some.inj hs
    rw [tagged?_eq_some_iff (not_mem_threeNames ha hc hsv (by simp))] at htagged
    exact ⟨account, component, service, tag, ⟨ha, hc, hsv, htagged.1⟩, rfl, htagged.2⟩
  · rintro ⟨account, component, service, tag, ⟨ha, hc, hsv, ht⟩, rfl, hcs⟩
    refine ⟨_, tag, ?_, account, component, service, ⟨ha, hc, hsv, rfl⟩, rfl⟩
    rw [tagged?_eq_some_iff (not_mem_threeNames ha hc hsv (by simp))]
    exact ⟨ht, hcs⟩

/-! ## Whole slugs -/

theorem ofText?_component {text : String} : ofText? .component text = some s ↔
    ∃ account component, (IsSegment account ∧ IsSegment component)
      ∧ s = ofComponent account component ∧ text = s.text := by
  delta ofText?
  simp only [Option.bind_eq_bind, Option.bind_eq_some_iff, Prod.exists,
    twoNames?_eq_some_iff, String.toList_inj]
  constructor
  · rintro ⟨account, component, ⟨ha, hc, htext⟩, hs⟩
    obtain rfl := Option.some.inj hs
    exact ⟨account, component, ⟨ha, hc⟩, rfl, htext⟩
  · rintro ⟨account, component, ⟨ha, hc⟩, rfl, htext⟩
    exact ⟨account, component, ⟨ha, hc, htext⟩, rfl⟩

theorem ofText?_service {text : String} : ofText? .service text = some s ↔
    ∃ account component service, (IsSegment account ∧ IsSegment component ∧ IsSegment service)
      ∧ s = ofService account component service ∧ text = s.text := by
  delta ofText?
  simp only [Option.bind_eq_bind, Option.bind_eq_some_iff, Prod.exists,
    threeNames?_eq_some_iff, String.toList_inj]
  constructor
  · rintro ⟨account, component, service, ⟨ha, hc, hsv, htext⟩, hs⟩
    obtain rfl := Option.some.inj hs
    exact ⟨account, component, service, ⟨ha, hc, hsv⟩, rfl, htext⟩
  · rintro ⟨account, component, service, ⟨ha, hc, hsv⟩, rfl, htext⟩
    exact ⟨account, component, service, ⟨ha, hc, hsv, htext⟩, rfl⟩

theorem ofText?_gateway {text : String} :
    ofText? .gateway text = some s ↔ s = gateway ∧ text = s.text := by
  delta ofText?
  dsimp only
  constructor
  · intro h
    split at h
    · next htext =>
        obtain rfl := Option.some.inj h
        exact ⟨rfl, htext⟩
    · cases h
  · rintro ⟨rfl, rfl⟩
    exact if_pos rfl

theorem ofText?_componentVersion {text : String} : ofText? .componentVersion text = some s ↔
    ∃ account component tag, (IsSegment account ∧ IsSegment component ∧ IsTag tag)
      ∧ s = ofComponentVersion account component tag
      ∧ TaggedAs text.toList (account ++ "/" ++ component) tag "" := by
  delta ofText?
  simp only [Option.bind_eq_bind, Option.bind_eq_some_iff, Prod.exists,
    twoNames?_eq_some_iff]
  constructor
  · rintro ⟨path, tag, htagged, account, component, ⟨ha, hc, rfl⟩, hs⟩
    obtain rfl := Option.some.inj hs
    rw [tagged?_eq_some_iff (not_mem_twoNames ha hc (by simp))] at htagged
    exact ⟨account, component, tag, ⟨ha, hc, htagged.1⟩, rfl, htagged.2⟩
  · rintro ⟨account, component, tag, ⟨ha, hc, ht⟩, rfl, hcs⟩
    refine ⟨_, tag, ?_, account, component, ⟨ha, hc, rfl⟩, rfl⟩
    rw [tagged?_eq_some_iff (not_mem_twoNames ha hc (by simp))]
    exact ⟨ht, hcs⟩

theorem ofText?_interfaces {text : String} : ofText? .interfaces text = some s ↔
    ∃ account component tag, (IsSegment account ∧ IsSegment component ∧ IsTag tag)
      ∧ s = ofInterfaces account component tag ∧ text = s.text := by
  delta ofText?
  dsimp only
  constructor
  · intro h
    split at h
    · next path suffixed hpieces =>
        simp only [Option.bind_eq_bind, Option.bind_eq_some_iff, Prod.exists,
          twoNames?_eq_some_iff, interfacesTag?_eq_some_iff] at h
        obtain ⟨account, component, ⟨ha, hc, rfl⟩, tag, ⟨ht, rfl⟩, hs⟩ := h
        obtain rfl := Option.some.inj hs
        refine ⟨account, component, tag, ⟨ha, hc, ht⟩, rfl, ?_⟩
        obtain ⟨-, -, htext⟩ := Text.splitOn_eq_pair_iff.mp hpieces
        rw [← String.toList_inj, htext]
        simp [Slug.text, ofInterfaces, componentText, part, tagText]
    · cases h
  · rintro ⟨account, component, tag, ⟨ha, hc, ht⟩, rfl, rfl⟩
    have hsuffix : ':' ∉ (tag ++ interfacesSuffix).toList := by
      simp [interfacesSuffix, ht.not_mem]
    have htext : (ofInterfaces account component tag).text.toList
        = (account ++ "/" ++ component).toList ++ ':' :: (tag ++ interfacesSuffix).toList := by
      simp [Slug.text, ofInterfaces, componentText, part, tagText]
    rw [Text.splitOn_eq_pair_iff.mpr ⟨not_mem_twoNames ha hc (by simp), hsuffix, htext⟩]
    simp only [twoNames?_eq_some_iff.mpr ⟨ha, hc, rfl⟩,
      interfacesTag?_eq_some_iff.mpr ⟨ht, rfl⟩, Option.bind_eq_bind, Option.bind_some]
    rfl

/-- The text of an instance behind its version. -/
def placeText (place environment : String) : String := "@" ++ (place ++ "/" ++ environment)

theorem ofText?_serviceInstance {text : String} : ofText? .serviceInstance text = some s ↔
    ∃ account component service tag place environment,
      (IsSegment account ∧ IsSegment component ∧ IsSegment service ∧ IsTag tag
        ∧ IsSegment place ∧ IsSegment environment)
      ∧ s = ofServiceInstance (ofServiceVersion account component service tag)
        (ofEnvironment place environment)
      ∧ TaggedAs text.toList (account ++ "/" ++ component ++ "/" ++ service) tag
        (placeText place environment) := by
  delta ofText?
  dsimp only
  constructor
  · intro h
    split at h
    · next version suffixed hpieces =>
        simp only [Option.bind_eq_bind, Option.bind_eq_some_iff, serviceVersion?_eq_some_iff,
          environment?_eq_some_iff] at h
        obtain ⟨v, ⟨account, component, service, tag, ⟨ha, hc, hsv, ht⟩, rfl, hversion⟩, e,
          ⟨place, environment, hp, he, rfl, rfl⟩, hs⟩ := h
        obtain rfl := Option.some.inj hs
        obtain ⟨-, -, htext⟩ := Text.splitOn_eq_pair_iff.mp hpieces
        have hplace : '@' :: (ofEnvironment place environment).text.toList
            = (placeText place environment).toList := by
          simp [placeText, Slug.text, environmentText, ofEnvironment, part]
        refine ⟨account, component, service, tag, place, environment,
          ⟨ha, hc, hsv, ht, hp, he⟩, rfl, ?_⟩
        rw [htext, hplace]
        exact hversion.append (placeText place environment)
    · cases h
  · rintro ⟨account, component, service, tag, place, environment, ⟨ha, hc, hsv, ht, hp, he⟩,
      rfl, htagged⟩
    obtain ⟨version, htext, hversion⟩ := htagged.exists_append
    have hpath : '@' ∉ (account ++ "/" ++ component ++ "/" ++ service).toList :=
      not_mem_threeNames ha hc hsv (by simp)
    have hbefore : '@' ∉ version := hversion.not_mem hpath (ht.not_mem (by simp)) (by simp)
    have hbehind : '@' ∉ (place ++ "/" ++ environment).toList :=
      not_mem_twoNames hp he (by simp)
    have hcut : text.toList = version ++ '@' :: (place ++ "/" ++ environment).toList := by
      rw [htext]
      simp [placeText]
    rw [Text.splitOn_eq_pair_iff.mpr ⟨hbefore, hbehind, hcut⟩]
    have hread := serviceVersion?_eq_some_iff.mpr
      ⟨account, component, service, tag, ⟨ha, hc, hsv, ht⟩, rfl, hversion⟩
    have hplace : environment? (place ++ "/" ++ environment).toList
        = some (ofEnvironment place environment) :=
      environment?_eq_some_iff.mpr ⟨place, environment, hp, he, rfl, rfl⟩
    simp only [hread, hplace, Option.bind_eq_bind, Option.bind_some]
    rfl

/-! ## Reading and writing -/

section

variable {text account component service tag place environment : String}

theorem taggedAs_componentVersion (haccount : IsSegment account)
    (hcomponent : IsSegment component) :
    TaggedAs text.toList (account ++ "/" ++ component) tag ""
      ↔ text = (ofComponentVersion account component tag).text
        ∨ Abbreviates text (ofComponentVersion account component tag) := by
  have hkind : (ofComponentVersion account component tag).kind ∈ versionKinds := by
    simp [ofComponentVersion, versionKinds]
  have htext : (ofComponentVersion account component tag).text
      = account ++ "/" ++ component ++ ":" ++ tag ++ "" := by
    rw [String.append_empty]
    rfl
  exact taggedAs_iff hkind rfl htext (not_mem_twoNames haccount hcomponent (by simp)) (by simp)

theorem taggedAs_serviceVersion (haccount : IsSegment account)
    (hcomponent : IsSegment component) (hservice : IsSegment service) :
    TaggedAs text.toList (account ++ "/" ++ component ++ "/" ++ service) tag ""
      ↔ text = (ofServiceVersion account component service tag).text
        ∨ Abbreviates text (ofServiceVersion account component service tag) := by
  have hkind : (ofServiceVersion account component service tag).kind ∈ versionKinds := by
    simp [ofServiceVersion, versionKinds]
  have htext : (ofServiceVersion account component service tag).text
      = account ++ "/" ++ component ++ "/" ++ service ++ ":" ++ tag ++ "" := by
    rw [String.append_empty]
    rfl
  exact taggedAs_iff hkind rfl htext
    (not_mem_threeNames haccount hcomponent hservice (by simp)) (by simp)

theorem taggedAs_serviceInstance (haccount : IsSegment account)
    (hcomponent : IsSegment component) (hservice : IsSegment service) (hplace : IsSegment place)
    (henvironment : IsSegment environment) :
    TaggedAs text.toList (account ++ "/" ++ component ++ "/" ++ service) tag
        (placeText place environment)
      ↔ text = (ofServiceInstance (ofServiceVersion account component service tag)
          (ofEnvironment place environment)).text
        ∨ Abbreviates text (ofServiceInstance (ofServiceVersion account component service tag)
          (ofEnvironment place environment)) := by
  have hkind : (ofServiceInstance (ofServiceVersion account component service tag)
      (ofEnvironment place environment)).kind ∈ versionKinds := by
    simp [ofServiceInstance, versionKinds]
  have htext : (ofServiceInstance (ofServiceVersion account component service tag)
      (ofEnvironment place environment)).text
      = account ++ "/" ++ component ++ "/" ++ service ++ ":" ++ tag
        ++ placeText place environment := by
    rw [placeText, ← String.append_assoc]
    rfl
  have hrest : ':' ∉ (placeText place environment).toList := by
    have hnames : ':' ∉ (place ++ "/" ++ environment).toList :=
      not_mem_twoNames hplace henvironment (by simp)
    rw [placeText, String.toList_append, List.mem_append, not_or]
    exact ⟨by simp, hnames⟩
  exact taggedAs_iff hkind rfl htext
    (not_mem_threeNames haccount hcomponent hservice (by simp)) hrest

end

/-- What is read is a well-formed slug of the kind that was asked for, and the
text is a way to write it. -/
theorem wellFormed_of_ofText? {kind : SlugKind} {text : String}
    (h : ofText? kind text = some s) :
    s.kind = kind ∧ s.WellFormed ∧ (text = s.text ∨ Abbreviates text s) := by
  cases kind with
  | component =>
      obtain ⟨_, _, ⟨ha, hc⟩, rfl, htext⟩ := ofText?_component.mp h
      exact ⟨rfl, .component ha hc, Or.inl htext⟩
  | componentVersion =>
      obtain ⟨_, _, _, ⟨ha, hc, ht⟩, rfl, htagged⟩ := ofText?_componentVersion.mp h
      exact ⟨rfl, .componentVersion ha hc ht, (taggedAs_componentVersion ha hc).mp htagged⟩
  | service =>
      obtain ⟨_, _, _, ⟨ha, hc, hs⟩, rfl, htext⟩ := ofText?_service.mp h
      exact ⟨rfl, .service ha hc hs, Or.inl htext⟩
  | serviceVersion =>
      obtain ⟨_, _, _, _, ⟨ha, hc, hs, ht⟩, rfl, htagged⟩ := serviceVersion?_eq_some_iff.mp h
      exact ⟨rfl, .serviceVersion ha hc hs ht, (taggedAs_serviceVersion ha hc hs).mp htagged⟩
  | environment =>
      obtain ⟨_, _, ha, he, rfl, htext⟩ := environment?_eq_some_iff.mp h
      exact ⟨rfl, .environment ha he, Or.inl (String.toList_inj.mp htext)⟩
  | serviceInstance =>
      obtain ⟨_, _, _, _, _, _, ⟨ha, hc, hs, ht, hp, he⟩, rfl, htagged⟩ :=
        ofText?_serviceInstance.mp h
      exact ⟨rfl, .serviceInstance ha hc hs ht hp he,
        (taggedAs_serviceInstance ha hc hs hp he).mp htagged⟩
  | interfaces =>
      obtain ⟨_, _, _, ⟨ha, hc, ht⟩, rfl, htext⟩ := ofText?_interfaces.mp h
      exact ⟨rfl, .interfaces ha hc ht, Or.inl htext⟩
  | gateway =>
      obtain ⟨rfl, htext⟩ := ofText?_gateway.mp h
      exact ⟨rfl, .gateway, Or.inl htext⟩

/-- Only versions have a shorter form. -/
theorem eq_text_of_kind {text : String} (h : text = s.text ∨ Abbreviates text s)
    (hkind : s.kind ∉ versionKinds) : text = s.text :=
  h.resolve_right fun habbreviates => hkind habbreviates.kind

/-- Every way to write a well-formed slug is read as that slug. -/
theorem ofText?_of_wellFormed {text : String} (h : s.WellFormed)
    (htext : text = s.text ∨ Abbreviates text s) : ofText? s.kind text = some s := by
  cases h with
  | component ha hc =>
      exact ofText?_component.mpr ⟨_, _, ⟨ha, hc⟩, rfl,
        eq_text_of_kind htext (by simp [ofComponent, versionKinds])⟩
  | componentVersion ha hc ht =>
      exact ofText?_componentVersion.mpr ⟨_, _, _, ⟨ha, hc, ht⟩, rfl,
        (taggedAs_componentVersion ha hc).mpr htext⟩
  | service ha hc hs =>
      exact ofText?_service.mpr ⟨_, _, _, ⟨ha, hc, hs⟩, rfl,
        eq_text_of_kind htext (by simp [ofService, versionKinds])⟩
  | serviceVersion ha hc hs ht =>
      exact serviceVersion?_eq_some_iff.mpr ⟨_, _, _, _, ⟨ha, hc, hs, ht⟩, rfl,
        (taggedAs_serviceVersion ha hc hs).mpr htext⟩
  | environment ha he =>
      have hplain := eq_text_of_kind htext (by simp [ofEnvironment, versionKinds])
      exact environment?_eq_some_iff.mpr ⟨_, _, ha, he, rfl, congrArg String.toList hplain⟩
  | serviceInstance ha hc hs ht hp he =>
      exact ofText?_serviceInstance.mpr ⟨_, _, _, _, _, _, ⟨ha, hc, hs, ht, hp, he⟩, rfl,
        (taggedAs_serviceInstance ha hc hs hp he).mpr htext⟩
  | interfaces ha hc ht =>
      exact ofText?_interfaces.mpr ⟨_, _, _, ⟨ha, hc, ht⟩, rfl,
        eq_text_of_kind htext (by simp [ofInterfaces, versionKinds])⟩
  | gateway =>
      exact ofText?_gateway.mpr ⟨rfl, eq_text_of_kind htext (by simp [gateway, versionKinds])⟩

theorem read_eq_ok {kind : SlugKind} {text : String} :
    read kind text = .ok s ↔ ofText? kind text = some s := by
  unfold read
  cases ofText? kind text with
  | none => simp
  | some found => simp

/-- Reading a text as a kind gives exactly the well-formed slugs of the kind
whose written form it is, where a version may be written without the default
tag. So every well-formed slug is read back from its text. -/
theorem read_eq_ok_iff (kind : SlugKind) (text : String) (s : Slug) :
    (read kind text = .ok s
      ↔ s.kind = kind ∧ s.WellFormed ∧ (text = s.text ∨ Abbreviates text s))
    ∧ (s.WellFormed → read s.kind s.text = .ok s) := by
  refine ⟨⟨fun h => wellFormed_of_ofText? (read_eq_ok.mp h), ?_⟩, fun h => ?_⟩
  · rintro ⟨rfl, hwellFormed, htext⟩
    exact read_eq_ok.mpr (ofText?_of_wellFormed hwellFormed htext)
  · exact read_eq_ok.mpr (ofText?_of_wellFormed h (Or.inl rfl))

end Manifest.Slug
