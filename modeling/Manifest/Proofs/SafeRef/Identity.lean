import Manifest.Proofs.SafeRef.Label
/-!
# What a safe ref names

A segment holds no two hyphens in a row and none at its ends, so that the parts
that are joined by two hyphens are found again (`pieces_intercalate`), and so are
they in a ref that nothing has been cut from, with the digest as a part of its own
(`pieces_of_derive`). As each kind has its own number of names, such a ref tells what
its slug names, whatever the digest is (`names_of_readableParts`), and two texts
without a tag that have one ref are one text (`SameNames.text_eq`).
-/

namespace Manifest

namespace Text

variable {sep : Char}

/-- Where two separators meet there is an empty piece. -/
theorem splitOn_intercalate_twice {parts : List (List (List Char))} (hne : parts ≠ [])
    (h : ∀ words ∈ parts, words ≠ [] ∧ ∀ word ∈ words, sep ∉ word) :
    splitOn sep ([sep, sep].intercalate (parts.map [sep].intercalate))
      = [[]].intercalate parts := by
  induction parts with
  | nil => exact absurd rfl hne
  | cons words parts ih =>
      obtain ⟨⟨hwords, hsep⟩, hparts⟩ := List.forall_mem_cons.mp h
      have hsplit : splitOn sep ([sep].intercalate words) = words :=
        splitOn_eq_iff.mpr ⟨hwords, hsep, rfl⟩
      cases parts with
      | nil =>
          rw [List.map_singleton, List.intercalate_singleton, List.intercalate_singleton, hsplit]
      | cons next parts =>
          have hrest := ih (List.cons_ne_nil next parts) hparts
          rw [List.map_cons] at hrest
          have htwice (before after : List Char) : splitOn sep (before ++ [sep, sep] ++ after)
              = splitOn sep before ++ [[]] ++ splitOn sep after := by
            have htwo : before ++ [sep, sep] ++ after = before ++ sep :: ([] ++ sep :: after) := by
              simp
            rw [htwo, splitOn_append_cons, splitOn_append_cons, List.append_assoc]
            rfl
          rw [List.map_cons, List.map_cons, List.intercalate_cons_cons, htwice, hsplit, hrest,
            List.intercalate_cons_cons]

end Text

namespace SafeRef

open Slug (IsSegment)

variable {s s' : Slug} {instanceId : Option String} {limit : Nat} {ref : String}

/-! ## Pieces -/

/-- The texts between two hyphens in a row. -/
def pieces (text : String) : List String :=
  ((Text.splitOn '-' text.toList).splitOn []).map fun words =>
    String.ofList (['-'].intercalate words)

theorem words_of_segment {text : String} (h : IsSegment text) :
    ∀ word ∈ Text.splitOn '-' text.toList, Slug.IsWord word := by
  obtain ⟨words, hne, hwords, htext⟩ := h.joined
  rwa [Slug.splitOn_of_joined hne hwords htext]

/-- Segments are found again in what they are joined to. -/
theorem pieces_intercalate {parts : List String} (hne : parts ≠ [])
    (h : ∀ part ∈ parts, IsSegment part) : pieces (delimiter.intercalate parts) = parts := by
  let cut : String → List (List Char) := fun part => Text.splitOn '-' part.toList
  have hjoined : (delimiter.intercalate parts).toList
      = ['-', '-'].intercalate ((parts.map cut).map ['-'].intercalate) := by
    rw [String.toList_intercalate, List.map_map]
    refine congrArg _ (List.map_congr_left fun part _ => ?_)
    exact (Text.intercalate_splitOn '-' part.toList).symm
  have hwords : ∀ words ∈ parts.map cut, words ≠ [] ∧ ∀ word ∈ words, '-' ∉ word := by
    rw [List.forall_mem_map]
    exact fun part _ => ⟨Text.splitOn_ne_nil '-' _, fun word => Text.not_mem_of_mem_splitOn⟩
  have hempty : ∀ words ∈ parts.map cut, [] ∉ words := by
    rw [List.forall_mem_map]
    exact fun part hpart hmem => (words_of_segment (h part hpart) [] hmem).1 rfl
  have hne' : parts.map cut ≠ [] := by simpa using hne
  rw [pieces, hjoined, Text.splitOn_intercalate_twice hne' hwords,
    List.splitOn_intercalate [] hempty hne', List.map_map]
  refine List.map_id'' (fun part => ?_) parts
  rw [Function.comp_apply, Text.intercalate_splitOn, String.ofList_toList]

/-! ## Refs that are not cut -/

theorem truncate_eq_self {cs : List Char} {budget : Nat}
    (hchars : ∀ c ∈ cs, Slug.isRefChar c = true) (hcs : Edged cs) (hshort : cs.length ≤ budget) :
    truncate budget cs = cs := by
  rw [truncate_eq _ hchars, List.take_of_length_le hshort, List.rdropWhile_eq_self_iff]
  intro hne hhyphen
  refine hcs.stop ?_
  rw [List.getLast?_eq_some_getLast hne, of_decide_eq_true hhyphen]

/-- The segments of a ref: the names of the slug, and the digest. -/
def segments (s : Slug) (instanceId : Option String) : List String :=
  readableParts s
    ++ if hashed s instanceId then [String.ofList (digest s instanceId)] else []

theorem segment_digest (s : Slug) (instanceId : Option String) :
    IsSegment (String.ofList (digest s instanceId)) where
  joined := by
    refine ⟨[digest s instanceId], List.cons_ne_nil _ _, ?_, ?_⟩
    · rw [List.forall_mem_singleton]
      exact ⟨digest_ne_nil s instanceId, fun c hc =>
        Slug.isNameChar_iff.mp (digest_chars s instanceId c hc)⟩
    · rw [List.intercalate_singleton, String.toList_ofList]
  short := by
    rw [String.length_ofList]
    exact (length_digest_le s instanceId).trans (by decide)

/-- A ref that nothing has been cut from is made of its segments. -/
theorem written_eq (h : s.WellFormed) (hkind : s.kind ≠ .gateway)
    (hshort : (readable s).length + reserved s instanceId ≤ limit) :
    String.ofList (written s none instanceId limit)
      = delimiter.intercalate (segments s instanceId) := by
  have hnames := edged_named h hkind
  have hwhole : truncate (limit - reserved s instanceId) (named s none) = named s none :=
    truncate_eq_self (named_chars h none) hnames (by rw [named, String.length_toList]; omega)
  have hreadable : String.ofList (named s none) = delimiter.intercalate (readableParts s) :=
    String.ofList_toList
  rw [written, hwhole, segments]
  split
  · rw [withDigest_of_ne_nil hnames.nonempty, String.ofList_append, String.ofList_append,
      String.ofList_toList, hreadable,
      String.intercalate_append_of_ne_nil (readableParts_ne_nil h hkind) (List.cons_ne_nil _ _),
      String.intercalate_singleton]
  · rw [hreadable, List.append_nil]

theorem pieces_of_derive (h : s.WellFormed) (hkind : s.kind ≠ .gateway)
    (hshort : (readable s).length + reserved s instanceId ≤ limit)
    (href : derive s none instanceId limit = .ok ref) : pieces ref = segments s instanceId := by
  obtain ⟨-, rfl⟩ := (derive_eq_ok_iff hkind).mp href
  have hsegments : ∀ part ∈ segments s instanceId, IsSegment part := by
    rw [segments, List.forall_mem_append]
    refine ⟨h.segments, ?_⟩
    split
    · exact List.forall_mem_singleton.mpr (segment_digest s instanceId)
    · exact List.forall_mem_nil _
  rw [written_eq h hkind hshort]
  exact pieces_intercalate (List.append_ne_nil_of_left_ne_nil (readableParts_ne_nil h hkind) _)
    hsegments

end SafeRef

/-! ## Names -/

namespace Slug

variable {s s' s'' : Slug} {text : String}

/-- Both slugs name the same thing, whatever their kinds and tags are. -/
structure SameNames (s s' : Slug) : Prop where
  account : s.account = s'.account
  component : s.component = s'.component
  service : s.service = s'.service
  environmentAccount : s.environmentAccount = s'.environmentAccount
  environment : s.environment = s'.environment

theorem SameNames.symm (h : SameNames s s') : SameNames s' s :=
  ⟨h.account.symm, h.component.symm, h.service.symm, h.environmentAccount.symm,
    h.environment.symm⟩

theorem SameNames.trans (h : SameNames s s') (h' : SameNames s' s'') : SameNames s s'' :=
  ⟨h.account.trans h'.account, h.component.trans h'.component, h.service.trans h'.service,
    h.environmentAccount.trans h'.environmentAccount, h.environment.trans h'.environment⟩

/-- The slug without a tag that has the given readable parts. -/
def ofParts : List String → Slug
  | [account, component] => ofComponent account component
  | [account, component, service] => ofService account component service
  | [place, environment, account, component, service] =>
    ofServiceInstance (ofService account component service) (ofEnvironment place environment)
  | _ => gateway

theorem sameNames_ofParts (h : s.WellFormed) (hkind : s.kind ≠ .environment) :
    SameNames s (ofParts (SafeRef.readableParts s)) := by
  cases h with
  | environment => exact absurd rfl hkind
  | component | componentVersion | service | serviceVersion | serviceInstance | interfaces
    | gateway => exact ⟨rfl, rfl, rfl, rfl, rfl⟩

/-- Only an environment has as many names as something else. -/
theorem names_of_readableParts (h : s.WellFormed) (h' : s'.WellFormed)
    (hkind : s.kind ≠ .environment) (hkind' : s'.kind ≠ .environment)
    (heq : SafeRef.readableParts s = SafeRef.readableParts s') : SameNames s s' :=
  (sameNames_ofParts h hkind).trans (heq ▸ (sameNames_ofParts h' hkind').symm)

/-- Something with the names of a slug, and a tag if the slug has one, is detected
from its written form. -/
theorem exists_detect_text (h : s.WellFormed) (hkind : s.kind ≠ .environment) :
    ∃ found, detect s.text = .ok found ∧ SameNames found s
      ∧ found.tag.isSome = s.tag.isSome := by
  by_cases hinterfaces : s.kind = .componentVersion → ofText? .interfaces s.text = none
  · exact ⟨s, detect_text h hkind hinterfaces, ⟨rfl, rfl, rfl, rfl, rfl⟩, rfl⟩
  · obtain ⟨hversion, hread⟩ := Classical.not_imp.mp hinterfaces
    obtain ⟨found, hfound⟩ := Option.ne_none_iff_exists'.mp hread
    cases h with
    | componentVersion ha hc ht =>
        obtain ⟨own, hown, rfl⟩ := exists_tag_of_interfaces (.componentVersion ha hc ht) hfound
        exact ⟨_, detect_text_interfaces hown (.componentVersion ha hc ht),
          ⟨rfl, rfl, rfl, rfl, rfl⟩, rfl⟩
    | component | service | serviceVersion | environment | serviceInstance | interfaces
      | gateway => cases hversion

theorem text_ne_gatewayText (h : s.WellFormed) (hkind : s.kind ≠ .gateway) :
    s.text ≠ gatewayText := by
  have hslashes : 0 < slashes s.text := by
    rw [h.separators.1]
    cases h with
    | gateway => exact absurd rfl hkind
    | component | componentVersion | service | serviceVersion | environment | serviceInstance
      | interfaces => exact Nat.succ_pos _
  have hgateway : slashes gatewayText = 0 := WellFormed.gateway.separators.1
  intro heq
  rw [heq, hgateway] at hslashes
  exact Nat.lt_irrefl 0 hslashes

/-! ## Texts without a tag -/

/-- A slug that is detected from a text without a colon is a component, a service or
an instance with the default tag. -/
theorem cases_of_untagged (h : detect text = .ok s) (hgateway : text ≠ gatewayText)
    (hcolon : ':' ∉ text.toList) :
    (∃ account component, s = ofComponent account component ∧ text = s.componentText)
    ∨ (∃ account component service, s = ofService account component service ∧ text = s.serviceText)
    ∨ ∃ account component service place environment,
      s = ofServiceInstance (ofServiceVersion account component service "latest")
        (ofEnvironment place environment) ∧ text = s.serviceText ++ "@" ++ s.environmentText := by
  have hwellFormed := wellFormed_of_detect h
  by_cases htext : text = s.text
  · have hcolons : s.kind.colons = 0 := by
      rw [← hwellFormed.separators.2, ← htext]
      exact colons_eq_zero_iff.mpr hcolon
    cases hwellFormed with
    | component => exact Or.inl ⟨_, _, rfl, htext⟩
    | service => exact Or.inr (Or.inl ⟨_, _, _, rfl, htext⟩)
    | environment => exact absurd rfl (detect_eq_ok_iff.mp h).1
    | gateway => exact absurd htext hgateway
    | componentVersion | serviceVersion | serviceInstance | interfaces => cases hcolons
  · obtain ⟨hkind, htag, -, hplain⟩ := instance_of_detect h htext
    cases hwellFormed with
    | serviceInstance =>
        obtain rfl := Option.some.inj htag
        exact Or.inr (Or.inr ⟨_, _, _, _, _, rfl, hplain⟩)
    | component | componentVersion | service | serviceVersion | environment | interfaces
      | gateway => cases hkind

theorem isSome_tag_of_colon (h : detect text = .ok s) (hcolon : ':' ∈ text.toList) :
    s.tag.isSome = true := by
  have hwellFormed := wellFormed_of_detect h
  have hcolons : 0 < s.kind.colons := by
    have hpositive : 0 < colons text := List.count_pos_iff.mpr hcolon
    obtain ⟨-, hread, -⟩ := detect_eq_ok_iff.mp h
    obtain ⟨-, hcolons⟩ := separators_of_ofText? hread
    omega
  cases hwellFormed with
  | componentVersion | serviceVersion | serviceInstance | interfaces => rfl
  | component | service | environment | gateway => exact absurd hcolons (Nat.lt_irrefl 0)

theorem not_colon_of_detect (h : detect text = .ok s) (htag : s.tag = none) :
    ':' ∉ text.toList := by
  intro hcolon
  have hsome := isSome_tag_of_colon h hcolon
  rw [htag] at hsome
  cases hsome

/-- A slug without its tag, as it may be written. -/
def untagged (s : Slug) : String :=
  if s.environment.isSome then s.serviceText ++ "@" ++ s.environmentText
  else if s.service.isSome then s.serviceText else s.componentText

theorem untagged_of_detect (h : detect text = .ok s) (hgateway : text ≠ gatewayText)
    (hcolon : ':' ∉ text.toList) : text = s.untagged := by
  obtain ⟨_, _, rfl, htext⟩ | ⟨_, _, _, rfl, htext⟩ | ⟨_, _, _, _, _, rfl, htext⟩ :=
    cases_of_untagged h hgateway hcolon
  · exact htext
  · exact htext
  · exact htext

theorem SameNames.readableParts_eq (h : SameNames s s') :
    SafeRef.readableParts s = SafeRef.readableParts s' := by
  simp only [SafeRef.readableParts, h.account, h.component, h.service, h.environmentAccount,
    h.environment]

theorem SameNames.untagged_eq (h : SameNames s s') : s.untagged = s'.untagged := by
  simp only [untagged, serviceText, componentText, environmentText, h.account, h.component,
    h.service, h.environmentAccount, h.environment]

/-- Texts without a tag that name the same thing are one text. -/
theorem SameNames.text_eq {text' : String} (h : SameNames s s') (hdetect : detect text = .ok s)
    (hdetect' : detect text' = .ok s') (hgateway : text ≠ gatewayText)
    (hgateway' : text' ≠ gatewayText) (hcolon : ':' ∉ text.toList)
    (hcolon' : ':' ∉ text'.toList) : text = text' := by
  rw [untagged_of_detect hdetect hgateway hcolon, h.untagged_eq,
    ← untagged_of_detect hdetect' hgateway' hcolon']

end Slug

namespace SafeRef

open Slug (SameNames)

variable {s s' : Slug} {instanceId instanceId' : Option String} {limit : Nat} {ref : String}

/-- The same ref with or without a digest comes from the same names. -/
theorem sameNames_of_segments (h : s.WellFormed) (h' : s'.WellFormed)
    (hkind : s.kind ≠ .environment) (hkind' : s'.kind ≠ .environment)
    (hhashed : hashed s instanceId = hashed s' instanceId')
    (heq : segments s instanceId = segments s' instanceId') : SameNames s s' := by
  refine Slug.names_of_readableParts h h' hkind hkind' (List.append_inj_left' heq ?_)
  rw [hhashed]
  cases hashed s' instanceId' <;> simp

theorem length_segments (s : Slug) (instanceId : Option String) :
    (segments s instanceId).length
      = (readableParts s).length + if hashed s instanceId then 1 else 0 := by
  rw [segments, List.length_append]
  split <;> rfl

/-- Only an instance without a written tag has more than three segments, so that two
texts without a tag that have one ref both have a digest or both have none. -/
theorem hashed_of_untagged {text : String} (h : Slug.detect text = .ok s)
    (hgateway : text ≠ Slug.gatewayText) (hcolon : ':' ∉ text.toList) :
    hashed s none = decide (3 < (segments s none).length) := by
  obtain ⟨_, _, rfl, -⟩ | ⟨_, _, _, rfl, -⟩ | ⟨_, _, _, _, _, rfl, -⟩ :=
    Slug.cases_of_untagged h hgateway hcolon
  · rw [length_segments]
    rfl
  · rw [length_segments]
    rfl
  · rw [length_segments]
    rfl

/-- What two texts of one ref name, where both have a tag or neither has, and nothing
has been cut from the ref. -/
theorem sameNames_of_ofText {text text' : String} (hgateway : text ≠ Slug.gatewayText)
    (hgateway' : text' ≠ Slug.gatewayText) (hdetect : Slug.detect text = .ok s)
    (hdetect' : Slug.detect text' = .ok s')
    (htags : s.tag.isSome = s'.tag.isSome ∨ (':' ∈ text.toList ↔ ':' ∈ text'.toList))
    (hshort : (readable s).length + reserved s none ≤ limit)
    (hshort' : (readable s').length + reserved s' none ≤ limit)
    (href : ofText text none limit = .ok ref) (href' : ofText text' none limit = .ok ref) :
    SameNames s s' := by
  have hwellFormed := Slug.wellFormed_of_detect hdetect
  have hwellFormed' := Slug.wellFormed_of_detect hdetect'
  rw [ofText_eq_derive hgateway hdetect] at href
  rw [ofText_eq_derive hgateway' hdetect'] at href'
  have hsegments : segments s none = segments s' none :=
    (pieces_of_derive hwellFormed (Slug.kind_ne_gateway hdetect hgateway) hshort href).symm.trans
      (pieces_of_derive hwellFormed' (Slug.kind_ne_gateway hdetect' hgateway') hshort' href')
  have hhashed : hashed s none = hashed s' none := by
    rcases htags with htags | hcolons
    · rw [hashed, hashed, htags]
    · by_cases hcolon : ':' ∈ text.toList
      · rw [hashed, hashed, Slug.isSome_tag_of_colon hdetect hcolon,
          Slug.isSome_tag_of_colon hdetect' (hcolons.mp hcolon)]
      · rw [hashed_of_untagged hdetect hgateway hcolon,
          hashed_of_untagged hdetect' hgateway' (hcolons.not.mp hcolon), hsegments]
  exact sameNames_of_segments hwellFormed hwellFormed' (Slug.detect_eq_ok_iff.mp hdetect).1
    (Slug.detect_eq_ok_iff.mp hdetect').1 hhashed hsegments

end SafeRef

end Manifest
