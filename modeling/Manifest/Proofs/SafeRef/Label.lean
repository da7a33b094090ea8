import Manifest.Proofs.SafeRef
/-!
# Safe refs are labels

A ref that is derived within a length is a label of a domain name of at most that
length (`label_of_detect`). A cut may fall inside a name, inside a delimiter or
behind one, but the hyphens that it leaves at the end go, and the first name
starts with a letter or a digit. Of the digest no more is needed than that a part
of it is there: the encoding of sixteen bytes holds a letter, whatever they are
(`Base64.exists_letter`).
-/

namespace Manifest

/-! ## The digest -/

theorem Md5.length_digest (message : List UInt8) : (digest message).length = 16 := by
  simp [digest, lowBytes]

/-- A last group of one byte is encoded with one of four letters. -/
theorem Base64.exists_letter : ∀ {bytes : List UInt8}, bytes.length % 3 = 1 →
    ∃ c ∈ encode bytes, c ∈ ['A', 'Q', 'g', 'w']
  | [a], _ => by
      have hfour : a.toNat * 65536 / 4096 % 64 = 0 ∨ a.toNat * 65536 / 4096 % 64 = 16
          ∨ a.toNat * 65536 / 4096 % 64 = 32 ∨ a.toNat * 65536 / 4096 % 64 = 48 := by
        omega
      refine ⟨symbol (a.toNat * 65536 / 4096), by simp [encode], ?_⟩
      rw [symbol, alphabet_eq]
      rcases hfour with h | h | h | h <;> rw [h] <;> simp
  | a :: b :: c :: rest, h => by
      have hrest : rest.length % 3 = 1 := by
        simp only [List.length_cons] at h
        omega
      obtain ⟨letter, hmem, hletter⟩ := exists_letter hrest
      refine ⟨letter, ?_, hletter⟩
      rw [encode]
      simp [hmem]

namespace SafeRef

open Slug (IsSegment NameChar isNameChar isNameChar_iff isRefChar)

theorem digestText_ne_nil (text : String) : digestText text ≠ [] := by
  have hlength : (Md5.digest text.toUTF8.toList).length % 3 = 1 := by rw [Md5.length_digest]
  obtain ⟨letter, hmem, hletter⟩ := Base64.exists_letter hlength
  have hkept : letter.toLower ∈ digestText text := by
    refine List.mem_filter.mpr ⟨List.mem_map_of_mem hmem, ?_⟩
    have hall : ['A', 'Q', 'g', 'w'].all (fun c =>
        c.toLower ≠ '/' && c.toLower ≠ '+' && c.toLower ≠ '=') = true := by
      decide
    exact List.all_eq_true.mp hall letter hletter
  exact List.ne_nil_of_mem hkept

/-- A digest is there, and no more of it than fits. -/
theorem digest_ne_nil (s : Slug) (instanceId : Option String) : digest s instanceId ≠ [] := by
  intro hnil
  rcases List.take_eq_nil_iff.mp hnil with h | h
  · exact absurd h (by decide)
  · exact digestText_ne_nil _ h

theorem length_digest_le (s : Slug) (instanceId : Option String) :
    (digest s instanceId).length ≤ digestLength :=
  List.length_take_le ..

/-! ## Ends -/

/-- Something that neither starts nor ends with a hyphen. -/
structure Edged (cs : List Char) : Prop where
  nonempty : cs ≠ []
  start : cs.head? ≠ some '-'
  stop : cs.getLast? ≠ some '-'

theorem Edged.of_nameChars {cs : List Char} (hne : cs ≠ [])
    (hchars : ∀ c ∈ cs, isNameChar c = true) : Edged cs := by
  have hnot : '-' ∉ cs := fun hmem => absurd (hchars '-' hmem) (by decide)
  exact ⟨hne, fun h => hnot (List.mem_of_head? h), fun h => hnot (List.mem_of_getLast? h)⟩

theorem Edged.append {first last : List Char} (hfirst : Edged first) (between : List Char)
    (hlast : Edged last) : Edged (first ++ between ++ last) where
  nonempty := List.append_ne_nil_of_right_ne_nil _ hlast.nonempty
  start := by
    rw [List.append_assoc, List.head?_append_of_ne_nil _ hfirst.nonempty]
    exact hfirst.start
  stop := by
    rw [List.getLast?_append_of_ne_nil _ hlast.nonempty]
    exact hlast.stop

/-- The ends of what is joined are ends of its parts. -/
theorem edged_intercalate (sep : List Char) {parts : List (List Char)} (hne : parts ≠ [])
    (h : ∀ part ∈ parts, Edged part) : Edged (sep.intercalate parts) := by
  induction parts with
  | nil => exact absurd rfl hne
  | cons part parts ih =>
      obtain ⟨hpart, hparts⟩ := List.forall_mem_cons.mp h
      cases parts with
      | nil => rwa [List.intercalate_singleton]
      | cons next parts =>
          rw [List.intercalate_cons_cons]
          exact hpart.append sep (ih (List.cons_ne_nil next parts) hparts)

theorem edged_of_segment {text : String} (h : IsSegment text) : Edged text.toList := by
  obtain ⟨words, hne, hwords, htext⟩ := h.joined
  rw [htext]
  exact edged_intercalate _ hne fun word hword =>
    have hword := hwords word hword
    .of_nameChars hword.1 fun c hc => isNameChar_iff.mpr (hword.2 c hc)

variable {s : Slug} {friendlyName instanceId : Option String} {limit : Nat} {ref : String}

theorem readableParts_ne_nil (h : s.WellFormed) (hkind : s.kind ≠ .gateway) :
    readableParts s ≠ [] := by
  cases h with
  | gateway => exact absurd rfl hkind
  | component | componentVersion | service | serviceVersion | environment | serviceInstance
    | interfaces => exact List.cons_ne_nil _ _

/-- The names of a slug end where a segment does. -/
theorem edged_named (h : s.WellFormed) (hkind : s.kind ≠ .gateway) : Edged (named s none) := by
  rw [named, readable, String.toList_intercalate]
  refine edged_intercalate _ (by simpa using readableParts_ne_nil h hkind) ?_
  rw [List.forall_mem_map]
  exact fun part hpart => edged_of_segment (h.segments part hpart)

/-! ## Cutting -/

theorem utf8Size_of_isRefChar {c : Char} (h : isRefChar c = true) : c.utf8Size = 1 := by
  have hbound : c.val ≤ 'z'.val := by
    rw [isRefChar, Bool.or_eq_true, isNameChar_iff] at h
    rcases h with (⟨-, hz⟩ | ⟨-, hnine⟩) | hhyphen
    · exact hz
    · exact UInt32.le_trans hnine (by decide)
    · rw [of_decide_eq_true hhyphen]
      decide
  exact Char.utf8Size_eq_one_iff.mpr (UInt32.le_trans hbound (by decide))

theorem cutBytes_go_eq_take : ∀ {cs : List Char} {budget : Nat},
    (∀ c ∈ cs, isRefChar c = true) → cutBytes.go budget cs = some (cs.take budget)
  | _, 0, _ => by rw [cutBytes.go, List.take_zero]
  | [], _ + 1, _ => by rw [cutBytes_go_nil, List.take_nil]
  | c :: cs, budget + 1, h => by
      obtain ⟨hc, hcs⟩ := List.forall_mem_cons.mp h
      rw [cutBytes.go, utf8Size_of_isRefChar hc, if_pos (by omega), Nat.add_sub_cancel,
        cutBytes_go_eq_take hcs, List.take_succ_cons, Option.map_some]

section

variable {cs : List Char} (budget : Nat) (hchars : ∀ c ∈ cs, isRefChar c = true)
include hchars

/-- Characters of a ref take one byte each, so that none lies across a cut. -/
theorem truncate_eq : truncate budget cs = (cs.take budget).rdropWhile isHyphen := by
  rw [truncate, cutBytes, cutBytes_go_eq_take hchars, Text.dropTrailing_eq_rdropWhile]

theorem length_truncate_le : (truncate budget cs).length ≤ budget := by
  rw [truncate_eq budget hchars]
  have hprefix := List.rdropWhile_prefix isHyphen (cs.take budget)
  exact hprefix.length_le.trans (List.length_take_le ..)

/-- What is left after a cut starts as before. -/
theorem edged_truncate (hstart : cs.head? ≠ some '-') (hne : truncate budget cs ≠ []) :
    Edged (truncate budget cs) where
  nonempty := hne
  start := by
    obtain ⟨rest, hrest⟩ := truncate_isPrefix budget cs
    rwa [← hrest, List.head?_append_of_ne_nil _ hne] at hstart
  stop := by
    rw [truncate_eq budget hchars] at hne ⊢
    have hnot := List.rdropWhile_last_not isHyphen _ hne
    rw [List.getLast?_eq_some_getLast hne]
    exact fun h => hnot (decide_eq_true (Option.some.inj h))

/-- Something is left, as there is a first character that is no hyphen. -/
theorem truncate_ne_nil (hne : cs ≠ []) (hstart : cs.head? ≠ some '-') (hbudget : 0 < budget) :
    truncate budget cs ≠ [] := by
  rw [truncate_eq budget hchars, Ne, List.rdropWhile_eq_nil_iff]
  intro hall
  cases cs with
  | nil => exact hne rfl
  | cons first cs =>
      obtain ⟨budget, rfl⟩ := Nat.exists_eq_succ_of_ne_zero hbudget.ne'
      have hfirst : isHyphen first = true := hall first (List.mem_cons_self ..)
      exact hstart (congrArg some (of_decide_eq_true hfirst))

end

/-! ## Labels -/

/-- A label of a domain name within a limit. -/
structure IsLabel (limit : Nat) (cs : List Char) : Prop extends Edged cs where
  short : cs.length ≤ limit
  chars : ∀ c ∈ cs, NameChar c ∨ c = '-'

theorem isRefChar_iff {c : Char} : isRefChar c = true ↔ NameChar c ∨ c = '-' := by
  rw [isRefChar, Bool.or_eq_true, isNameChar_iff, decide_eq_true_iff]

/-- A digest has the ends of a label, with or without a name in front of it. -/
theorem edged_withDigest {name digest : List Char} (hname : name ≠ [] → Edged name)
    (hdigest : Edged digest) : Edged (withDigest name digest) := by
  by_cases hempty : name = []
  · rwa [hempty, withDigest_nil]
  · rw [withDigest_of_ne_nil hempty]
    exact (hname hempty).append _ hdigest

theorem length_withDigest_le (name digest : List Char) :
    (withDigest name digest).length ≤ name.length + delimiter.length + digest.length := by
  by_cases hempty : name = []
  · rw [hempty, withDigest_nil]
    exact Nat.le_add_left ..
  · rw [withDigest_of_ne_nil hempty, List.length_append, List.length_append, String.length_toList]

theorem head?_trimmed (cs : List Char) :
    (Text.dropTrailing isHyphen (cs.dropWhile isHyphen)).head? ≠ some '-' := by
  intro hhead
  obtain ⟨rest, hrest⟩ := Text.dropTrailing_isPrefix isHyphen (cs.dropWhile isHyphen)
  have hne := List.ne_nil_of_mem (List.mem_of_head? hhead)
  have hnot := List.head?_dropWhile_not isHyphen cs
  rw [← hrest, List.head?_append_of_ne_nil _ hne, hhead] at hnot
  exact Bool.noConfusion hnot

/-- No name starts with a hyphen: a friendly one loses those it has. -/
theorem named_start (h : s.WellFormed) (hkind : s.kind ≠ .gateway)
    (friendlyName : Option String) : (named s friendlyName).head? ≠ some '-' := by
  cases friendlyName with
  | none => exact (edged_named h hkind).start
  | some name => exact head?_trimmed _

/-- What is derived within a limit is a label, if there is a name or a digest to
derive it from. -/
theorem label_of_derive (h : s.WellFormed) (hkind : s.kind ≠ .gateway)
    (hnamed : named s friendlyName ≠ [] ∨ hashed s instanceId = true)
    (hderive : derive s friendlyName instanceId limit = .ok ref) : IsLabel limit ref.toList := by
  obtain ⟨hroom, rfl⟩ := (derive_eq_ok_iff hkind).mp hderive
  have hchars := named_chars h friendlyName
  have hstart := named_start h hkind friendlyName
  have hcut := edged_truncate (limit - reserved s instanceId) hchars hstart
  have hshort := length_truncate_le (limit - reserved s instanceId) hchars
  rw [String.toList_ofList]
  refine ⟨?_, ?_, fun c hc => isRefChar_iff.mp (written_chars h _ _ _ c hc)⟩
  · rw [written]
    split
    · exact edged_withDigest hcut
        (.of_nameChars (digest_ne_nil s instanceId) (digest_chars s instanceId))
    · next hplain =>
        exact hcut (truncate_ne_nil _ hchars (hnamed.resolve_right hplain) hstart
          (Nat.sub_pos_of_lt hroom))
  · rw [written]
    split
    · next hhashed =>
        have hdigest := length_digest_le s instanceId
        have hreserved : reserved s instanceId = delimiter.length + digestLength := if_pos hhashed
        refine (length_withDigest_le ..).trans ?_
        omega
    · exact hshort.trans (Nat.sub_le ..)

theorem reserved_none (s : Slug) : reserved s none = if s.tag.isSome then 9 else 0 := by
  rw [reserved, hashed, Option.isSome_none, Bool.or_false]
  rfl

theorem reserved_named? (s : Slug) (instanceId : String) :
    reserved s (named? instanceId) = if s.tag.isSome ∨ instanceId ≠ "" then 9 else 0 := by
  have hsome : (named? instanceId).isSome = true ↔ instanceId ≠ "" := by
    by_cases hempty : instanceId = "" <;> simp [named?, hempty]
  simp only [reserved, hashed, Bool.or_eq_true, hsome]
  rfl

/-- There is a ref of a slug, and of an instance of it, exactly if the limit leaves
some room beside the digest and its delimiter, or any room where there is no digest;
and it is then a label within the limit. -/
theorem label_of_detect (text instanceId : String) (limit : Nat) (s : Slug)
    (hgateway : text ≠ "gateway") (hdetect : Slug.detect text = .ok s) :
    ((∃ ref, ofText text none limit = .ok ref) ↔ (if s.tag.isSome then 9 else 0) < limit)
    ∧ ((∃ ref, ofInstance text instanceId limit = .ok ref) ↔
      (if s.tag.isSome ∨ instanceId ≠ "" then 9 else 0) < limit)
    ∧ ∀ ref, ofText text none limit = .ok ref ∨ ofInstance text instanceId limit = .ok ref →
      IsLabel limit ref.toList := by
  have hwellFormed := Slug.wellFormed_of_detect hdetect
  have hkind := Slug.kind_ne_gateway hdetect hgateway
  have hlabel {i : Option String} {ref : String} (h : derive s none i limit = .ok ref) :
      IsLabel limit ref.toList :=
    label_of_derive hwellFormed hkind (Or.inl (edged_named hwellFormed hkind).nonempty) h
  rw [ofText_eq_derive hgateway hdetect, ofInstance_eq_derive hgateway hdetect,
    exists_derive_iff hkind, exists_derive_iff hkind, reserved_none, reserved_named?]
  refine ⟨Iff.rfl, Iff.rfl, ?_⟩
  rintro ref (h | h)
  · exact hlabel h
  · exact hlabel h

/-- Three characters are left of the names of a service version. -/
theorem label_of_service_version :
    Slug.detect "acme/shop/api:v1" = .ok (Slug.ofServiceVersion "acme" "shop" "api" "v1")
    ∧ (¬ ∃ ref, ofText "acme/shop/api:v1" none 9 = .ok ref)
    ∧ ∃ ref, ofInstance "acme/shop/api:v1" "blue" 12 = .ok ref ∧ IsLabel 12 ref.toList := by
  have hdetect : Slug.detect "acme/shop/api:v1"
      = .ok (Slug.ofServiceVersion "acme" "shop" "api" "v1") := by
    decide
  have hnine := label_of_detect "acme/shop/api:v1" "blue" 9 _ (by decide) hdetect
  have htwelve := label_of_detect "acme/shop/api:v1" "blue" 12 _ (by decide) hdetect
  obtain ⟨ref, href⟩ := htwelve.2.1.mpr (by decide)
  exact ⟨hdetect, fun h => absurd (hnine.1.mp h) (by decide), ref, href,
    htwelve.2.2 ref (Or.inr href)⟩

end SafeRef

end Manifest
