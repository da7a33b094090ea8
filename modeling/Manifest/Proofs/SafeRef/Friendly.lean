import Manifest.Proofs.SafeRef.Label
/-!
# Refs with a friendly name

A friendly name stands for the names of the slug in a ref. Of its characters only ASCII
letters and digits are kept, and so nothing is left of a name without any
(`sanitize_eq_nil_iff`). A slug with a tag has a digest all the same, and its ref is a
label whatever the friendly name is; the ref of one without a tag is a label exactly if
the friendly name holds a letter or a digit, and is empty otherwise
(`label_friendly_iff`).
-/

namespace Manifest

/-- Something is left between the ends that are cut off a text, unless all of it may be. -/
theorem Text.dropTrailing_dropWhile_eq_nil_iff {p : Char → Bool} {cs : List Char} :
    dropTrailing p (cs.dropWhile p) = [] ↔ ∀ c ∈ cs, p c = true := by
  rw [dropTrailing_eq_rdropWhile, List.rdropWhile_eq_nil_iff, ← List.dropWhile_eq_nil_iff,
    List.dropWhile_idempotent, List.dropWhile_eq_nil_iff]

namespace SafeRef

open Slug (NameChar isNameChar isNameChar_iff)

/-! ## Friendly names -/

/-- An upper-case letter stands 32 places in front of the lower-case one. -/
theorem toNat_toLower (c : Char) :
    c.toLower.toNat = if 65 ≤ c.toNat ∧ c.toNat ≤ 90 then c.toNat + 32 else c.toNat := by
  split
  · next hupper =>
      have hlower : c.toLower.val = c.val + 32 := congrArg Char.val (dif_pos hupper)
      show c.toLower.val.toNat = c.val.toNat + 32
      rw [hlower, UInt32.toNat_add]
      exact Nat.mod_eq_of_lt (Nat.lt_of_le_of_lt (Nat.add_le_add_right hupper.2 32) (by decide))
  · next hother => exact congrArg Char.toNat (dif_neg hother)

theorem isNameChar_toLower (c : Char) : isNameChar c.toLower = c.isAlphanum := by
  have halphanum : c.isAlphanum = true ↔ ('A' ≤ c ∧ c ≤ 'Z') ∨ NameChar c := by
    show (c.isUpper || c.isLower || c.isDigit) = true ↔ _
    rw [Bool.or_eq_true, Bool.or_eq_true, Slug.isUpper_iff, Slug.isLower_iff, Slug.isDigit_iff,
      NameChar, or_assoc]
  -- The order of characters is that of their numbers.
  have hupper : 'A' ≤ c ∧ c ≤ 'Z' ↔ 65 ≤ c.toNat ∧ c.toNat ≤ 90 := Iff.rfl
  have hname : ∀ d : Char, NameChar d
      ↔ (97 ≤ d.toNat ∧ d.toNat ≤ 122) ∨ (48 ≤ d.toNat ∧ d.toNat ≤ 57) := fun _ => Iff.rfl
  rw [Bool.eq_iff_iff, isNameChar_iff, halphanum, hupper, hname, hname, toNat_toLower]
  split <;> omega

/-- Nothing is left of a name without letters and digits. -/
theorem sanitize_eq_nil_iff {name : List Char} :
    sanitize name = [] ↔ ∀ c ∈ name, c.isAlphanum = false := by
  rw [sanitize, Text.dropTrailing_dropWhile_eq_nil_iff, List.forall_mem_map]
  refine forall₂_congr fun c _ => ?_
  rw [← isNameChar_toLower]
  show isHyphen (if isNameChar c.toLower then c.toLower else '-') = true ↔ _
  cases hkept : isNameChar c.toLower with
  | true =>
      have hother : c.toLower ≠ '-' := fun heq => by
        rw [heq] at hkept
        exact absurd hkept (by decide)
      simpa [isHyphen] using hother
  | false => exact iff_of_true rfl rfl

theorem named_ne_nil_iff {s : Slug} {name : String} :
    named s (some name) ≠ [] ↔ ∃ c ∈ name.toList, c.isAlphanum = true := by
  simp [named, sanitize_eq_nil_iff]

/-- Without a name and without a digest there is nothing to write. -/
theorem eq_empty_of_derive {s : Slug} {friendlyName instanceId : Option String} {limit : Nat}
    {ref : String} (hkind : s.kind ≠ .gateway) (hnamed : named s friendlyName = [])
    (hhashed : hashed s instanceId = false)
    (hderive : derive s friendlyName instanceId limit = .ok ref) : ref = "" := by
  obtain ⟨-, rfl⟩ := (derive_eq_ok_iff hkind).mp hderive
  have hcut := truncate_isPrefix (limit - reserved s instanceId) []
  rw [written, hhashed, hnamed, List.prefix_nil.mp hcut]
  rfl

/-- There is a ref with a friendly name exactly if there is one without. It is a label within
the limit if the friendly name holds a letter or a digit, or the slug has a tag, and empty
otherwise. -/
theorem label_friendly_iff (text name : String) (limit : Nat) (s : Slug)
    (hgateway : text ≠ "gateway") (hdetect : Slug.detect text = .ok s) :
    ((∃ ref, ofText text (some name) limit = .ok ref) ↔ (if s.tag.isSome then 9 else 0) < limit)
    ∧ ∀ ref, ofText text (some name) limit = .ok ref →
      (IsLabel limit ref.toList ↔
        (∃ c ∈ name.toList, c.isAlphanum = true) ∨ s.tag.isSome = true)
      ∧ (¬ IsLabel limit ref.toList → ref = "") := by
  have hwellFormed := Slug.wellFormed_of_detect hdetect
  have hkind := Slug.kind_ne_gateway hdetect hgateway
  have hhashed : hashed s none = s.tag.isSome := Bool.or_false _
  rw [ofText_eq_derive hgateway hdetect, exists_derive_iff hkind, reserved_none]
  refine ⟨Iff.rfl, fun ref hderive => ?_⟩
  by_cases hsome : named s (some name) ≠ [] ∨ hashed s none = true
  · have hlabel := label_of_derive hwellFormed hkind hsome hderive
    rw [named_ne_nil_iff, hhashed] at hsome
    exact ⟨iff_of_true hlabel hsome, fun hnot => absurd hlabel hnot⟩
  · obtain ⟨hnamed, hplain⟩ := not_or.mp hsome
    have hempty :=
      eq_empty_of_derive hkind (not_not.mp hnamed) (Bool.eq_false_iff.mpr hplain) hderive
    rw [named_ne_nil_iff, hhashed] at hsome
    refine ⟨iff_of_false (fun hlabel => hlabel.nonempty ?_) hsome, fun _ => hempty⟩
    rw [hempty]
    rfl

/-- The digest of a version makes up for a friendly name that has nothing to show. -/
theorem label_friendly_version :
    Slug.detect "acme/shop/api:v1" = .ok (Slug.ofServiceVersion "acme" "shop" "api" "v1")
    ∧ ∃ ref, ofText "acme/shop/api:v1" (some "!!!") 10 = .ok ref ∧ IsLabel 10 ref.toList := by
  have hdetect : Slug.detect "acme/shop/api:v1"
      = .ok (Slug.ofServiceVersion "acme" "shop" "api" "v1") := by
    decide
  obtain ⟨hexists, hlabel⟩ := label_friendly_iff "acme/shop/api:v1" "!!!" 10 _ (by decide) hdetect
  obtain ⟨ref, href⟩ := hexists.mpr (by decide)
  exact ⟨hdetect, ref, href, (hlabel ref href).1.mpr (Or.inr rfl)⟩

/-- A component without a tag loses its ref to such a name. -/
theorem empty_friendly_component :
    Slug.detect "acme/shop" = .ok (Slug.ofComponent "acme" "shop")
    ∧ ofText "acme/shop" (some "!!!") 63 = .ok "" ∧ ¬ IsLabel 63 "".toList := by
  have hdetect : Slug.detect "acme/shop" = .ok (Slug.ofComponent "acme" "shop") := by decide
  have hkind : (Slug.ofComponent "acme" "shop").kind ≠ .gateway := by decide
  have hnamed : named (Slug.ofComponent "acme" "shop") (some "!!!") = [] := by decide
  obtain ⟨ref, hderive⟩ := (exists_derive_iff hkind).mpr
    (by decide : reserved (Slug.ofComponent "acme" "shop") none < 63)
  have hempty := eq_empty_of_derive hkind hnamed rfl hderive
  refine ⟨hdetect, ?_, fun hlabel => hlabel.nonempty rfl⟩
  rw [ofText_eq_derive (by decide) hdetect, hderive, hempty]

end SafeRef

end Manifest
