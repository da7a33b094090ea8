import Mathlib.Data.List.DropRight
import Manifest.SafeRef
import Manifest.Proofs.Outcome
import Manifest.Proofs.Slug.Detection
/-!
# The characters of safe refs

A safe ref is made of lower-case letters, digits and hyphens, whatever it is
derived from (`ofText_chars`, `ofInstance_chars`): the readable part is cut out
of names or out of a friendly name put into such characters, and the digest is
written in letters and digits.
-/

namespace Manifest

namespace Text

theorem dropTrailing_eq_rdropWhile (p : Char → Bool) (cs : List Char) :
    dropTrailing p cs = cs.rdropWhile p := rfl

theorem dropTrailing_isPrefix (p : Char → Bool) (cs : List Char) : dropTrailing p cs <+: cs := by
  rw [dropTrailing_eq_rdropWhile]
  exact List.rdropWhile_prefix p cs

end Text

/-- A character of a joined text comes from a part or from a separator. -/
theorem mem_toList_intercalate {sep : String} {c : Char} : ∀ {parts : List String},
    c ∈ (sep.intercalate parts).toList → c ∈ sep.toList ∨ ∃ part ∈ parts, c ∈ part.toList
  | [], h => by simp at h
  | [part], h => Or.inr ⟨part, List.mem_cons_self .., by simpa using h⟩
  | part :: next :: rest, h => by
      rw [String.intercalate_cons_cons, String.toList_append, String.toList_append,
        List.mem_append, List.mem_append] at h
      rcases h with (h | h) | h
      · exact Or.inr ⟨part, List.mem_cons_self .., h⟩
      · exact Or.inl h
      · exact (mem_toList_intercalate h).imp_right fun ⟨found, hfound, hc⟩ =>
          ⟨found, List.mem_cons_of_mem _ hfound, hc⟩

/-! ## Names -/

namespace Slug

/-- Letters in lower case, digits and hyphens. -/
def isRefChar (c : Char) : Bool := isNameChar c || c = '-'

theorem isRefChar_of_isName {cs : List Char} (h : isName cs = true) :
    ∀ c ∈ cs, isRefChar c = true := by
  intro c hc
  rw [isName, Bool.and_eq_true, List.all_eq_true] at h
  have hsplit : c = '-' ∨ ∃ piece ∈ Text.splitOn '-' cs, c ∈ piece := Text.mem_piece_of_mem hc
  rcases hsplit with rfl | ⟨piece, hpiece, hc⟩
  · rfl
  · have hword := h.2 piece hpiece
    rw [isNameWord, Bool.and_eq_true, List.all_eq_true] at hword
    rw [isRefChar, hword.2 c hc, Bool.true_or]

theorem IsSegment.chars {text : String} (h : IsSegment text) :
    ∀ c ∈ text.toList, isRefChar c = true :=
  isRefChar_of_isName (isNameText_iff.mpr h)

/-- The readable parts of a slug are its names. -/
theorem WellFormed.segments {s : Slug} (h : s.WellFormed) :
    ∀ part ∈ SafeRef.readableParts s, IsSegment part := by
  cases h with
  | component ha hc => simp [SafeRef.readableParts, ofComponent, ha, hc]
  | componentVersion ha hc _ => simp [SafeRef.readableParts, ofComponentVersion, ha, hc]
  | service ha hc hs => simp [SafeRef.readableParts, ofService, ha, hc, hs]
  | serviceVersion ha hc hs _ => simp [SafeRef.readableParts, ofServiceVersion, ha, hc, hs]
  | environment ha he => simp [SafeRef.readableParts, ofEnvironment, ha, he]
  | serviceInstance ha hc hs _ hp he =>
      simp [SafeRef.readableParts, ofServiceInstance, ofServiceVersion, ofEnvironment, ha, hc, hs,
        hp, he]
  | interfaces ha hc _ => simp [SafeRef.readableParts, ofInterfaces, ha, hc]
  | gateway => exact fun part hpart => absurd hpart List.not_mem_nil

end Slug

/-! ## The digest -/

theorem Base64.alphabet_eq : alphabet =
    ['A', 'B', 'C', 'D', 'E', 'F', 'G', 'H', 'I', 'J', 'K', 'L', 'M', 'N', 'O', 'P', 'Q', 'R', 'S',
      'T', 'U', 'V', 'W', 'X', 'Y', 'Z', 'a', 'b', 'c', 'd', 'e', 'f', 'g', 'h', 'i', 'j', 'k', 'l',
      'm', 'n', 'o', 'p', 'q', 'r', 's', 't', 'u', 'v', 'w', 'x', 'y', 'z', '0', '1', '2', '3', '4',
      '5', '6', '7', '8', '9', '+', '/'] :=
  String.toList_ofList

theorem Base64.symbol_mem (n : Nat) : symbol n ∈ alphabet := by
  have hlength : alphabet.length = 64 := by
    rw [alphabet_eq]
    rfl
  have hn : n % 64 < alphabet.length := by omega
  rw [symbol, List.getD_eq_getElem?_getD, List.getElem?_eq_getElem hn]
  exact List.getElem_mem hn

theorem Base64.mem_encode {c : Char} : ∀ {bytes : List UInt8}, c ∈ encode bytes →
    c ∈ alphabet ∨ c = '='
  | [], h => absurd h List.not_mem_nil
  | [a], h => by
      simp only [encode, List.mem_cons, List.not_mem_nil, or_false] at h
      rcases h with rfl | rfl | h | h
      · exact Or.inl (symbol_mem _)
      · exact Or.inl (symbol_mem _)
      · exact Or.inr h
      · exact Or.inr h
  | [a, b], h => by
      simp only [encode, List.mem_cons, List.not_mem_nil, or_false] at h
      rcases h with rfl | rfl | rfl | h
      · exact Or.inl (symbol_mem _)
      · exact Or.inl (symbol_mem _)
      · exact Or.inl (symbol_mem _)
      · exact Or.inr h
  | a :: b :: c' :: rest, h => by
      simp only [encode, List.mem_cons] at h
      rcases h with rfl | rfl | rfl | rfl | h
      · exact Or.inl (symbol_mem _)
      · exact Or.inl (symbol_mem _)
      · exact Or.inl (symbol_mem _)
      · exact Or.inl (symbol_mem _)
      · exact mem_encode h

namespace SafeRef

open Slug (isRefChar isNameChar)

theorem digestText_chars (text : String) : ∀ c ∈ digestText text, isNameChar c = true := by
  intro c hc
  have halphabet : ('=' :: Base64.alphabet).all (fun c =>
      !(c.toLower ≠ '/' && c.toLower ≠ '+' && c.toLower ≠ '=') || isNameChar c.toLower) = true := by
    rw [Base64.alphabet_eq]
    decide
  obtain ⟨hmem, hkept⟩ := List.mem_filter.mp hc
  obtain ⟨symbol, hsymbol, rfl⟩ := List.mem_map.mp hmem
  have hsymbols : symbol ∈ '=' :: Base64.alphabet := by
    rcases Base64.mem_encode hsymbol with h | rfl
    · exact List.mem_cons_of_mem _ h
    · exact List.mem_cons_self ..
  have hletter := List.all_eq_true.mp halphabet symbol hsymbols
  rwa [hkept, Bool.not_true, Bool.false_or] at hletter

/-! ## The readable part -/

theorem delimiter_chars : ∀ c ∈ delimiter.toList, isRefChar c = true := by
  simp [delimiter, isRefChar]

theorem readable_chars {s : Slug} (h : s.WellFormed) :
    ∀ c ∈ (readable s).toList, isRefChar c = true := by
  intro c hc
  rcases mem_toList_intercalate hc with hc | ⟨part, hpart, hc⟩
  · exact delimiter_chars c hc
  · exact (h.segments part hpart).chars c hc

theorem sanitize_chars (name : List Char) : ∀ c ∈ sanitize name, isRefChar c = true := by
  intro c hc
  have hmem := (List.dropWhile_sublist isHyphen).subset
    ((Text.dropTrailing_isPrefix isHyphen _).subset hc)
  obtain ⟨c, -, rfl⟩ := List.mem_map.mp hmem
  dsimp only
  split
  · next h => rw [isRefChar, isNameChar, h, Bool.true_or]
  · rfl

theorem cutBytes_go_nil (budget : Nat) : cutBytes.go budget [] = some [] := by
  cases budget <;> simp [cutBytes.go]

theorem cutBytes_go_isPrefix : ∀ {cs cut : List Char} {budget : Nat},
    cutBytes.go budget cs = some cut → cut <+: cs
  | cs, cut, 0, h => by
      rw [cutBytes.go] at h
      obtain rfl := Option.some.inj h
      exact List.nil_prefix
  | [], cut, budget + 1, h => by
      rw [cutBytes_go_nil] at h
      obtain rfl := Option.some.inj h
      exact List.nil_prefix
  | c :: cs, cut, budget + 1, h => by
      rw [cutBytes.go] at h
      split at h
      · obtain ⟨rest, hrest, rfl⟩ := Option.map_eq_some_iff.mp h
        exact List.cons_prefix_cons.mpr ⟨rfl, cutBytes_go_isPrefix hrest⟩
      · cases h

theorem truncate_isPrefix (budget : Nat) (cs : List Char) : truncate budget cs <+: cs := by
  refine (Text.dropTrailing_isPrefix isHyphen _).trans ?_
  unfold cutBytes
  split
  · next h => exact cutBytes_go_isPrefix h
  · exact List.prefix_refl cs

/-! ## Refs -/

/-- Does a ref of the slug, or of an instance of it, end in a digest? -/
def hashed (s : Slug) (instanceId : Option String) : Bool := s.tag.isSome || instanceId.isSome

/-- The room that the digest takes up. -/
def reserved (s : Slug) (instanceId : Option String) : Nat :=
  if hashed s instanceId then reservedLength else 0

/-- What stands before the digest if there is room for it. -/
def named (s : Slug) : (friendlyName : Option String) → List Char
  | some name => sanitize name.toList
  | none => (readable s).toList

def digest (s : Slug) (instanceId : Option String) : List Char :=
  (digestText (uri s instanceId)).take digestLength

/-- A name with a digest behind it. -/
def withDigest (name digest : List Char) : List Char :=
  if name.isEmpty then digest else name ++ delimiter.toList ++ digest

theorem withDigest_nil (digest : List Char) : withDigest [] digest = digest := rfl

theorem withDigest_of_ne_nil {name : List Char} (h : name ≠ []) (digest : List Char) :
    withDigest name digest = name ++ delimiter.toList ++ digest :=
  if_neg fun hempty => h (List.isEmpty_iff.mp hempty)

/-- The characters of a ref. -/
def written (s : Slug) (friendlyName instanceId : Option String) (maxLength : Nat) : List Char :=
  let name := truncate (maxLength - reserved s instanceId) (named s friendlyName)
  if hashed s instanceId then withDigest name (digest s instanceId) else name

variable {s : Slug} {friendlyName instanceId : Option String} {maxLength : Nat} {ref : String}

/-- There is a ref exactly if it has more room than the digest takes up. -/
theorem derive_eq_ok_iff (hkind : s.kind ≠ .gateway) :
    derive s friendlyName instanceId maxLength = .ok ref ↔
      reserved s instanceId < maxLength
        ∧ ref = String.ofList (written s friendlyName instanceId maxLength) := by
  have hderive : derive s friendlyName instanceId maxLength =
      if maxLength ≤ reserved s instanceId then
        .error (.badConfiguration ("max ref length " ++ toString maxLength ++ " cannot hold a "
          ++ toString (reserved s instanceId) ++ "-character hash"))
      else .ok (String.ofList (written s friendlyName instanceId maxLength)) := by
    unfold derive written reserved hashed
    rw [if_neg hkind]
    cases s.tag.isSome || instanceId.isSome <;> cases friendlyName <;> rfl
  rw [hderive]
  split
  · next hroom => simp [Nat.not_lt.mpr hroom]
  · next hroom => simp [Nat.not_le.mp hroom, eq_comm]

theorem exists_derive_iff (hkind : s.kind ≠ .gateway) :
    (∃ ref, derive s friendlyName instanceId maxLength = .ok ref)
      ↔ reserved s instanceId < maxLength := by
  simp [derive_eq_ok_iff hkind]

theorem reserved_le (s : Slug) (instanceId : Option String) :
    reserved s instanceId ≤ reservedLength := by
  unfold reserved
  split
  · exact Nat.le_refl _
  · exact Nat.zero_le _

theorem gatewayText_chars : ∀ c ∈ Slug.gatewayText.toList, isRefChar c = true := by
  simp [Slug.gatewayText, isRefChar, isNameChar]

theorem named_chars (h : s.WellFormed) (friendlyName : Option String) :
    ∀ c ∈ named s friendlyName, isRefChar c = true := by
  cases friendlyName with
  | some name => exact sanitize_chars name.toList
  | none => exact readable_chars h

theorem digest_chars (s : Slug) (instanceId : Option String) :
    ∀ c ∈ digest s instanceId, isNameChar c = true :=
  fun c hc => digestText_chars _ c (List.mem_of_mem_take hc)

theorem isRefChar_of_isNameChar {c : Char} (h : isNameChar c = true) : isRefChar c = true := by
  rw [isRefChar, h, Bool.true_or]

theorem withDigest_chars {name digest : List Char} (hname : ∀ c ∈ name, isRefChar c = true)
    (hdigest : ∀ c ∈ digest, isNameChar c = true) :
    ∀ c ∈ withDigest name digest, isRefChar c = true := by
  have hdigest' : ∀ c ∈ digest, isRefChar c = true :=
    fun c hc => isRefChar_of_isNameChar (hdigest c hc)
  by_cases hempty : name = []
  · rwa [hempty, withDigest_nil]
  · rw [withDigest_of_ne_nil hempty, List.forall_mem_append, List.forall_mem_append]
    exact ⟨⟨hname, delimiter_chars⟩, hdigest'⟩

theorem written_chars (h : s.WellFormed) (friendlyName instanceId : Option String)
    (maxLength : Nat) : ∀ c ∈ written s friendlyName instanceId maxLength, isRefChar c = true := by
  have hcut : ∀ c ∈ truncate (maxLength - reserved s instanceId) (named s friendlyName),
      isRefChar c = true :=
    fun c hc => named_chars h friendlyName c ((truncate_isPrefix _ _).subset hc)
  unfold written
  dsimp only
  split
  · exact withDigest_chars hcut (digest_chars s instanceId)
  · exact hcut

theorem derive_chars (h : s.WellFormed)
    (hderive : derive s friendlyName instanceId maxLength = .ok ref) :
    ∀ c ∈ ref.toList, isRefChar c = true := by
  by_cases hkind : s.kind = .gateway
  · unfold derive at hderive
    rw [if_pos hkind] at hderive
    rw [← Except.ok.inj hderive]
    exact gatewayText_chars
  · obtain ⟨-, rfl⟩ := (derive_eq_ok_iff hkind).mp hderive
    rw [String.toList_ofList]
    exact written_chars h friendlyName instanceId maxLength

/-- An empty name is that of no instance. -/
def named? (instanceId : String) : Option String :=
  if instanceId.isEmpty then none else some instanceId

section

variable {text : String} (hgateway : text ≠ Slug.gatewayText) (hdetect : Slug.detect text = .ok s)
include hgateway hdetect

theorem ofText_eq_derive :
    ofText text friendlyName maxLength = derive s friendlyName none maxLength := by
  rw [ofText, if_neg hgateway, hdetect]
  rfl

theorem ofInstance_eq_derive (instanceId : String) :
    ofInstance text instanceId maxLength = derive s none (named? instanceId) maxLength := by
  rw [ofInstance, if_neg hgateway, hdetect]
  rfl

end

/-- A ref is made of lower-case letters, digits and hyphens. -/
theorem ofText_chars {text : String} {friendlyName : Option String} {maxLength : Nat}
    {ref : String} (h : ofText text friendlyName maxLength = .ok ref) :
    ∀ c ∈ ref.toList, isRefChar c = true := by
  unfold ofText at h
  split at h
  · next hgateway =>
      rw [← Except.ok.inj h, hgateway]
      exact gatewayText_chars
  · obtain ⟨s, hdetect, hderive⟩ := ok_of_bind_eq_ok h
    exact derive_chars (Slug.wellFormed_of_detect hdetect) hderive

theorem ofInstance_chars {text instanceId : String} {maxLength : Nat} {ref : String}
    (h : ofInstance text instanceId maxLength = .ok ref) :
    ∀ c ∈ ref.toList, isRefChar c = true := by
  unfold ofInstance at h
  split at h
  · next hgateway =>
      rw [← Except.ok.inj h, hgateway]
      exact gatewayText_chars
  · obtain ⟨s, hdetect, hderive⟩ := ok_of_bind_eq_ok h
    exact derive_chars (Slug.wellFormed_of_detect hdetect) hderive

end SafeRef

end Manifest
