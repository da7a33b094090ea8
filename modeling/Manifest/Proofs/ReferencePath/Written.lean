import Manifest.Proofs.ReferencePath
import Manifest.Proofs.Slug
/-!
# Paths that are read back

The written form of a path of bare keys is read as that path, with any blanks around it
(`read?_text`). A bare key is a run of key characters, none of which is a blank or the
period that stands between keys.
-/

namespace Manifest

/-! ## Blanks around a text -/

namespace Text

theorem dropWhile_append {α : Type} {p : α → Bool} {front rest : List α}
    (hfront : ∀ c ∈ front, p c = true) (hrest : ∀ c ∈ rest.head?, p c = false) :
    (front ++ rest).dropWhile p = rest := by
  rw [List.dropWhile_append_of_pos hfront]
  cases rest with
  | nil => rfl
  | cons c rest => rw [List.dropWhile_cons_of_neg (by simp [hrest c rfl])]

theorem takeWhile_append {α : Type} {p : α → Bool} {front rest : List α}
    (hfront : ∀ c ∈ front, p c = true) (hrest : ∀ c ∈ rest.head?, p c = false) :
    (front ++ rest).takeWhile p = front := by
  rw [List.takeWhile_append_of_pos hfront]
  cases rest with
  | nil => exact List.append_nil front
  | cons c rest =>
      rw [List.takeWhile_cons_of_neg (by simp [hrest c rfl])]
      exact List.append_nil front

/-- The blanks around a text that neither starts nor ends with one are cut off. -/
theorem trim_edged {before cs after : List Char} (hbefore : ∀ c ∈ before, isBlank c = true)
    (hafter : ∀ c ∈ after, isBlank c = true) (hne : cs ≠ [])
    (hfirst : ∀ c ∈ cs.head?, isBlank c = false) (hlast : ∀ c ∈ cs.getLast?, isBlank c = false) :
    trim (before ++ cs ++ after) = cs := by
  have hstart : ∀ c ∈ (cs ++ after).head?, isBlank c = false := by
    obtain ⟨first, cs, rfl⟩ := List.exists_cons_of_ne_nil hne
    exact hfirst
  rw [← List.head?_reverse] at hlast
  rw [trim, trimLeft, List.append_assoc, dropWhile_append hbefore hstart, dropTrailing,
    List.reverse_append,
    dropWhile_append (fun c hc => hafter c (List.mem_reverse.mp hc)) hlast, List.reverse_reverse]

/-- What has no blank in it is left when the blanks around it are cut off. -/
theorem trim_surrounded {before cs after : List Char} (hbefore : ∀ c ∈ before, isBlank c = true)
    (hafter : ∀ c ∈ after, isBlank c = true) (hcs : ∀ c ∈ cs, isBlank c = false) :
    trim (before ++ cs ++ after) = cs := by
  by_cases hne : cs = []
  · subst hne
    have hall : ∀ c ∈ before ++ after, isBlank c = true := by
      simpa [or_imp, forall_and] using And.intro hbefore hafter
    rw [List.append_nil, trim, trimLeft, List.dropWhile_eq_nil_iff.mpr hall]
    rfl
  · exact trim_edged hbefore hafter hne (fun c hc => hcs c (List.mem_of_mem_head? hc))
      fun c hc => hcs c (List.mem_of_mem_getLast? hc)

end Text

namespace ReferencePath

theorem bounds_of_isKeyChar {c : Char} (h : isKeyChar c = true) :
    45 ≤ c.toNat ∧ c.toNat ≤ 122 := by
  have hle {a b : Char} (h : a ≤ b) : a.toNat ≤ b.toNat := h
  simp only [isKeyChar, Bool.or_eq_true, decide_eq_true_iff] at h
  rcases h with ((h | rfl) | rfl) | rfl
  · have hword : Slug.isWordChar c = true := by
      rw [Slug.isWordChar, h]
      rfl
    rcases Slug.isWordChar_iff.mp hword with ⟨hlow, hhigh⟩ | (⟨hlow, hhigh⟩ | ⟨hlow, hhigh⟩) | rfl
    · exact ⟨Nat.le_trans (by decide) (hle hlow), Nat.le_trans (hle hhigh) (by decide)⟩
    · exact ⟨Nat.le_trans (by decide) (hle hlow), Nat.le_trans (hle hhigh) (by decide)⟩
    · exact ⟨Nat.le_trans (by decide) (hle hlow), Nat.le_trans (hle hhigh) (by decide)⟩
    · decide
  · decide
  · decide
  · decide

theorem isBlank_of_isKeyChar {c : Char} (h : isKeyChar c = true) : Text.isBlank c = false := by
  obtain ⟨hlow, hhigh⟩ := bounds_of_isKeyChar h
  simp only [Text.isBlank, Bool.or_eq_false_iff, Bool.and_eq_false_iff, decide_eq_false_iff_not,
    beq_eq_false_iff_ne]
  omega

/-- One or more key characters. -/
def IsBare (key : String) : Prop := key.toList ≠ [] ∧ ∀ c ∈ key.toList, isKeyChar c = true

instance (key : String) : Decidable (IsBare key) :=
  decidable_of_iff (key.toList ≠ [] ∧ key.toList.all isKeyChar = true) (by
    rw [IsBare, List.all_eq_true])

/-- The further keys of a path as they are written. -/
def behind (keys : List String) : List Char := keys.flatMap fun key => '.' :: key.toList

theorem toList_text (key : String) (keys : List String) :
    (text (key :: keys)).toList = key.toList ++ behind keys := by
  induction keys generalizing key with
  | nil => simp [text, behind]
  | cons next keys ih =>
      have hperiod : ".".toList = ['.'] := String.toList_ofList
      have hbehind : behind (next :: keys) = '.' :: (next.toList ++ behind keys) := rfl
      rw [text, String.intercalate_cons_cons, String.toList_append, String.toList_append, hperiod,
        ← text, ih, hbehind, List.append_assoc, List.singleton_append]

theorem head?_behind (keys : List String) : ∀ c ∈ (behind keys).head?, isKeyChar c = false := by
  cases keys with
  | nil => exact fun _ hc => nomatch hc
  | cons key keys =>
      rintro c ⟨⟩
      decide

theorem key?_bare {key : String} (h : IsBare key) {rest : List Char}
    (hrest : ∀ c ∈ rest.head?, isKeyChar c = false) :
    key? (key.toList ++ rest) = some (key.toList, rest) := by
  rw [key?, Text.takeWhile_append h.2 hrest, Text.dropWhile_append h.2 hrest]
  split
  · next hempty => exact absurd hempty h.1
  · rfl

theorem more?_behind {keys : List String} (h : ∀ key ∈ keys, IsBare key) :
    more? (behind keys) = some (keys.map String.toList) := by
  induction keys with
  | nil => rw [behind, List.flatMap_nil, more?]; rfl
  | cons key keys ih =>
      obtain ⟨hkey, hkeys⟩ := List.forall_mem_cons.mp h
      have hbehind : behind (key :: keys) = '.' :: (key.toList ++ behind keys) := rfl
      have hnext : next? ('.' :: (key.toList ++ behind keys)) = some (key.toList, behind keys) :=
        key?_bare hkey (head?_behind keys)
      rw [hbehind, more?, if_neg (by simp)]
      split
      · next found rest hfound =>
          rw [hnext] at hfound
          obtain ⟨rfl, rfl⟩ := Prod.mk.inj (Option.some.inj hfound)
          rw [ih hkeys]
          rfl
      · next hnone => rw [hnext] at hnone; cases hnone

/-- A key behind a path. -/
theorem text_concat (key : String) (keys : List String) (last : String) :
    text (key :: (keys ++ [last])) = text (key :: keys) ++ "." ++ last := by
  have hperiod : ".".toList = ['.'] := String.toList_ofList
  rw [← String.toList_inj, toList_text, String.toList_append, String.toList_append, toList_text,
    hperiod, behind, List.flatMap_append, List.flatMap_singleton, ← behind]
  simp only [List.append_assoc, List.singleton_append]

/-- A last key without a period is known from the written form. -/
theorem text_concat_inj {key key' last last' : String} {keys keys' : List String}
    (hlast : '.' ∉ last.toList) (hlast' : '.' ∉ last'.toList)
    (h : text (key :: (keys ++ [last])) = text (key' :: (keys' ++ [last']))) :
    text (key :: keys) = text (key' :: keys') ∧ last = last' := by
  have hperiod : ".".toList = ['.'] := String.toList_ofList
  rw [text_concat, text_concat, ← String.toList_inj] at h
  simp only [String.toList_append, hperiod, List.append_assoc, List.singleton_append] at h
  obtain ⟨hbefore, hsame⟩ := Text.append_cons_inj_last hlast hlast' h
  exact ⟨String.toList_inj.mp hbefore, String.toList_inj.mp hsame⟩

theorem eq_of_text_pair {key name name' : String} (h : text [key, name] = text [key, name']) :
    name = name' := by
  rw [← String.toList_inj, toList_text, toList_text, List.append_cancel_left_eq] at h
  simpa [behind, String.toList_inj] using h

theorem chars_text {key : String} {keys : List String} (h : ∀ k ∈ key :: keys, IsBare k) :
    ∀ c ∈ (text (key :: keys)).toList, isKeyChar c = true ∨ c = '.' := by
  intro c hc
  rw [toList_text, List.mem_append, behind, List.mem_flatMap] at hc
  rcases hc with hc | ⟨other, hother, hc⟩
  · exact Or.inl ((h key (List.mem_cons_self ..)).2 c hc)
  · rcases List.mem_cons.mp hc with rfl | hc
    · exact Or.inr rfl
    · exact Or.inl ((h other (List.mem_cons_of_mem _ hother)).2 c hc)

theorem not_blank_text {key : String} {keys : List String} (h : ∀ k ∈ key :: keys, IsBare k) :
    ∀ c ∈ (text (key :: keys)).toList, Text.isBlank c = false := by
  intro c hc
  rcases chars_text h c hc with hkey | rfl
  · exact isBlank_of_isKeyChar hkey
  · decide

theorem text_ne_nil {key : String} (h : IsBare key) (keys : List String) :
    (text (key :: keys)).toList ≠ [] := by
  rw [toList_text]
  exact List.append_ne_nil_of_left_ne_nil h.1 _

/-- The written form of bare keys is read, with any blanks around it. -/
theorem read?_text {key : String} {keys : List String} (h : ∀ k ∈ key :: keys, IsBare k)
    {before after : List Char} (hbefore : ∀ c ∈ before, Text.isBlank c = true)
    (hafter : ∀ c ∈ after, Text.isBlank c = true) :
    read? (before ++ (text (key :: keys)).toList ++ after) = some (key :: keys) := by
  obtain ⟨hkey, hkeys⟩ := List.forall_mem_cons.mp h
  rw [read?, Text.trim_surrounded hbefore hafter (not_blank_text h), toList_text,
    key?_bare hkey (head?_behind keys)]
  simp [more?_behind hkeys, List.map_map, Function.comp_def]

theorem read?_text_alone {key : String} {keys : List String} (h : ∀ k ∈ key :: keys, IsBare k) :
    read? (text (key :: keys)).toList = some (key :: keys) := by
  have hread : read? ([] ++ (text (key :: keys)).toList ++ []) = some (key :: keys) :=
    read?_text h (fun _ hc => nomatch hc) fun _ hc => nomatch hc
  rwa [List.nil_append, List.append_nil] at hread

end ReferencePath

end Manifest
