import Manifest.Schema
import Manifest.Proofs.ReferencePath.Written
import Manifest.Proofs.SafeRef
import Manifest.Proofs.Slug.Reader
/-!
# Keys that need no quotes

Each grammar that the keys of a dictionary may have to keep to allows bare keys only
(`KeyGrammar.isBare_of_accepts`): names, and names of components with their slash, keys of
environments and of parameters.
-/

namespace Manifest

/-! ## Names -/

namespace ReferencePath

variable {key : String} {c : Char}

theorem isKeyChar_of_isWordChar (h : Slug.isWordChar c = true) : isKeyChar c = true := by
  have hchar : (c.isAlphanum || c = '_') = true := h
  rw [isKeyChar, hchar]
  rfl

theorem isKeyChar_of_isRefChar (h : Slug.isRefChar c = true) : isKeyChar c = true := by
  rw [Slug.isRefChar, Bool.or_eq_true, decide_eq_true_iff] at h
  rcases h with hname | rfl
  · have hword : Slug.WordChar c := Or.inr (Or.inl (Slug.isNameChar_iff.mp hname))
    exact isKeyChar_of_isWordChar (Slug.isWordChar_iff.mpr hword)
  · decide

theorem isBare_of_isSegment (h : Slug.IsSegment key) : IsBare key :=
  ⟨fun hempty => h.ne_empty (String.toList_eq_nil_iff.mp hempty),
    fun c hc => isKeyChar_of_isRefChar (h.chars c hc)⟩

/-- An account and a name with the slash between them. -/
theorem isBare_of_splitComponentName? (h : (Slug.splitComponentName? key).isSome = true) :
    IsBare key := by
  obtain ⟨⟨account | account, own⟩, hsplit⟩ := Option.isSome_iff_exists.mp h
  · obtain ⟨hown, rfl⟩ := Slug.splitComponentName?_eq_single_iff.mp hsplit
    exact isBare_of_isSegment hown
  · obtain ⟨haccount, hown, rfl⟩ := Slug.splitComponentName?_eq_pair_iff.mp hsplit
    have haccount : IsBare account := isBare_of_isSegment haccount
    have hown : IsBare own := isBare_of_isSegment hown
    have hchars : (account ++ "/" ++ own).toList = account.toList ++ '/' :: own.toList := by simp
    rw [IsBare, hchars, List.forall_mem_append, List.forall_mem_cons]
    exact ⟨List.append_ne_nil_of_left_ne_nil haccount.1 _, haccount.2, by decide, hown.2⟩

end ReferencePath

/-! ## Grammars -/

/-- Under any grammar that says something of its keys, these are bare. -/
theorem Schema.KeyGrammar.isBare_of_accepts {g : KeyGrammar} {key : String} (hg : g ≠ .any)
    (h : g.accepts key = true) : ReferencePath.IsBare key := by
  have hnonempty (h : (!key.isEmpty) = true) : key.toList ≠ [] := by simpa using h
  cases g with
  | any => exact absurd rfl hg
  | name => exact ReferencePath.isBare_of_isSegment (Slug.isNameText_iff.mp h)
  | environmentKey =>
      obtain ⟨hne, hchars⟩ := Bool.and_eq_true_iff.mp h
      refine ⟨hnonempty hne, fun c hc => ?_⟩
      exact ReferencePath.isKeyChar_of_isWordChar (List.all_eq_true.mp hchars c hc)
  | parameterKey =>
      obtain ⟨hne, hchars⟩ := Bool.and_eq_true_iff.mp h
      refine ⟨hnonempty hne, fun c hc => ?_⟩
      rcases Bool.or_eq_true_iff.mp (List.all_eq_true.mp hchars c hc) with hword | hhyphen
      · exact ReferencePath.isKeyChar_of_isWordChar hword
      · rw [of_decide_eq_true hhyphen]
        decide
  | componentName => exact ReferencePath.isBare_of_splitComponentName? h

end Manifest
