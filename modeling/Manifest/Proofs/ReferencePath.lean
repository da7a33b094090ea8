import Mathlib.Data.List.TakeWhile
import Manifest.ReferencePath
/-!
# The first key of a reference path

A path that is read has a first key, made of the characters of bare keys. As
there is no period among those, the written form of the path begins with that
key, and paths with different first keys have different written forms.
-/

namespace Manifest.ReferencePath

/-- What is read is a bare key and further ones. -/
theorem exists_first_of_read? {body : List Char} {path : List String}
    (h : read? body = some path) :
    ∃ key rest, path = key :: rest ∧ ∀ c ∈ key.toList, isKeyChar c = true := by
  simp only [read?, Option.bind_eq_bind, Option.bind_eq_some_iff] at h
  obtain ⟨⟨key, cs⟩, hkey, more, -, hpath⟩ := h
  refine ⟨String.ofList key, more.map String.ofList, (Option.some.inj hpath).symm, ?_⟩
  rw [String.toList_ofList]
  unfold key? at hkey
  split at hkey
  · cases hkey
  · obtain ⟨rfl, -⟩ := Prod.mk.inj (Option.some.inj hkey)
    exact fun c hc => List.mem_takeWhile_imp hc

/-- The written form begins with the first key, up to the first period. -/
theorem takeWhile_text {key : String} (h : ∀ c ∈ key.toList, isKeyChar c = true)
    (rest : List String) :
    (text (key :: rest)).toList.takeWhile (fun c => c ≠ '.') = key.toList := by
  have hkey : ∀ c ∈ key.toList, decide (c ≠ '.') = true := by
    intro c hc
    refine decide_eq_true fun heq => ?_
    have hperiod := h c hc
    rw [heq] at hperiod
    revert hperiod
    decide
  cases rest with
  | nil =>
      rw [text, String.intercalate_singleton]
      exact List.takeWhile_eq_self_iff.mpr hkey
  | cons next rest =>
      have hperiod : ".".toList = ['.'] := String.toList_ofList
      rw [text, String.intercalate_cons_cons, String.toList_append, String.toList_append, hperiod,
        List.append_assoc, List.takeWhile_append_of_pos hkey]
      exact List.append_nil _

theorem text_ne_of_first_ne {key other : String} {rest more : List String}
    (hkey : ∀ c ∈ key.toList, isKeyChar c = true) (hother : ∀ c ∈ other.toList, isKeyChar c = true)
    (hne : key ≠ other) : text (key :: rest) ≠ text (other :: more) := by
  intro heq
  refine hne (String.toList_inj.mp ?_)
  rw [← takeWhile_text hkey rest, heq, takeWhile_text hother more]

end Manifest.ReferencePath
