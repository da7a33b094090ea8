import Manifest.Scalar
import Manifest.Delimiters
import Manifest.Instant
import Manifest.Proofs.SafeRef
import Manifest.Proofs.Template
/-!
# Texts that hold no expression

Nothing opens in a text without a dollar. The texts of truth values, numbers
and instants are such texts, and so are safe refs.
-/

namespace Manifest

theorem Text.breakOn?_eq_none_of_not_mem {c : Char} {needle : List Char} : ∀ {cs : List Char},
    c ∉ cs → breakOn? (c :: needle) cs = none
  | [], _ => rfl
  | first :: rest, h => by
      rw [List.mem_cons, not_or] at h
      rw [breakOn?, dropStart?, if_neg h.1]
      simp only [breakOn?_eq_none_of_not_mem h.2, Option.map_none]

/-- The text holds no dollar. -/
def Undollared (text : String) : Prop := '$' ∉ text.toList

theorem Undollared.opensIn {text : String} (h : Undollared text) :
    ({} : Delimiters).opensIn text = false := by
  rw [Delimiters.opensIn, Delimiters.opening_default, Text.breakOn?_eq_none_of_not_mem h]
  exact Bool.and_false _

namespace Undollared

theorem append {a b : String} (ha : Undollared a) (hb : Undollared b) : Undollared (a ++ b) := by
  rw [Undollared, String.toList_append, List.mem_append, not_or]
  exact ⟨ha, hb⟩

theorem of_ref {ref : String} (h : ∀ c ∈ ref.toList, Slug.isRefChar c = true) :
    Undollared ref := by
  intro hmem
  have hdollar := h '$' hmem
  revert hdollar
  decide

theorem bool (b : Bool) : Undollared (toString b) := by
  cases b <;> simp [Undollared, toString]

theorem nat (n : Nat) : Undollared (toString n) := by
  intro hmem
  rw [Nat.toString_eq_repr, Nat.toList_repr] at hmem
  have hdigit := Nat.isDigit_of_mem_toDigits (by decide) (by decide) hmem
  revert hdigit
  decide

theorem int : ∀ i : Int, Undollared (toString i)
  | .ofNat n => nat n
  | .negSucc n => by
      have hminus : Undollared "-" := by simp [Undollared]
      exact hminus.append (nat (n + 1))

theorem zeros (n : Nat) : Undollared (Binary64.zeros n) := by
  intro hmem
  rw [Binary64.zeros, String.toList_ofList] at hmem
  exact absurd (List.eq_of_mem_replicate hmem) (by decide)

theorem sign (negative : Bool) : Undollared (Binary64.signText negative) := by
  cases negative <;> simp [Undollared, Binary64.signText]

theorem pointed {digits : String} (h : Undollared digits) (p : Nat) :
    Undollared (Binary64.pointed digits p) := by
  have htake : Undollared (String.ofList (digits.toList.take p)) := by
    rw [Undollared, String.toList_ofList]
    exact fun hmem => h (List.mem_of_mem_take hmem)
  have hdrop : Undollared (String.ofList (digits.toList.drop p)) := by
    rw [Undollared, String.toList_ofList]
    exact fun hmem => h (List.mem_of_mem_drop hmem)
  have hpoint : Undollared "." := by simp [Undollared]
  exact (htake.append hpoint).append hdrop

theorem plain (f : Binary64) : Undollared f.plain := by
  cases f with
  | notANumber => simp [Undollared, Binary64.plain]
  | infinite negative =>
      have hinf : Undollared "inf" := by simp [Undollared]
      exact (sign negative).append hinf
  | finite negative m q =>
      have hdigits := nat (Binary64.shortest m q).digits
      have hzero : Undollared "0." := by simp [Undollared]
      rw [Binary64.plain]
      refine (sign negative).append ?_
      split
      · exact hdigits.append (zeros _)
      · split
        · exact hdigits.pointed _
        · exact (hzero.append (zeros _)).append hdigits

theorem padded (width n : Nat) : Undollared (Instant.padded width n) := by
  have hzeros : Undollared
      (String.ofList (List.replicate (width - (toString n).length) '0')) := zeros _
  exact hzeros.append (nat n)

theorem year (y : Int) : Undollared (Instant.yearText y) := by
  unfold Instant.yearText
  split
  · exact padded 4 y.toNat
  · refine append ?_ (padded 4 y.natAbs)
    split <;> simp [Undollared]

theorem fraction (nanos : Nat) : Undollared (Instant.fractionText nanos) := by
  have hpoint : Undollared "." := by simp [Undollared]
  unfold Instant.fractionText
  split
  · simp [Undollared]
  · split
    · exact hpoint.append (padded 3 _)
    · split
      · exact hpoint.append (padded 6 _)
      · exact hpoint.append (padded 9 _)

theorem instant (t : Instant) : Undollared t.text := by
  have hdash : Undollared "-" := by simp [Undollared]
  have hcolon : Undollared ":" := by simp [Undollared]
  have htime : Undollared "T" := by simp [Undollared]
  have hzone : Undollared "Z" := by simp [Undollared]
  simp only [Instant.text]
  exact year _ |>.append hdash |>.append (padded 2 _) |>.append hdash |>.append (padded 2 _)
    |>.append htime |>.append (padded 2 _) |>.append hcolon |>.append (padded 2 _)
    |>.append hcolon |>.append (padded 2 _) |>.append (fraction _) |>.append hzone

end Undollared

/-- A scalar that is no string has a text without a dollar. -/
theorem Scalar.undollared_text {value : Scalar} (h : ∀ s, value ≠ .string s) :
    Undollared value.text := by
  cases value with
  | bool b => exact .bool b
  | int i => exact .int i
  | float f => exact .plain f
  | string s => exact absurd rfl (h s)

end Manifest
