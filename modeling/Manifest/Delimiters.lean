import Manifest.Text.Blank
/-!
# Delimiters of expressions

An expression stands in a text between an opening and a closing delimiter.
Neither of them is empty: settings that have an empty one are never read
(`Settings.usable_of_read`). What an empty opening delimiter would open is
therefore left open. Here it opens nothing, so that reading goes on with less
of the text each time.
-/

namespace Manifest

/-- What surrounds an expression. -/
structure Delimiters where
  opening : String := "$\x7b\x7b"
  closing : String := "\x7d\x7d"
deriving DecidableEq, Repr

namespace Delimiters

/-- The text behind the opening delimiter, if `cs` begins with it. -/
def afterOpening? (d : Delimiters) (cs : List Char) : Option (List Char) :=
  if d.opening.isEmpty then none else Text.dropStart? d.opening.toList cs

/-- What stands before the first closing delimiter and what behind it. -/
def closing? (d : Delimiters) (cs : List Char) : Option (List Char × List Char) :=
  Text.breakOn? d.closing.toList cs

/-- Is there an opening delimiter anywhere in the text? -/
def opensIn (d : Delimiters) (text : String) : Bool :=
  !d.opening.isEmpty && (Text.breakOn? d.opening.toList text.toList).isSome

/-- An expression as it is written. -/
def enclose (d : Delimiters) (body : List Char) : List Char :=
  d.opening.toList ++ body ++ d.closing.toList

theorem afterOpening?_shorter {d : Delimiters} {cs rest : List Char}
    (h : d.afterOpening? cs = some rest) : rest.length < cs.length := by
  unfold afterOpening? at h
  split at h
  · simp at h
  · next hne =>
    have hlen : 0 < d.opening.toList.length := by
      rw [List.length_pos_iff]
      simpa using hne
    rw [Text.eq_append_of_dropStart? h, List.length_append]
    omega

theorem closing?_not_longer {d : Delimiters} {cs body rest : List Char}
    (h : d.closing? cs = some (body, rest)) : rest.length ≤ cs.length := by
  rw [Text.eq_append_of_breakOn? h]
  simp only [List.length_append]
  omega

end Delimiters

end Manifest
