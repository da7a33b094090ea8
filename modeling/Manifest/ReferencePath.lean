import Manifest.Text.Blank
/-!
# Reference paths

What an expression refers to is written as a path of keys: a first key and
then keys behind periods or in brackets, as in
`dependencies['acct/db'].interfaces.main`. In brackets a key may stand in
quotes, and is then any text without that quote.
-/

namespace Manifest.ReferencePath

def isKeyChar (c : Char) : Bool := c.isAlphanum || c = '_' || c = '-' || c = '/'

/-- Blanks that may stand inside brackets. -/
def isInnerBlank (c : Char) : Bool := c = ' ' || c = '\t' || c = '\r' || c = '\n'

/-- A bare key at the start of the text. -/
def key? (cs : List Char) : Option (List Char × List Char) :=
  match cs.takeWhile isKeyChar with
  | [] => none
  | key => some (key, cs.dropWhile isKeyChar)

/-- A key in quotes at the start of the text. -/
def quoted? : List Char → Option (List Char × List Char)
  | '\'' :: cs => Text.breakOn? ['\''] cs
  | '"' :: cs => Text.breakOn? ['"'] cs
  | _ => none

/-- The rest of a lookup in brackets, behind the first one. -/
def bracketed? (cs : List Char) : Option (List Char × List Char) := do
  let cs := cs.dropWhile isInnerBlank
  let (key, cs) ← (quoted? cs).or (key? cs)
  match cs.dropWhile isInnerBlank with
  | ']' :: rest => some (key, rest)
  | _ => none

/-- A further key of a path. -/
def next? : List Char → Option (List Char × List Char)
  | '.' :: cs => key? cs
  | '[' :: cs => bracketed? cs
  | _ => none

/-! ## Every step leaves a shorter rest -/

theorem key?_rest {cs key rest : List Char} (h : key? cs = some (key, rest)) :
    rest.length ≤ cs.length := by
  unfold key? at h
  split at h
  · simp at h
  · simp only [Option.some.injEq, Prod.mk.injEq] at h
    rw [← h.2]
    exact (List.dropWhile_suffix _).length_le

theorem quoted?_rest {cs key rest : List Char} (h : quoted? cs = some (key, rest)) :
    rest.length ≤ cs.length := by
  unfold quoted? at h
  split at h
  · rw [Text.eq_append_of_breakOn? h]; simp; omega
  · rw [Text.eq_append_of_breakOn? h]; simp; omega
  · simp at h

theorem bracketed?_rest {cs key rest : List Char} (h : bracketed? cs = some (key, rest)) :
    rest.length ≤ cs.length := by
  simp only [bracketed?, Option.bind_eq_bind, Option.bind_eq_some_iff, Prod.exists] at h
  obtain ⟨k, tail, hk, h⟩ := h
  have inner : tail.length ≤ cs.length := by
    refine Nat.le_trans ?_ (List.dropWhile_suffix isInnerBlank).length_le
    rcases Option.or_eq_some_iff.1 hk with hq | ⟨-, hb⟩
    · exact quoted?_rest hq
    · exact key?_rest hb
  split at h
  · next r hr =>
    simp only [Option.some.injEq, Prod.mk.injEq] at h
    have := (List.dropWhile_suffix isInnerBlank (l := tail)).length_le
    rw [hr] at this
    rw [← h.2]
    simp at this
    omega
  · simp at h

theorem next?_shorter {cs key rest : List Char} (h : next? cs = some (key, rest)) :
    rest.length < cs.length := by
  unfold next? at h
  split at h
  · exact Nat.lt_succ_of_le (key?_rest h)
  · exact Nat.lt_succ_of_le (bracketed?_rest h)
  · simp at h

/-! ## Paths -/

/-- The further keys of a path up to the end of the text. -/
def more? (cs : List Char) : Option (List (List Char)) :=
  if cs.isEmpty then some []
  else
    match _h : next? cs with
    | some (key, rest) => (more? rest).map (key :: ·)
    | none => none
termination_by cs.length
decreasing_by exact next?_shorter _h

/-- Reads a path with blanks around it. -/
def read? (body : List Char) : Option (List String) := do
  let (key, rest) ← key? (Text.trim body)
  pure ((key :: (← more? rest)).map String.ofList)

/-- What is said of a text that is no path. -/
def malformed (body : List Char) : String :=
  "\"" ++ String.ofList (Text.trim body) ++ "\" is not a valid reference path"

/-- The keys with periods between them. -/
def text (path : List String) : String := ".".intercalate path

end Manifest.ReferencePath
