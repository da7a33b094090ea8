/-!
# Suggestions for misspelt keys

The edit distance of two texts is the least number of insertions, deletions
and substitutions of one character that turn one into the other. It is
computed a row at a time: after the characters read so far, a row holds the
distance to every beginning of the other text.
-/

namespace Manifest.Schema

/-- The next row after reading `a`. `diagonal` is the old value above and to
the left, `left` the new value to the left, and `above` the old values. -/
def nextRow (a : Char) : (diagonal left : Nat) → (above : List Nat) → List Char → List Nat
  | diagonal, left, up :: above, b :: bs =>
    let best := min (min (diagonal + if a = b then 0 else 1) (up + 1)) (left + 1)
    best :: nextRow a up best above bs
  | _, _, _, _ => []

/-- The row that reading one more character gives. -/
def stepRow (bs : List Char) (row : List Nat) (a : Char) : List Nat :=
  match row with
  | [] => []
  | first :: above => (first + 1) :: nextRow a first (first + 1) above bs

def editDistance (a b : String) : Nat :=
  let bs := b.toList
  let row := a.toList.foldl (stepRow bs) (List.range (bs.length + 1))
  row.getLast?.getD 0

/-- The first candidate of least distance among those given. -/
def closest? : List (Nat × String) → Option (Nat × String)
  | [] => none
  | c :: rest =>
    match closest? rest with
    | some best => if best.1 < c.1 then some best else some c
    | none => some c

/-- The first of the candidates closest to `value`, if it is at most two
edits away. -/
def suggest? (value : String) (candidates : List String) : Option String :=
  let scored := candidates.map fun c => (editDistance value c, c)
  (closest? (scored.filter fun c => c.1 ≤ 2)).map Prod.snd

end Manifest.Schema
