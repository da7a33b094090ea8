import Manifest.Command
import Manifest.Proofs.Outcome
/-!
# Steps of reading a line

What each kind of piece reads, without regard to how much shorter the rest is
(`Piece.read`), and what a piece or a blank does to the words of a line. Plain text
is taken in runs, but as far as text in double quotes goes it might be taken
character by character (`read_quotedRest_plain`).
-/

namespace Manifest.Command

variable {d : Dialect} {begun : Option (List Char)} {c : Char} {cs text rest : List Char}

/-- What is read and what is left. -/
def Piece.read (p : Piece cs) : List Char × List Char := (p.text, p.rest)

/-! ## Words -/

theorem wordsAfter_nil : wordsAfter d begun [] = .ok begun.toList := by
  unfold wordsAfter
  rfl

theorem wordsAfter_blank (h : Text.isBlank c = true) :
    wordsAfter d begun (c :: cs) = (wordsAfter d none cs).map (begun.toList ++ ·) := by
  rw [wordsAfter.eq_def]
  exact if_pos h

/-- A piece goes on with the word that has begun, or begins one. -/
theorem wordsAfter_piece (hblank : Text.isBlank c = false)
    (h : (piece d c cs).map Piece.read = .ok (text, rest)) :
    wordsAfter d begun (c :: cs) = wordsAfter d (some (begun.getD [] ++ text)) rest := by
  obtain ⟨p, hpiece, hread⟩ := ok_of_map_eq_ok h
  obtain ⟨rfl, rfl⟩ := Prod.mk.inj hread
  rw [wordsAfter.eq_def]
  simp only [hblank, Bool.false_eq_true, if_false, hpiece]

theorem wordsAfter_broken {unfinished : List Char} (hblank : Text.isBlank c = false)
    (h : piece d c cs = .error unfinished) : wordsAfter d begun (c :: cs) = .error unfinished := by
  rw [wordsAfter.eq_def]
  simp only [hblank, Bool.false_eq_true, if_false, h]

/-- The words of a line are those that are read from its beginning. -/
theorem words_eq_ok_iff {line : String} {args : List String} :
    words d line = .ok args
      ↔ ∃ ws, wordsAfter d none line.toList = .ok ws ∧ ws.map String.ofList = args := by
  unfold words
  cases hws : wordsAfter d none line.toList <;> simp [hws]

/-! ## Pieces -/

section

variable (hopen : d.delimiters.afterOpening? (c :: cs) = none)
include hopen

theorem piece_of_unopened : piece d c cs =
    if c = '\'' then singleQuoted cs
    else if c = '"' then doubleQuoted d cs
    else if c = '\\' then escaped cs
    else if c = '$' then .ok (dollar d.declared cs)
    else .ok (run d.delimiters stopsWord cs) := by
  unfold piece
  split
  · next hsome => rw [hopen] at hsome; cases hsome
  · rfl

theorem quotedPart_of_unopened : quotedPart d c cs =
    if c = '\\' then escapedInQuotes cs
    else if c = '$' then .ok (dollar d.declared cs)
    else .ok (run d.delimiters stopsQuoted cs) := by
  unfold quotedPart
  split
  · next hsome => rw [hopen] at hsome; cases hsome
  · rfl

end

section

variable {body : List Char} (hopen : d.delimiters.afterOpening? (c :: cs) = some body)
include hopen

theorem piece_of_opened : piece d c cs = expression d.delimiters hopen := by
  unfold piece
  split
  · next hsome =>
      obtain rfl := Option.some.inj (hopen.symm.trans hsome)
      rfl
  · next hnone => rw [hopen] at hnone; cases hnone

theorem quotedPart_of_opened : quotedPart d c cs = expression d.delimiters hopen := by
  unfold quotedPart
  split
  · next hsome =>
      obtain rfl := Option.some.inj (hopen.symm.trans hsome)
      rfl
  · next hnone => rw [hopen] at hnone; cases hnone

end

/-- An expression is read up to its first closing delimiter. -/
theorem read_expression_iff {d : Delimiters} {body : List Char}
    (hopen : d.afterOpening? cs = some body) :
    (expression d hopen).map Piece.read = .ok (text, rest)
      ↔ ∃ inside, d.closing? body = some (inside, rest) ∧ text = d.enclose inside := by
  unfold expression
  split
  · next inside after hclose =>
      constructor
      · intro h
        obtain ⟨rfl, rfl⟩ := Prod.mk.inj (Except.ok.inj h)
        exact ⟨inside, hclose, rfl⟩
      · rintro ⟨found, hfound, rfl⟩
        obtain ⟨rfl, rfl⟩ := Prod.mk.inj (Option.some.inj (hclose.symm.trans hfound))
        rfl
  · next hclose =>
      constructor
      · intro h
        cases h
      · rintro ⟨found, hfound, -⟩
        rw [hclose] at hfound
        cases hfound

theorem expression_of_unclosed {d : Delimiters} {body : List Char}
    (hopen : d.afterOpening? cs = some body) (hclose : d.closing? body = none) :
    expression d hopen = .error body := by
  unfold expression
  split
  · next hfound => rw [hclose] at hfound; cases hfound
  · rfl

theorem breakOn?_of_singleQuoted
    (h : (singleQuoted (c := c) cs).map Piece.read = .ok (text, rest)) :
    Text.breakOn? ['\''] cs = some (text, rest) := by
  unfold singleQuoted at h
  split at h
  · next hbreak =>
      obtain ⟨rfl, rfl⟩ := Prod.mk.inj (Except.ok.inj h)
      exact hbreak
  · cases h

theorem read_singleQuoted (h : Text.breakOn? ['\''] cs = some (text, rest)) :
    (singleQuoted (c := c) cs).map Piece.read = .ok (text, rest) := by
  unfold singleQuoted
  split
  · next hbreak =>
      rw [h] at hbreak
      obtain ⟨rfl, rfl⟩ := Prod.mk.inj (Option.some.inj hbreak)
      rfl
  · next hnone => rw [h] at hnone; cases hnone

/-! ## Text in double quotes -/

theorem quotedRest_end : (quotedRest d ('"' :: rest)).map Piece.read = .ok ([], rest) := by
  rw [quotedRest, if_pos rfl]
  rfl

theorem ne_nil_of_quotedRest {r : List Char × List Char}
    (h : (quotedRest d cs).map Piece.read = .ok r) : cs ≠ [] := by
  rintro rfl
  rw [quotedRest] at h
  cases h

theorem read_doubleQuoted :
    (doubleQuoted (c := c) d cs).map Piece.read = (quotedRest d cs).map Piece.read := by
  rw [doubleQuoted]
  cases quotedRest d cs <;> rfl

/-- A part is put in front of what follows it. -/
theorem read_quotedRest_part {part after : List Char} (hquote : c ≠ '"')
    (h : (quotedPart d c cs).map Piece.read = .ok (part, after)) :
    (quotedRest d (c :: cs)).map Piece.read
      = ((quotedRest d after).map Piece.read).map fun r => (part ++ r.1, r.2) := by
  obtain ⟨p, hpart, hread⟩ := ok_of_map_eq_ok h
  obtain ⟨rfl, rfl⟩ := Prod.mk.inj hread
  rw [quotedRest, if_neg hquote, hpart]
  show ((quotedRest d p.rest).map p.append).map Piece.read = _
  cases quotedRest d p.rest <;> rfl

/-- Plain characters are put in front of what follows them. -/
theorem read_quotedRest_run (cs : List Char) :
    (quotedRest d cs).map Piece.read
      = ((quotedRest d (plain d.delimiters stopsQuoted cs).2).map Piece.read).map
          fun r => ((plain d.delimiters stopsQuoted cs).1 ++ r.1, r.2) := by
  have hnothing : ∀ x : Except Unfinished (List Char × List Char),
      x = x.map fun r => ([] ++ r.1, r.2) := by
    intro x
    cases x <;> rfl
  cases cs with
  | nil => exact hnothing _
  | cons c cs =>
      by_cases hstops : (stopsQuoted c || (d.delimiters.afterOpening? (c :: cs)).isSome) = true
      · have hplain : plain d.delimiters stopsQuoted (c :: cs) = ([], c :: cs) := by
          rw [plain, if_pos hstops]
        rw [hplain]
        exact hnothing _
      · have hplain : plain d.delimiters stopsQuoted (c :: cs)
            = (c :: (plain d.delimiters stopsQuoted cs).1,
                (plain d.delimiters stopsQuoted cs).2) := by
          rw [plain, if_neg hstops]
        rw [Bool.or_eq_true, not_or, Bool.not_eq_true, Bool.not_eq_true,
          Option.isSome_eq_false_iff, Option.isNone_iff_eq_none] at hstops
        obtain ⟨hstop, hopen⟩ := hstops
        simp only [stopsQuoted, Bool.or_eq_false_iff, decide_eq_false_iff_not] at hstop
        obtain ⟨⟨hquote, hbackslash⟩, hdollar⟩ := hstop
        rw [hplain]
        refine read_quotedRest_part hquote ?_
        rw [quotedPart_of_unopened hopen, if_neg hbackslash, if_neg hdollar]
        rfl

/-- A plain character is put in front of what follows it, whether that is plain
too or not. -/
theorem read_quotedRest_plain (hstop : stopsQuoted c = false)
    (hopen : d.delimiters.afterOpening? (c :: cs) = none) :
    (quotedRest d (c :: cs)).map Piece.read
      = ((quotedRest d cs).map Piece.read).map fun r => (c :: r.1, r.2) := by
  have hplain : plain d.delimiters stopsQuoted (c :: cs)
      = (c :: (plain d.delimiters stopsQuoted cs).1, (plain d.delimiters stopsQuoted cs).2) := by
    rw [plain, hstop, hopen]
    rfl
  rw [read_quotedRest_run, read_quotedRest_run cs, hplain]
  cases (quotedRest d (plain d.delimiters stopsQuoted cs).2).map Piece.read <;> rfl

end Manifest.Command
