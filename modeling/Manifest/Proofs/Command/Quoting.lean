import Manifest.Proofs.Command
import Manifest.Proofs.Template
import Manifest.Proofs.Text.Split
/-!
# Quoting

Any text can be written as one word of a line, in single or in double quotes.
Between the quotes nothing breaks the word, and neither a variable nor an expression
is found there: a text in single quotes is taken as it is, and in double quotes
a dollar is always escaped. So words that are quoted and joined by blanks are read
back (`words_quoted`).
-/

namespace Manifest.Command

/-- The two kinds of quotes. -/
inductive Quote where
  | single
  | double
deriving DecidableEq, Repr

namespace Quote

/-- The character on both sides of a quoted text. -/
def mark : Quote → Char
  | single => '\''
  | double => '"'

/-- A character of a quoted text. Nothing is escaped between single quotes: a single
quote closes the text, stands escaped, and opens the text again. -/
def written : Quote → Char → List Char
  | single, c => if c = '\'' then ['\'', '\\', '\'', '\''] else [c]
  | double, c => if c = '\\' ∨ c = '"' ∨ c = '$' then ['\\', c] else [c]

/-- A text in quotes. -/
def enclose (q : Quote) (text : String) : String :=
  String.ofList (q.mark :: (text.toList.flatMap q.written ++ [q.mark]))

example : single.enclose "it's $5" = "'it'\\''s $5'" := by decide

example : double.enclose "it's $5" = "\"it's \\$5\"" := by decide

end Quote

variable {declared : List String} {begun : Option (List Char)} {c : Char}
  {cs text rest : List Char}

/-- Only a dollar begins an expression between the default delimiters. -/
theorem afterOpening?_of_ne_dollar (h : c ≠ '$') :
    ({} : Delimiters).afterOpening? (c :: cs) = none := by
  unfold Delimiters.afterOpening?
  split
  · rfl
  · rw [Delimiters.opening_default, Text.dropStart?, if_neg (Ne.symm h)]

/-! ## Single quotes -/

/-- A text in single quotes that holds none of them is a piece. -/
theorem wordsAfter_literal (h : '\'' ∉ text) :
    wordsAfter ⟨{}, declared⟩ begun ('\'' :: (text ++ '\'' :: rest))
      = wordsAfter ⟨{}, declared⟩ (some (begun.getD [] ++ text)) rest := by
  refine wordsAfter_piece rfl ?_
  rw [piece_of_unopened (afterOpening?_of_ne_dollar (by decide)), if_pos rfl]
  exact read_singleQuoted (Text.breakOn?_of_not_mem h rest)

theorem wordsAfter_escaped :
    wordsAfter ⟨{}, declared⟩ begun ('\\' :: c :: rest)
      = wordsAfter ⟨{}, declared⟩ (some (begun.getD [] ++ [c])) rest := by
  refine wordsAfter_piece rfl ?_
  rw [piece_of_unopened (afterOpening?_of_ne_dollar (by decide)), if_neg (by decide),
    if_neg (by decide), if_pos rfl]
  rfl

/-- `pre` is what has been read since the quotes were last opened. -/
theorem wordsAfter_single (text : List Char) : ∀ (begun : Option (List Char)) (pre : List Char),
    '\'' ∉ pre →
      wordsAfter ⟨{}, declared⟩ begun
          ('\'' :: (pre ++ (text.flatMap Quote.single.written ++ '\'' :: rest)))
        = wordsAfter ⟨{}, declared⟩ (some (begun.getD [] ++ pre ++ text)) rest := by
  induction text with
  | nil =>
      intro begun pre hpre
      rw [List.flatMap_nil, List.nil_append, wordsAfter_literal hpre, List.append_nil]
  | cons c text ih =>
      intro begun pre hpre
      rw [List.flatMap_cons, Quote.written]
      by_cases hquote : c = '\''
      · -- the quotes are closed, and opened again behind the quote that is escaped
        subst hquote
        rw [if_pos rfl]
        simp only [List.cons_append, List.nil_append]
        have hopened := ih (some (begun.getD [] ++ pre ++ ['\''])) [] List.not_mem_nil
        rw [wordsAfter_literal hpre, wordsAfter_escaped]
        simpa using hopened
      · rw [if_neg hquote]
        have hgoes := ih begun (pre ++ [c]) (by simp [hpre, Ne.symm hquote])
        simpa using hgoes

/-! ## Double quotes -/

theorem read_escapedInQuotes (h : c = '\\' ∨ c = '"' ∨ c = '$') :
    (quotedRest ⟨{}, declared⟩ ('\\' :: c :: cs)).map Piece.read
      = ((quotedRest ⟨{}, declared⟩ cs).map Piece.read).map fun r => ([c] ++ r.1, r.2) := by
  refine read_quotedRest_part (by decide) ?_
  rw [quotedPart_of_unopened (afterOpening?_of_ne_dollar (by decide)), if_pos rfl]
  rcases h with rfl | rfl | rfl <;> rfl

theorem read_double (text : List Char) :
    (quotedRest ⟨{}, declared⟩ (text.flatMap Quote.double.written ++ '"' :: rest)).map Piece.read
      = .ok (text, rest) := by
  induction text with
  | nil => exact quotedRest_end
  | cons c text ih =>
      rw [List.flatMap_cons, Quote.written]
      by_cases hescaped : c = '\\' ∨ c = '"' ∨ c = '$'
      · rw [if_pos hescaped]
        simp only [List.cons_append, List.nil_append]
        rw [read_escapedInQuotes hescaped, ih]
        rfl
      · rw [if_neg hescaped]
        simp only [List.cons_append, List.nil_append]
        simp only [not_or] at hescaped
        obtain ⟨hbackslash, hquote, hdollar⟩ := hescaped
        have hstop : stopsQuoted c = false := by simp [stopsQuoted, hbackslash, hquote, hdollar]
        rw [read_quotedRest_plain hstop (afterOpening?_of_ne_dollar hdollar), ih]
        rfl

theorem wordsAfter_double :
    wordsAfter ⟨{}, declared⟩ begun
        ('"' :: (text.flatMap Quote.double.written ++ '"' :: rest))
      = wordsAfter ⟨{}, declared⟩ (some (begun.getD [] ++ text)) rest := by
  refine wordsAfter_piece rfl ?_
  rw [piece_of_unopened (afterOpening?_of_ne_dollar (by decide)), if_neg (by decide), if_pos rfl]
  have hdouble : (quotedRest ⟨{}, declared⟩
      (text.flatMap Quote.double.written ++ '"' :: rest)).map Piece.read = .ok (text, rest) :=
    read_double text
  obtain ⟨p, hrest, hread⟩ := ok_of_map_eq_ok hdouble
  rw [doubleQuoted, hrest]
  exact congrArg Except.ok hread

/-! ## Lines -/

theorem wordsAfter_enclose (q : Quote) (text : String) (rest : List Char) :
    wordsAfter ⟨{}, declared⟩ none ((q.enclose text).toList ++ rest)
      = wordsAfter ⟨{}, declared⟩ (some text.toList) rest := by
  rw [Quote.enclose, String.toList_ofList, List.cons_append, List.append_assoc]
  cases q with
  | single => exact wordsAfter_single text.toList none [] List.not_mem_nil
  | double => exact wordsAfter_double

/-- Any texts may be the words of a line: each is quoted in one of the two ways, and
a blank stands between them. -/
theorem words_quoted (declared : List String) (args : List (Quote × String)) :
    words ⟨{}, declared⟩ (" ".intercalate (args.map fun arg => arg.1.enclose arg.2))
      = .ok (args.map Prod.snd) := by
  have hread : wordsAfter ⟨{}, declared⟩ none
      (" ".intercalate (args.map fun arg => arg.1.enclose arg.2)).toList
        = .ok (args.map fun arg => arg.2.toList) := by
    induction args with
    | nil => exact wordsAfter_nil
    | cons arg args ih =>
        cases args with
        | nil =>
            have hword : wordsAfter ⟨{}, declared⟩ none ((arg.1.enclose arg.2).toList ++ [])
                = wordsAfter ⟨{}, declared⟩ (some arg.2.toList) [] :=
              wordsAfter_enclose arg.1 arg.2 []
            rw [List.append_nil, wordsAfter_nil] at hword
            rw [List.map_singleton, String.intercalate_singleton, hword]
            rfl
        | cons next args =>
            have hblank : " ".toList = [' '] := String.toList_ofList
            rw [List.map_cons] at ih
            rw [List.map_cons, List.map_cons, String.intercalate_cons_cons, String.toList_append,
              String.toList_append, hblank, List.append_assoc, wordsAfter_enclose,
              List.singleton_append, wordsAfter_blank rfl, ih]
            rfl
  rw [words]
  simp only [hread]
  rw [List.map_map]
  congr 1
  exact List.map_congr_left fun arg _ => String.ofList_toList

end Manifest.Command
