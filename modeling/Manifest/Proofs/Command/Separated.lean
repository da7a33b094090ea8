import Manifest.Proofs.Command.Variable
import Manifest.Proofs.Template.Separated
/-!
# Lines one behind the other

A blank behind a line ends what the line says: no piece of it goes on behind the blank, and
none is read in another way because of what stands there (`piece_append`). So two lines
with a space between them have the words of the one and then those of the other
(`words_separated`).

Only delimiters could reach across the blank, and the opening one has none in it. A piece
that is read as far as its end delimiter, be it a quote or a closing delimiter, ended in
front of the blank already.
-/

namespace Manifest.Command

variable {d : Dialect} {begun : Option (List Char)} {c t : Char} {cs text rest : List Char}

/-! ## Pieces in front of a blank -/

/-- Nothing opens at a character because of what stands behind `t`. -/
theorem unopened_append {d : Delimiters} (ht : t ∉ d.opening.toList)
    (hopen : d.afterOpening? (c :: cs) = none) (tail : List Char) :
    d.afterOpening? (c :: (cs ++ t :: tail)) = none :=
  Delimiters.noneAcross_cons ht (c :: cs) tail List.suffix_rfl hopen (List.cons_ne_nil c cs)

theorem opened_append {d : Delimiters} {body : List Char}
    (hopen : d.afterOpening? (c :: cs) = some body) (tail : List Char) :
    d.afterOpening? (c :: (cs ++ tail)) = some (body ++ tail) :=
  Delimiters.afterOpening?_append hopen tail

theorem plain_append {d : Delimiters} {stop : Char → Bool} (ht : t ∉ d.opening.toList)
    (h : plain d stop cs = (text, rest)) (hends : stop t = true ∨ rest ≠ []) (tail : List Char) :
    plain d stop (cs ++ t :: tail) = (text, rest ++ t :: tail) := by
  induction cs generalizing text with
  | nil =>
      obtain ⟨rfl, rfl⟩ := Prod.mk.inj h
      have hstop : stop t = true := hends.resolve_right fun hne => hne rfl
      rw [List.nil_append, plain, hstop, Bool.true_or, if_pos rfl]
  | cons c cs ih =>
      rw [plain] at h
      rw [List.cons_append, plain]
      split at h
      · rename_i hstops
        obtain ⟨rfl, rfl⟩ := Prod.mk.inj h
        have hstops' : (stop c || (d.afterOpening? (c :: (cs ++ t :: tail))).isSome) = true := by
          rw [Bool.or_eq_true] at hstops ⊢
          refine hstops.imp_right fun hsome => ?_
          obtain ⟨body, hbody⟩ := Option.isSome_iff_exists.mp hsome
          rw [opened_append hbody]
          rfl
        rw [if_pos hstops']
        rfl
      · rename_i hgoes
        obtain ⟨rfl, rfl⟩ := Prod.mk.inj h
        rw [Bool.or_eq_true, not_or, Bool.not_eq_true, Option.isSome_iff_ne_none, not_not] at hgoes
        rw [hgoes.1, unopened_append ht hgoes.2 tail, ih rfl]
        rfl

theorem read_run_append {d : Delimiters} {stop : Char → Bool} (ht : t ∉ d.opening.toList)
    (h : (run (c := c) d stop cs).read = (text, rest)) (hends : stop t = true ∨ rest ≠ [])
    (tail : List Char) :
    (run (c := c) d stop (cs ++ t :: tail)).read = (text, rest ++ t :: tail) := by
  obtain ⟨rfl, rfl⟩ := Prod.mk.inj h
  have hplain : plain d stop cs = ((plain d stop cs).1, (plain d stop cs).2) := rfl
  exact congrArg (fun found => (c :: found.1, found.2)) (plain_append ht hplain hends tail)

theorem read_expression_append {d : Delimiters} {cs' body tail : List Char}
    (hopen : d.afterOpening? cs = some body) (hopen' : d.afterOpening? cs' = some (body ++ tail))
    (h : (expression d hopen).map Piece.read = .ok (text, rest)) :
    (expression d hopen').map Piece.read = .ok (text, rest ++ tail) := by
  obtain ⟨inside, hclose, rfl⟩ := (read_expression_iff hopen).mp h
  exact (read_expression_iff hopen').mpr ⟨inside, Text.breakOn?_append_right hclose tail, rfl⟩

variable (ht : Text.isBlank t = true) (hopening : t ∉ d.delimiters.opening.toList)
include ht

theorem read_dollar_append {declared : List String}
    (h : (dollar (c := c) declared cs).read = (text, rest)) (tail : List Char) :
    (dollar (c := c) declared (cs ++ t :: tail)).read = (text, rest ++ t :: tail) := by
  cases hfound : reference? cs with
  | none =>
      rw [read_dollar_of_none hfound] at h
      obtain ⟨rfl, rfl⟩ := Prod.mk.inj h
      exact read_dollar_of_none ((reference?_append_blank ht cs tail).trans hfound)
  | some found =>
      obtain ⟨n, w⟩ := found
      obtain ⟨-, after, -, rfl⟩ := reference?_eq_some_iff.mp hfound
      rw [read_dollar_of_some hfound] at h
      obtain ⟨rfl, rfl⟩ := Prod.mk.inj h
      have hfound' := (reference?_append_blank ht (w ++ after) tail).trans hfound
      rw [List.append_assoc] at hfound' ⊢
      exact read_dollar_of_some hfound'

include hopening

/-- A part of a text in double quotes, with something of that text left behind it. -/
theorem quotedPart_append (hrest : rest ≠ [])
    (h : (quotedPart d c cs).map Piece.read = .ok (text, rest)) (tail : List Char) :
    (quotedPart d c (cs ++ t :: tail)).map Piece.read = .ok (text, rest ++ t :: tail) := by
  cases hopen : d.delimiters.afterOpening? (c :: cs) with
  | some body =>
      have hopen' := opened_append hopen (t :: tail)
      rw [quotedPart_of_opened hopen] at h
      rw [quotedPart_of_opened hopen']
      exact read_expression_append hopen hopen' h
  | none =>
      rw [quotedPart_of_unopened hopen] at h
      rw [quotedPart_of_unopened (unopened_append hopening hopen tail)]
      split at h
      · rename_i hbackslash
        rw [if_pos hbackslash]
        cases cs with
        | nil => cases h
        | cons e cs =>
            obtain ⟨rfl, rfl⟩ := Prod.mk.inj (Except.ok.inj h)
            rfl
      · rename_i hbackslash
        rw [if_neg hbackslash]
        split at h
        · rename_i hdollar
          rw [if_pos hdollar]
          exact congrArg Except.ok (read_dollar_append ht (Except.ok.inj h) tail)
        · rename_i hdollar
          rw [if_neg hdollar]
          exact congrArg Except.ok (read_run_append hopening (Except.ok.inj h) (.inr hrest) tail)

/-- A text in double quotes ends in front of the blank. -/
theorem quotedRest_append (h : (quotedRest d cs).map Piece.read = .ok (text, rest))
    (tail : List Char) :
    (quotedRest d (cs ++ t :: tail)).map Piece.read = .ok (text, rest ++ t :: tail) := by
  fun_induction quotedRest d cs generalizing text with
  | case1 => cases h
  | case2 after =>
      obtain ⟨rfl, rfl⟩ := Prod.mk.inj (Except.ok.inj h)
      exact quotedRest_end
  | case3 => cases h
  | case4 c cs hquote p hpart ih =>
      obtain ⟨q, hq, hread⟩ := ok_of_map_eq_ok h
      obtain ⟨more, hmore, rfl⟩ := ok_of_map_eq_ok hq
      obtain ⟨rfl, rfl⟩ := Prod.mk.inj hread
      have hmore' := congrArg (Except.map Piece.read) hmore
      have hpart' := quotedPart_append ht hopening (ne_nil_of_quotedRest hmore')
        (congrArg (Except.map Piece.read) hpart) tail
      rw [List.cons_append, read_quotedRest_part hquote hpart', ih hmore']
      rfl

/-- A piece is read in the same way in front of a blank, and nothing behind the blank
belongs to it. -/
theorem piece_append (h : (piece d c cs).map Piece.read = .ok (text, rest)) (tail : List Char) :
    (piece d c (cs ++ t :: tail)).map Piece.read = .ok (text, rest ++ t :: tail) := by
  cases hopen : d.delimiters.afterOpening? (c :: cs) with
  | some body =>
      have hopen' := opened_append hopen (t :: tail)
      rw [piece_of_opened hopen] at h
      rw [piece_of_opened hopen']
      exact read_expression_append hopen hopen' h
  | none =>
      rw [piece_of_unopened hopen] at h
      rw [piece_of_unopened (unopened_append hopening hopen tail)]
      by_cases hsingle : c = '\''
      · rw [if_pos hsingle] at h ⊢
        exact read_singleQuoted (Text.breakOn?_append_right (breakOn?_of_singleQuoted h) _)
      rw [if_neg hsingle] at h ⊢
      by_cases hdouble : c = '"'
      · rw [if_pos hdouble, read_doubleQuoted] at h ⊢
        exact quotedRest_append ht hopening h tail
      rw [if_neg hdouble] at h ⊢
      by_cases hbackslash : c = '\\'
      · rw [if_pos hbackslash] at h ⊢
        cases cs with
        | nil => cases h
        | cons e cs =>
            obtain ⟨rfl, rfl⟩ := Prod.mk.inj (Except.ok.inj h)
            rfl
      rw [if_neg hbackslash] at h ⊢
      by_cases hdollar : c = '$'
      · rw [if_pos hdollar] at h ⊢
        exact congrArg Except.ok (read_dollar_append ht (Except.ok.inj h) tail)
      rw [if_neg hdollar] at h ⊢
      have hstop : stopsWord t = true := by rw [stopsWord, ht]; rfl
      exact congrArg Except.ok (read_run_append hopening (Except.ok.inj h) (.inl hstop) tail)

/-! ## Lines in front of a blank -/

/-- Behind a blank, the words of what follows are put behind those of the line. -/
theorem wordsAfter_append {ws : List (List Char)} (h : wordsAfter d begun cs = .ok ws)
    (tail : List Char) :
    wordsAfter d begun (cs ++ t :: tail) = (wordsAfter d none tail).map (ws ++ ·) := by
  fun_induction wordsAfter d begun cs generalizing ws with
  | case1 begun =>
      obtain rfl := Except.ok.inj h
      exact wordsAfter_blank ht
  | case2 begun c cs hblank ih =>
      obtain ⟨more, hmore, rfl⟩ := ok_of_map_eq_ok h
      rw [List.cons_append, wordsAfter_blank hblank, ih hmore]
      cases wordsAfter d none tail with
      | error unfinished => rfl
      | ok found => exact congrArg Except.ok (List.append_assoc ..).symm
  | case3 begun c cs hblank p hpiece ih =>
      have hpiece' := piece_append ht hopening (congrArg (Except.map Piece.read) hpiece) tail
      rw [List.cons_append, wordsAfter_piece (Bool.eq_false_iff.mpr hblank) hpiece', ih h]
  | case4 => cases h

omit ht hopening

/-- Two lines with a space between them have the words of the one and then those of the
other, as long as no opening delimiter has a space in it. -/
theorem words_separated {a b : String} {xs ys : List String}
    (hspace : ' ' ∉ d.delimiters.opening.toList) (ha : words d a = .ok xs)
    (hb : words d b = .ok ys) : words d (a ++ " " ++ b) = .ok (xs ++ ys) := by
  obtain ⟨ws, hws, rfl⟩ := words_eq_ok_iff.mp ha
  obtain ⟨ws', hws', rfl⟩ := words_eq_ok_iff.mp hb
  refine words_eq_ok_iff.mpr ⟨ws ++ ws', ?_, List.map_append⟩
  have hline : (a ++ " " ++ b).toList = a.toList ++ ' ' :: b.toList := by
    rw [String.toList_append, String.toList_append, List.append_assoc]
    rfl
  rw [hline, wordsAfter_append (by decide) hspace hws, hws']
  rfl

theorem words_unclosed : words ⟨{}, ["PORT"]⟩ "serve $\x7bPORT" = .ok ["serve", "$\x7bPORT"] := by
  refine words_eq_ok_iff.mpr ⟨["serve".toList, "$\x7bPORT".toList], ?_, rfl⟩
  calc wordsAfter ⟨{}, ["PORT"]⟩ none "serve $\x7bPORT".toList
    _ = wordsAfter ⟨{}, ["PORT"]⟩ (some "serve".toList) " $\x7bPORT".toList :=
      wordsAfter_piece rfl rfl
    _ = (wordsAfter ⟨{}, ["PORT"]⟩ none "$\x7bPORT".toList).map (["serve".toList] ++ ·) :=
      wordsAfter_blank rfl
    _ = (wordsAfter ⟨{}, ["PORT"]⟩ (some ['$']) "\x7bPORT".toList).map (["serve".toList] ++ ·) :=
      congrArg _ (wordsAfter_piece rfl rfl)
    _ = (wordsAfter ⟨{}, ["PORT"]⟩ (some "$\x7bPORT".toList) []).map (["serve".toList] ++ ·) :=
      congrArg _ (wordsAfter_piece rfl rfl)
    _ = .ok ["serve".toList, "$\x7bPORT".toList] := congrArg _ wordsAfter_nil

theorem words_closing : words ⟨{}, ["PORT"]⟩ "\x7d 'at home'" = .ok ["\x7d", "at home"] := by
  refine words_eq_ok_iff.mpr ⟨["\x7d".toList, "at home".toList], ?_, rfl⟩
  calc wordsAfter ⟨{}, ["PORT"]⟩ none "\x7d 'at home'".toList
    _ = wordsAfter ⟨{}, ["PORT"]⟩ (some ['\x7d']) " 'at home'".toList := wordsAfter_piece rfl rfl
    _ = (wordsAfter ⟨{}, ["PORT"]⟩ none "'at home'".toList).map ([['\x7d']] ++ ·) :=
      wordsAfter_blank rfl
    _ = (wordsAfter ⟨{}, ["PORT"]⟩ (some "at home".toList) []).map ([['\x7d']] ++ ·) :=
      congrArg _ (wordsAfter_piece rfl rfl)
    _ = .ok ["\x7d".toList, "at home".toList] := congrArg _ wordsAfter_nil

/-- Braces that are closed only behind the space are none. -/
theorem words_separated_braces :
    ' ' ∉ ({} : Delimiters).opening.toList
      ∧ words ⟨{}, ["PORT"]⟩ ("serve $\x7bPORT" ++ " " ++ "\x7d 'at home'")
          = .ok (["serve", "$\x7bPORT"] ++ ["\x7d", "at home"]) :=
  have hspace : ' ' ∉ ({} : Delimiters).opening.toList := by
    rw [Delimiters.opening_default]
    decide
  ⟨hspace, words_separated hspace words_unclosed words_closing⟩

end Manifest.Command
