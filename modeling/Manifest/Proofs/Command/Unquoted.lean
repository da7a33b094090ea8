import Manifest.Proofs.Command.Variable
import Manifest.Proofs.Template.Spliced
/-!
# Lines without quotes

Where quotes and escapes stand only inside of expressions, a line is spelled with plain
characters, dollars, variables, expressions and blanks, and each of them adds its text to
the word that has begun (`Spelled`). A plain character may be taken by itself, although
the line is read in runs. Such a line fails only where an expression is not closed
(`spells_or_unclosed`).
-/

namespace Manifest

/-- The characters of a line that are not part of an expression. -/
def Delimiters.outside (d : Delimiters) (cs : List Char) : List Char :=
  match cs with
  | [] => []
  | c :: rest =>
    match _h : d.afterOpening? (c :: rest) with
    | none => c :: d.outside rest
    | some body =>
      match _hc : d.closing? body with
      | none => c :: d.outside rest
      | some (_, after) => d.outside after
termination_by cs.length
decreasing_by
  · exact Nat.lt_succ_self _
  · exact Nat.lt_succ_self _
  · exact Nat.lt_of_le_of_lt (closing?_not_longer _hc) (afterOpening?_shorter _h)

/-- Nothing opens in the text but at a dollar. -/
def Delimiters.OpensAtDollar (d : Delimiters) (cs : List Char) : Prop :=
  ∀ ⦃c : Char⦄ ⦃rest : List Char⦄, (c :: rest) <:+ cs → c ≠ '$' → d.afterOpening? (c :: rest) = none

namespace Delimiters

variable {d : Delimiters} {c : Char} {cs rest body inside after : List Char}

theorem outside_of_unopened (h : d.afterOpening? (c :: rest) = none) :
    d.outside (c :: rest) = c :: d.outside rest := by
  rw [outside]
  split
  · rfl
  · next hopen => rw [h] at hopen; cases hopen

theorem outside_of_closed (h : d.afterOpening? (c :: rest) = some body)
    (hclose : d.closing? body = some (inside, after)) :
    d.outside (c :: rest) = d.outside after := by
  rw [outside]
  split
  · next hopen => rw [h] at hopen; cases hopen
  · next hopen =>
      obtain rfl := Option.some.inj (h.symm.trans hopen)
      split
      · next hnone => rw [hclose] at hnone; cases hnone
      · next hfound =>
          obtain ⟨-, rfl⟩ := Prod.mk.inj (Option.some.inj (hclose.symm.trans hfound))
          rfl

theorem OpensAtDollar.of_suffix (h : d.OpensAtDollar cs) (hrest : rest <:+ cs) :
    d.OpensAtDollar rest :=
  fun _ _ hpart => h (hpart.trans hrest)

theorem OpensAtDollar.unopened_of_isBlank (h : d.OpensAtDollar (c :: cs))
    (hblank : Text.isBlank c = true) : d.afterOpening? (c :: cs) = none :=
  h List.suffix_rfl (Command.ne_dollar_of_isBlank hblank)

/-- What stands in front of the expressions of a text is outside of them. -/
theorem outside_append : ∀ {w : List Char}, '$' ∉ w → d.OpensAtDollar (w ++ rest) →
    d.outside (w ++ rest) = w ++ d.outside rest
  | [], _, _ => rfl
  | c :: w, hdollar, hopens => by
      rw [List.mem_cons, not_or] at hdollar
      rw [List.cons_append] at hopens ⊢
      rw [outside_of_unopened (hopens List.suffix_rfl (Ne.symm hdollar.1)),
        outside_append hdollar.2 (hopens.of_suffix (List.suffix_cons ..))]
      rfl

/-- An expression begins with the character at which it opens. -/
theorem exists_enclose_eq_cons (h : d.afterOpening? (c :: cs) = some body) (inside : List Char) :
    ∃ more, d.enclose inside = c :: more := by
  obtain ⟨o, os, hcons⟩ := List.exists_cons_of_ne_nil (opening_ne_nil h)
  have hsplit := eq_append_of_afterOpening? h
  rw [hcons] at hsplit
  obtain ⟨rfl, -⟩ := List.cons.inj hsplit
  exact ⟨os ++ inside ++ d.closing.toList, by rw [enclose, hcons]; rfl⟩

end Delimiters

namespace Command

variable {d : Dialect} {begun : Option (List Char)} {c : Char}
variable {cs n w line first text rest : List Char} {others words : List (List Char)}

/-- A quote or a backslash. -/
def isQuoting (c : Char) : Bool := c = '\'' || c = '"' || c = '\\'

/-! ## Plain characters -/

theorem wordsAfter_run (cs : List Char) (text : List Char) :
    wordsAfter d (some text) cs
      = wordsAfter d (some (text ++ (plain d.delimiters stopsWord cs).1))
          (plain d.delimiters stopsWord cs).2 := by
  cases cs with
  | nil => rw [plain, List.append_nil]
  | cons c cs =>
      by_cases hstops : (stopsWord c || (d.delimiters.afterOpening? (c :: cs)).isSome) = true
      · rw [plain, if_pos hstops, List.append_nil]
      · have hplain : plain d.delimiters stopsWord (c :: cs)
            = (c :: (plain d.delimiters stopsWord cs).1, (plain d.delimiters stopsWord cs).2) := by
          rw [plain, if_neg hstops]
        rw [Bool.or_eq_true, not_or, Bool.not_eq_true, Bool.not_eq_true,
          Option.isSome_eq_false_iff, Option.isNone_iff_eq_none] at hstops
        obtain ⟨hstop, hopen⟩ := hstops
        simp only [stopsWord, stopsQuoted, Bool.or_eq_false_iff, decide_eq_false_iff_not] at hstop
        obtain ⟨⟨hblank, hsingle⟩, ⟨hdouble, hbackslash⟩, hdollar⟩ := hstop
        rw [hplain]
        refine wordsAfter_piece hblank ?_
        rw [piece_of_unopened hopen, if_neg hsingle, if_neg hdouble, if_neg hbackslash,
          if_neg hdollar]
        rfl

/-- A plain character goes on with the word, whether what follows is plain too or not. -/
theorem wordsAfter_plain (hblank : Text.isBlank c = false) (hquoting : isQuoting c = false)
    (hdollar : c ≠ '$') (hopen : d.delimiters.afterOpening? (c :: cs) = none) :
    wordsAfter d begun (c :: cs) = wordsAfter d (some (begun.getD [] ++ [c])) cs := by
  simp only [isQuoting, Bool.or_eq_false_iff, decide_eq_false_iff_not] at hquoting
  obtain ⟨⟨hsingle, hdouble⟩, hbackslash⟩ := hquoting
  have hpiece : (piece d c cs).map Piece.read
      = .ok (c :: (plain d.delimiters stopsWord cs).1, (plain d.delimiters stopsWord cs).2) := by
    rw [piece_of_unopened hopen, if_neg hsingle, if_neg hdouble, if_neg hbackslash, if_neg hdollar]
    rfl
  rw [wordsAfter_piece hblank hpiece, wordsAfter_run cs, List.append_assoc, List.singleton_append]

theorem wordsAfter_dollar (hopen : d.delimiters.afterOpening? ('$' :: cs) = none)
    (h : (dollar (c := '$') d.declared cs).read = (text, rest)) :
    wordsAfter d begun ('$' :: cs) = wordsAfter d (some (begun.getD [] ++ text)) rest := by
  refine wordsAfter_piece rfl ?_
  rw [piece_of_unopened hopen, if_neg (by decide), if_neg (by decide), if_neg (by decide),
    if_pos rfl]
  exact congrArg Except.ok h

/-! ## The spelling of a line -/

/-- The words of a line of which some may have begun before: `first` is what the line
adds to that word. -/
inductive Begins (first : List Char) (others : List (List Char)) :
    (begun : Option (List Char)) → (words : List (List Char)) → Prop
  | word (begun : Option (List Char)) :
      Begins first others begun ((begun.getD [] ++ first) :: others)
  | blank (h : first = []) : Begins first others none others

theorem Begins.append (h : Begins first others (some (begun.getD [] ++ text)) words) :
    Begins (text ++ first) others begun words := by
  cases h
  rw [Option.getD_some, List.append_assoc]
  exact .word begun

/-- How a line is read that has no quotes outside of expressions: `first` is what it adds
to the word that has begun, and `others` are the words behind. -/
inductive Spelled (d : Dialect) : (line first : List Char) → (others : List (List Char)) → Prop
  | nil : Spelled d [] [] []
  | blank {c : Char} {line first : List Char} {others words : List (List Char)}
      (hblank : Text.isBlank c = true) (h : Spelled d line first others)
      (hwords : Begins first others none words) : Spelled d (c :: line) [] words
  | plain {c : Char} {line first : List Char} {others : List (List Char)}
      (hblank : Text.isBlank c = false) (hdollar : c ≠ '$') (h : Spelled d line first others) :
      Spelled d (c :: line) (c :: first) others
  | dollar {line first : List Char} {others : List (List Char)}
      (hopen : d.delimiters.afterOpening? ('$' :: line) = none) (hnone : reference? line = none)
      (h : Spelled d line first others) : Spelled d ('$' :: line) ('$' :: first) others
  | reference {n w line first : List Char} {others : List (List Char)}
      (hopen : d.delimiters.afterOpening? ('$' :: (w ++ line)) = none)
      (hfound : reference? (w ++ line) = some (n, w)) (h : Spelled d line first others) :
      Spelled d ('$' :: (w ++ line)) ('$' :: (shown d.declared n w ++ first)) others
  | expression {cs body inside line first : List Char} {others : List (List Char)}
      (hopen : d.delimiters.afterOpening? ('$' :: cs) = some body)
      (hclose : d.delimiters.closing? body = some (inside, line))
      (h : Spelled d line first others) :
      Spelled d ('$' :: cs) (d.delimiters.enclose inside ++ first) others

/-! Other than dollars and blanks, a line and its words begin with the same characters. -/

theorem Spelled.exists_plain (h : Spelled d (c :: line) first others)
    (hblank : Text.isBlank c = false) (hdollar : c ≠ '$') :
    ∃ more, first = c :: more ∧ Spelled d line more others := by
  cases h with
  | blank htrue => rw [hblank] at htrue; cases htrue
  | plain _ _ h => exact ⟨_, rfl, h⟩
  | dollar => exact absurd rfl hdollar
  | reference => exact absurd rfl hdollar
  | expression => exact absurd rfl hdollar

theorem Spelled.of_cons (h : Spelled d line (c :: first) others) (hdollar : c ≠ '$') :
    ∃ rest, line = c :: rest ∧ Spelled d rest first others := by
  generalize hfirst : c :: first = word at h
  cases h with
  | nil => cases hfirst
  | blank => cases hfirst
  | plain _ _ h =>
      obtain ⟨rfl, rfl⟩ := List.cons.inj hfirst
      exact ⟨_, rfl, h⟩
  | dollar => exact absurd (List.cons.inj hfirst).1 hdollar
  | reference => exact absurd (List.cons.inj hfirst).1 hdollar
  | @expression cs body inside line first others hopen =>
      obtain ⟨more, hmore⟩ := Delimiters.exists_enclose_eq_cons hopen inside
      rw [hmore] at hfirst
      exact absurd (List.cons.inj hfirst).1 hdollar

theorem Spelled.of_append : ∀ {w line : List Char}, Spelled d line (w ++ first) others →
    '$' ∉ w → ∃ rest, line = w ++ rest ∧ Spelled d rest first others
  | [], line, h, _ => ⟨line, rfl, h⟩
  | c :: w, line, h, hdollar => by
      rw [List.mem_cons, not_or] at hdollar
      obtain ⟨more, rfl, hmore⟩ := h.of_cons (Ne.symm hdollar.1)
      obtain ⟨rest, rfl, hrest⟩ := hmore.of_append hdollar.2
      exact ⟨rest, rfl, hrest⟩

/-- A name in front of a line ends exactly if it ends in front of the line's words. -/
theorem Spelled.nameEnds_iff (h : Spelled d line first others) :
    NameEnds first ↔ NameEnds line := by
  constructor
  · intro hends c hc
    obtain ⟨rest, rfl⟩ := List.head?_eq_some_iff.mp hc
    by_contra hname
    rw [Bool.not_eq_false] at hname
    obtain ⟨more, rfl, -⟩ :=
      h.exists_plain (isBlank_of_isNameChar hname) (ne_dollar_of_isNameChar hname)
    rw [hends c rfl] at hname
    cases hname
  · intro hends c hc
    obtain ⟨more, rfl⟩ := List.head?_eq_some_iff.mp hc
    by_contra hname
    rw [Bool.not_eq_false] at hname
    obtain ⟨rest, rfl, -⟩ := h.of_cons (ne_dollar_of_isNameChar hname)
    rw [hends c rfl] at hname
    cases hname

theorem Spelled.refers_iff (h : Spelled d line first others) :
    Refers n w first ↔ Refers n w line := by
  constructor
  · rintro (- | hends)
    · exact .braced line
    · exact .bare (h.nameEnds_iff.mp hends)
  · rintro (- | hends)
    · exact .braced first
    · exact .bare (h.nameEnds_iff.mpr hends)

/-- Where a line does not begin with the name of a variable, its words do not either. -/
theorem Spelled.reference?_eq_none (h : Spelled d line first others)
    (hnone : reference? line = none) : reference? first = none := by
  by_contra hsome
  obtain ⟨⟨n, w⟩, hfound⟩ := Option.ne_none_iff_exists'.mp hsome
  obtain ⟨hname, more, hrefers, rfl⟩ := reference?_eq_some_iff.mp hfound
  obtain ⟨rest, rfl, hrest⟩ := h.of_append (hrefers.not_mem_dollar hname)
  rw [reference?_eq_some_iff.mpr ⟨hname, rest, hrest.refers_iff.mp hrefers, rfl⟩] at hnone
  cases hnone

/-! ## Reading spells a line -/

/-- The line goes on with `text` and then with `rest`, and so do its words. -/
structure Goes (d : Dialect) (line text rest : List Char) : Prop where
  suffix : rest <:+ line
  shorter : rest.length < line.length
  read : ∀ begun, wordsAfter d begun line = wordsAfter d (some (begun.getD [] ++ text)) rest
  spelled : ∀ {first others}, Spelled d rest first others → Spelled d line (text ++ first) others

theorem goes_plain (hblank : Text.isBlank c = false) (hquoting : isQuoting c = false)
    (hdollar : c ≠ '$') (hopen : d.delimiters.afterOpening? (c :: cs) = none) :
    Goes d (c :: cs) [c] cs where
  suffix := List.suffix_cons c cs
  shorter := Nat.lt_succ_self _
  read _ := wordsAfter_plain hblank hquoting hdollar hopen
  spelled := .plain hblank hdollar

theorem goes_dollar (hopen : d.delimiters.afterOpening? ('$' :: cs) = none)
    (hnone : reference? cs = none) : Goes d ('$' :: cs) ['$'] cs where
  suffix := List.suffix_cons '$' cs
  shorter := Nat.lt_succ_self _
  read _ := wordsAfter_dollar hopen (read_dollar_of_none hnone)
  spelled := .dollar hopen hnone

theorem goes_reference (hopen : d.delimiters.afterOpening? ('$' :: (w ++ rest)) = none)
    (hfound : reference? (w ++ rest) = some (n, w)) :
    Goes d ('$' :: (w ++ rest)) ('$' :: shown d.declared n w) rest where
  suffix := (List.suffix_append w rest).trans (List.suffix_cons '$' _)
  shorter := Nat.lt_succ_of_le (List.suffix_append w rest).length_le
  read _ := wordsAfter_dollar hopen (read_dollar_of_some hfound)
  spelled := .reference hopen hfound

theorem goes_expression {body inside : List Char}
    (hopen : d.delimiters.afterOpening? ('$' :: cs) = some body)
    (hclose : d.delimiters.closing? body = some (inside, rest)) :
    Goes d ('$' :: cs) (d.delimiters.enclose inside) rest where
  suffix := ⟨_, Delimiters.enclose_append hopen hclose⟩
  shorter := Nat.lt_of_le_of_lt (Delimiters.closing?_not_longer hclose)
    (Delimiters.afterOpening?_shorter hopen)
  read _ := wordsAfter_piece rfl (by
    rw [piece_of_opened hopen]
    exact (read_expression_iff hopen).mpr ⟨inside, hclose, rfl⟩)
  spelled := .expression hopen hclose

/-- The line is spelled, and its words are read. -/
def Spells (d : Dialect) (line first : List Char) (others : List (List Char)) : Prop :=
  Spelled d line first others
    ∧ ∀ begun, ∃ words, wordsAfter d begun line = .ok words ∧ Begins first others begun words

/-- Somewhere in the line an expression opens that is not closed, and reading fails. -/
def Unclosed (d : Dialect) (line : List Char) : Prop :=
  (∃ part, part <:+ line ∧ ∃ body, d.delimiters.afterOpening? part = some body
      ∧ d.delimiters.closing? body = none)
    ∧ ∀ begun, ∃ unfinished, wordsAfter d begun line = .error unfinished

theorem unclosed_of_opened {body : List Char}
    (hopen : d.delimiters.afterOpening? ('$' :: cs) = some body)
    (hclose : d.delimiters.closing? body = none) : Unclosed d ('$' :: cs) := by
  refine ⟨⟨_, List.suffix_rfl, body, hopen, hclose⟩, fun begun => ⟨body, ?_⟩⟩
  refine wordsAfter_broken (by decide) ?_
  rw [piece_of_opened hopen, expression_of_unclosed hopen hclose]

theorem Goes.spells_or_unclosed (hgoes : Goes d line text rest)
    (h : (∃ first others, Spells d rest first others) ∨ Unclosed d rest) :
    (∃ first others, Spells d line first others) ∨ Unclosed d line := by
  rcases h with ⟨first, others, hrest, hread⟩ | ⟨⟨part, hpart, hunclosed⟩, hfails⟩
  · refine .inl ⟨text ++ first, others, hgoes.spelled hrest, fun begun => ?_⟩
    obtain ⟨words, hwords, hbegins⟩ := hread (some (begun.getD [] ++ text))
    exact ⟨words, (hgoes.read begun).trans hwords, hbegins.append⟩
  · refine .inr ⟨⟨part, hpart.trans hgoes.suffix, hunclosed⟩, fun begun => ?_⟩
    obtain ⟨unfinished, herror⟩ := hfails (some (begun.getD [] ++ text))
    exact ⟨unfinished, (hgoes.read begun).trans herror⟩

/-- What has begun ends in front of the other words, if the line adds nothing to it. -/
theorem begins_nil (others : List (List Char)) (begun : Option (List Char)) :
    Begins [] others begun (begun.toList ++ others) := by
  cases begun with
  | none => exact .blank rfl
  | some text =>
      have hword : Begins [] others (some text) ((text ++ []) :: others) := .word (some text)
      rwa [List.append_nil] at hword

/-- A blank ends the word that has begun. -/
theorem spells_or_unclosed_of_blank (hblank : Text.isBlank c = true)
    (h : (∃ first others, Spells d cs first others) ∨ Unclosed d cs) :
    (∃ first others, Spells d (c :: cs) first others) ∨ Unclosed d (c :: cs) := by
  rcases h with ⟨first, others, hrest, hread⟩ | ⟨⟨part, hpart, hunclosed⟩, hfails⟩
  · obtain ⟨words, hwords, hbegins⟩ := hread none
    refine .inl ⟨[], words, .blank hblank hrest hbegins, fun begun => ?_⟩
    refine ⟨begun.toList ++ words, ?_, begins_nil words begun⟩
    rw [wordsAfter_blank hblank, hwords]
    rfl
  · refine .inr ⟨⟨part, hpart.trans (List.suffix_cons c cs), hunclosed⟩, fun begun => ?_⟩
    obtain ⟨unfinished, herror⟩ := hfails none
    refine ⟨unfinished, ?_⟩
    rw [wordsAfter_blank hblank, herror]
    rfl

/-- One step of a line that begins with no blank and has no quotes outside of expressions. -/
theorem goes_or_unclosed (hopens : d.delimiters.OpensAtDollar (c :: cs))
    (hquotes : (d.delimiters.outside (c :: cs)).any isQuoting = false)
    (hblank : Text.isBlank c = false) :
    (∃ text rest, Goes d (c :: cs) text rest ∧ (d.delimiters.outside rest).any isQuoting = false)
      ∨ Unclosed d (c :: cs) := by
  cases hopen : d.delimiters.afterOpening? (c :: cs) with
  | some body =>
      -- nothing but a dollar opens
      have hdollar : c = '$' := by
        by_contra hne
        rw [hopens List.suffix_rfl hne] at hopen
        cases hopen
      subst hdollar
      cases hclose : d.delimiters.closing? body with
      | none => exact .inr (unclosed_of_opened hopen hclose)
      | some found =>
          obtain ⟨inside, rest⟩ := found
          rw [Delimiters.outside_of_closed hopen hclose] at hquotes
          exact .inl ⟨_, rest, goes_expression hopen hclose, hquotes⟩
  | none =>
      rw [Delimiters.outside_of_unopened hopen, List.any_cons, Bool.or_eq_false_iff] at hquotes
      obtain ⟨hquoting, hquotes⟩ := hquotes
      by_cases hdollar : c = '$'
      · subst hdollar
        cases hfound : reference? cs with
        | none => exact .inl ⟨_, cs, goes_dollar hopen hfound, hquotes⟩
        | some found =>
            obtain ⟨n, w⟩ := found
            obtain ⟨hname, rest, hrefers, rfl⟩ := reference?_eq_some_iff.mp hfound
            rw [Delimiters.outside_append (hrefers.not_mem_dollar hname)
                (hopens.of_suffix (List.suffix_cons ..)),
              List.any_append, Bool.or_eq_false_iff] at hquotes
            exact .inl ⟨_, rest, goes_reference hopen hfound, hquotes.2⟩
      · exact .inl ⟨_, cs, goes_plain hblank hquoting hdollar hopen, hquotes⟩

/-- A line without quotes outside of its expressions is spelled, unless an expression
is not closed. -/
theorem spells_or_unclosed (line : List Char) (hopens : d.delimiters.OpensAtDollar line)
    (hquotes : (d.delimiters.outside line).any isQuoting = false) :
    (∃ first others, Spells d line first others) ∨ Unclosed d line := by
  match line with
  | [] =>
      exact .inl ⟨[], [], .nil, fun begun =>
        ⟨begun.toList, wordsAfter_nil, List.append_nil begun.toList ▸ begins_nil [] begun⟩⟩
  | c :: cs =>
      cases hblank : Text.isBlank c with
      | true =>
          have hopen := hopens.unopened_of_isBlank hblank
          rw [Delimiters.outside_of_unopened hopen, List.any_cons, Bool.or_eq_false_iff] at hquotes
          exact spells_or_unclosed_of_blank hblank
            (spells_or_unclosed cs (hopens.of_suffix (List.suffix_cons c cs)) hquotes.2)
      | false =>
          rcases goes_or_unclosed hopens hquotes hblank with ⟨text, rest, hgoes, hquotes⟩ | hfails
          · exact hgoes.spells_or_unclosed
              (spells_or_unclosed rest (hopens.of_suffix hgoes.suffix) hquotes)
          · exact .inr hfails
termination_by line.length
decreasing_by
  · exact hgoes.shorter
  · exact Nat.lt_succ_self _

end Command

end Manifest
