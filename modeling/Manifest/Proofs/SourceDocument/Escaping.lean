import Manifest.Proofs.ReferencePath.Written
import Manifest.Proofs.Template.Spliced
import Manifest.SourceDocument
/-!
# Contents of files in a template

What a file stands for has a further dollar in front of each `${` without a second brace
(`startsLiteral`). Nothing that is escaped starts with such a brace, so that the dollars are
where they have to be, and they alone go when the character in front of each such brace is
deleted (`unescapeBraces_escapeBraces`).

An opening delimiter stays as it is, with the same character in front of it. So the
expressions of a template stay, unless there is such a brace in them
(`expressions_escapeBraces`).
-/

namespace Manifest.SourceDocument

variable {c : Char} {cs rest : List Char}

/-! ## Braces -/

/-- The text starts with `${` and not with `${{`. -/
def startsLiteral (cs : List Char) : Bool :=
  List.isPrefixOf ['$', '{'] cs && !List.isPrefixOf ['$', '{', '{'] cs

/-- The text without the character in front of each `${` that has no second brace. -/
def unescapeBraces : List Char → List Char
  | [] => []
  | c :: rest => if startsLiteral rest then unescapeBraces rest else c :: unescapeBraces rest

theorem startsLiteral_iff :
    startsLiteral cs = true ↔ ∃ rest, cs = '$' :: '{' :: rest ∧ rest.head? ≠ some '{' := by
  constructor
  · intro h
    rw [startsLiteral, Bool.and_eq_true, Bool.not_eq_true', List.isPrefixOf_iff_prefix] at h
    obtain ⟨⟨rest, rfl⟩, hbrace⟩ := h
    refine ⟨rest, rfl, fun hhead => ?_⟩
    obtain ⟨more, rfl⟩ := List.head?_eq_some_iff.mp hhead
    simp at hbrace
  · rintro ⟨rest, rfl, hhead⟩
    cases rest with
    | nil => rfl
    | cons c rest =>
        have hne : ¬ '{' = c := fun heq => hhead (congrArg some heq.symm)
        simp [startsLiteral, List.isPrefixOf, hne]

theorem startsLiteral_cons_of_ne (h : c ≠ '$') : startsLiteral (c :: rest) = false := by
  simp [startsLiteral, Ne.symm h]

theorem unescapeBraces_cons (h : startsLiteral rest = false) :
    unescapeBraces (c :: rest) = c :: unescapeBraces rest := by
  rw [unescapeBraces, h]
  rfl

/-! ## Escaping -/

/-- Induction on a text from its end, with a case for each way that escaping goes on. -/
@[elab_as_elim]
theorem braces_induction {motive : List Char → Prop} (cs : List Char) (nil : motive [])
    (opening : ∀ rest, motive rest → motive ('$' :: '{' :: '{' :: rest))
    (literal : ∀ rest, rest.head? ≠ some '{' → motive rest → motive ('$' :: '{' :: rest))
    (plain : ∀ c rest, (c = '$' → rest.head? ≠ some '{') → motive rest → motive (c :: rest)) :
    motive cs := by
  fun_induction escapeBraces cs with
  | case1 rest ih => exact opening rest ih
  | case2 rest hbrace ih =>
      refine literal rest (fun hhead => ?_) ih
      obtain ⟨more, rfl⟩ := List.head?_eq_some_iff.mp hhead
      exact hbrace more rfl
  | case3 c rest hopening hliteral ih =>
      refine plain c rest (fun hc hhead => ?_) ih
      obtain ⟨more, hmore⟩ := List.head?_eq_some_iff.mp hhead
      exact hliteral more hc hmore
  | case4 => exact nil

theorem escapeBraces_opening (rest : List Char) :
    escapeBraces (({} : Delimiters).opening.toList ++ rest)
      = ({} : Delimiters).opening.toList ++ escapeBraces rest := by
  rw [Delimiters.opening_default]
  rfl

theorem escapeBraces_literal (h : rest.head? ≠ some '{') :
    escapeBraces ('$' :: '{' :: rest) = '$' :: '$' :: '{' :: escapeBraces rest := by
  rw [escapeBraces]
  rintro more rfl
  exact h rfl

theorem escapeBraces_plain (h : c = '$' → rest.head? ≠ some '{') :
    escapeBraces (c :: rest) = c :: escapeBraces rest := by
  rw [escapeBraces]
  · rintro more rfl rfl
    exact h rfl rfl
  · rintro more rfl rfl
    exact h rfl rfl

theorem head?_escapeBraces (cs : List Char) : (escapeBraces cs).head? = cs.head? := by
  induction cs using braces_induction with
  | nil => rfl
  | opening rest => rfl
  | literal rest hhead =>
      rw [escapeBraces_literal hhead]
      rfl
  | plain c rest hplain =>
      rw [escapeBraces_plain hplain]
      rfl

theorem startsLiteral_escapeBraces (cs : List Char) : startsLiteral (escapeBraces cs) = false := by
  induction cs using braces_induction with
  | nil => rfl
  | opening rest => rfl
  | literal rest hhead =>
      rw [escapeBraces_literal hhead]
      rfl
  | plain c rest hplain =>
      rw [escapeBraces_plain hplain, Bool.eq_false_iff]
      intro hstart
      obtain ⟨more, hmore, -⟩ := startsLiteral_iff.mp hstart
      obtain ⟨rfl, hrest⟩ := List.cons.inj hmore
      have hfirst := head?_escapeBraces rest
      rw [hrest] at hfirst
      exact hplain rfl hfirst.symm

theorem exists_of_cons_eq {before after : List Char} (h : c :: rest = before ++ after)
    (hstart : startsLiteral after = true) (hnot : startsLiteral (c :: rest) = false) :
    ∃ more, before = c :: more ∧ rest = more ++ after := by
  rcases List.cons_eq_append_iff.mp h with ⟨rfl, rfl⟩ | ⟨more, rfl, rfl⟩
  · rw [hstart] at hnot
    cases hnot
  · exact ⟨more, rfl, rfl⟩

theorem getLast?_cons_of_some {last : Char} {more : List Char} (h : more.getLast? = some last) :
    (c :: more).getLast? = some last := by
  rw [List.getLast?_cons, h]
  rfl

/-- Each brace that could be taken for an expression stands behind a dollar. -/
theorem getLast?_of_escapeBraces {before after : List Char}
    (h : escapeBraces cs = before ++ after) (hstart : startsLiteral after = true) :
    before.getLast? = some '$' := by
  induction cs using braces_induction generalizing before with
  | nil =>
      obtain ⟨rfl, rfl⟩ := List.append_eq_nil_iff.mp h.symm
      cases hstart
  | opening rest ih =>
      obtain ⟨before₁, rfl, h₁⟩ := exists_of_cons_eq h hstart rfl
      obtain ⟨before₂, rfl, h₂⟩ := exists_of_cons_eq h₁ hstart rfl
      obtain ⟨before₃, rfl, h₃⟩ := exists_of_cons_eq h₂ hstart rfl
      exact getLast?_cons_of_some (getLast?_cons_of_some (getLast?_cons_of_some (ih h₃)))
  | literal rest hhead ih =>
      rw [escapeBraces_literal hhead] at h
      obtain ⟨before₁, rfl, h₁⟩ := exists_of_cons_eq h hstart rfl
      rcases List.cons_eq_append_iff.mp h₁ with ⟨rfl, -⟩ | ⟨before₂, rfl, h₂⟩
      · rfl
      · obtain ⟨before₃, rfl, h₃⟩ :=
          exists_of_cons_eq h₂ hstart (startsLiteral_cons_of_ne (by decide))
        exact getLast?_cons_of_some (getLast?_cons_of_some (getLast?_cons_of_some (ih h₃)))
  | plain c rest hplain ih =>
      have hnot := startsLiteral_escapeBraces (c :: rest)
      rw [escapeBraces_plain hplain] at h hnot
      obtain ⟨more, rfl, hmore⟩ := exists_of_cons_eq h hstart hnot
      exact getLast?_cons_of_some (ih hmore)

/-- Only the dollars that were put in are deleted. -/
theorem unescapeBraces_escapeBraces (cs : List Char) : unescapeBraces (escapeBraces cs) = cs := by
  induction cs using braces_induction with
  | nil => rfl
  | opening rest ih =>
      show unescapeBraces ('$' :: '{' :: '{' :: escapeBraces rest) = _
      rw [unescapeBraces_cons rfl, unescapeBraces_cons (startsLiteral_cons_of_ne (by decide)),
        unescapeBraces_cons (startsLiteral_escapeBraces rest), ih]
  | literal rest hhead ih =>
      have hstart : startsLiteral ('$' :: '{' :: escapeBraces rest) = true :=
        startsLiteral_iff.mpr ⟨_, rfl, by rwa [head?_escapeBraces]⟩
      rw [escapeBraces_literal hhead, unescapeBraces, if_pos hstart,
        unescapeBraces_cons (startsLiteral_cons_of_ne (by decide)),
        unescapeBraces_cons (startsLiteral_escapeBraces rest), ih]
  | plain c rest hplain ih =>
      rw [escapeBraces_plain hplain, unescapeBraces_cons (startsLiteral_escapeBraces rest), ih]

/-! ## Expressions -/

open Template (expressions segmentsFrom)

/-- A text in which no such brace starts stays in front of what does not start with one. -/
theorem escapeBraces_append {before : List Char} (h : ¬ ['$', '{'] <:+: before)
    (hrest : rest.head? ≠ some '{') :
    escapeBraces (before ++ rest) = before ++ escapeBraces rest := by
  induction before with
  | nil => rfl
  | cons c before ih =>
      have hplain : c = '$' → (before ++ rest).head? ≠ some '{' := by
        rintro rfl hhead
        cases before with
        | nil => exact hrest hhead
        | cons brace before =>
            obtain rfl : brace = '{' := Option.some.inj hhead
            exact h ⟨[], before, rfl⟩
      rw [List.cons_append, escapeBraces_plain hplain, ih fun hinfix => h (List.infix_cons hinfix)]
      rfl

theorem escapeBraces_enclose {inside : List Char} (h : ¬ ['$', '{'] <:+: inside)
    (rest : List Char) :
    escapeBraces (({} : Delimiters).enclose inside ++ rest)
      = ({} : Delimiters).enclose inside ++ escapeBraces rest := by
  have hclosing : escapeBraces (({} : Delimiters).closing.toList ++ rest)
      = ({} : Delimiters).closing.toList ++ escapeBraces rest := by
    rw [Delimiters.closing_default]
    show escapeBraces ('}' :: '}' :: rest) = '}' :: '}' :: escapeBraces rest
    rw [escapeBraces_plain fun hc => absurd hc (by decide),
      escapeBraces_plain fun hc => absurd hc (by decide)]
  have hhead : (({} : Delimiters).closing.toList ++ rest).head? ≠ some '{' := by
    rw [Delimiters.closing_default]
    exact fun hbrace => absurd (Option.some.inj hbrace) (by decide)
  rw [Delimiters.enclose, List.append_assoc, List.append_assoc, escapeBraces_opening,
    escapeBraces_append h hhead, hclosing, List.append_assoc, List.append_assoc]

theorem afterOpening?_default_iff {body : List Char} :
    ({} : Delimiters).afterOpening? cs = some body ↔ cs = '$' :: '{' :: '{' :: body := by
  constructor
  · intro h
    rw [Delimiters.eq_append_of_afterOpening? h, Delimiters.opening_default]
    rfl
  · rintro rfl
    rw [Delimiters.afterOpening?, if_neg (by decide), Delimiters.opening_default]
    exact Text.dropStart?_append ['$', '{', '{'] body

theorem afterOpening?_of_plain (h : c = '$' → rest.head? ≠ some '{') :
    ({} : Delimiters).afterOpening? (c :: rest) = none := by
  rw [Option.eq_none_iff_forall_ne_some]
  intro body hopen
  obtain ⟨rfl, rfl⟩ := List.cons.inj (afterOpening?_default_iff.mp hopen)
  exact h rfl rfl

theorem afterOpening?_of_literal (h : rest.head? ≠ some '{') :
    ({} : Delimiters).afterOpening? ('$' :: '{' :: rest) = none := by
  rw [Option.eq_none_iff_forall_ne_some]
  intro body hopen
  obtain rfl := (List.cons.inj (List.cons.inj (afterOpening?_default_iff.mp hopen)).2).2
  exact h rfl

/-- Where nothing opens, one or two characters of the escaped text are read as text. -/
theorem exists_segmentsFrom_escapeBraces
    (hopen : ({} : Delimiters).afterOpening? (c :: rest) = none) (offset : Nat)
    (last : Option Char) :
    ∃ (next : Nat) (add : List Template.Segment → List Template.Segment),
      segmentsFrom {} offset last (escapeBraces (c :: rest))
          = (segmentsFrom {} next (some c) (escapeBraces rest)).map add
        ∧ ∀ segments, expressions (add segments) = expressions segments := by
  by_cases hbrace : c = '$' ∧ rest.head? = some '{'
  · obtain ⟨rfl, hhead⟩ := hbrace
    obtain ⟨tail, rfl⟩ := List.head?_eq_some_iff.mp hhead
    have htail : tail.head? ≠ some '{' := by
      intro hopening
      obtain ⟨body, rfl⟩ := List.head?_eq_some_iff.mp hopening
      rw [afterOpening?_default_iff.mpr rfl] at hopen
      cases hopen
    have hdollar : ({} : Delimiters).afterOpening? ('$' :: '$' :: '{' :: escapeBraces tail)
        = none := afterOpening?_of_plain fun _ => by simp
    have hliteral : ({} : Delimiters).afterOpening? ('$' :: '{' :: escapeBraces tail) = none :=
      afterOpening?_of_literal (by rwa [head?_escapeBraces])
    refine ⟨offset + '$'.utf8Size + '$'.utf8Size,
      fun segments => Template.addText ['$'] (Template.addText ['$'] segments), ?_, ?_⟩
    · rw [escapeBraces_literal htail, Template.segmentsFrom_plain hdollar,
        Template.segmentsFrom_plain hliteral, escapeBraces_plain fun hc => absurd hc (by decide)]
      cases segmentsFrom {} (offset + '$'.utf8Size + '$'.utf8Size) (some '$')
        ('{' :: escapeBraces tail) <;> rfl
    · intro segments
      rw [Template.expressions_addText, Template.expressions_addText]
  · have hplain : c = '$' → rest.head? ≠ some '{' := fun hc hhead => hbrace ⟨hc, hhead⟩
    have hopen' : ({} : Delimiters).afterOpening? (c :: escapeBraces rest) = none :=
      afterOpening?_of_plain fun hc => by rw [head?_escapeBraces]; exact hplain hc
    refine ⟨offset + c.utf8Size, Template.addText [c], ?_, Template.expressions_addText [c]⟩
    rw [escapeBraces_plain hplain, Template.segmentsFrom_plain hopen']

/-- The expressions of a template are those of the escaped one. -/
theorem expressions_escapeBraces {offset : Nat} {last : Option Char}
    {segments : List Template.Segment} (h : segmentsFrom {} offset last cs = .ok segments)
    (hbodies : ∀ e ∈ expressions segments, ∀ inside,
      e.raw = ({} : Delimiters).enclose inside → ¬ ['$', '{'] <:+: inside) (other : Nat) :
    ∃ escaped, segmentsFrom {} other last (escapeBraces cs) = .ok escaped
      ∧ expressions escaped = expressions segments := by
  fun_induction segmentsFrom {} offset last cs generalizing segments other with
  | case1 =>
      obtain rfl := Except.ok.inj h
      exact ⟨[], Template.segmentsFrom_nil, rfl⟩
  | case2 offset last c rest hopen ih =>
      obtain ⟨more, hmore, rfl⟩ := ok_of_map_eq_ok h
      rw [Template.expressions_addText] at hbodies ⊢
      obtain ⟨next, add, hstep, hadd⟩ := exists_segmentsFrom_escapeBraces hopen other last
      obtain ⟨escaped, hescaped, hsame⟩ := ih hmore hbodies next
      refine ⟨add escaped, ?_, by rw [hadd, hsame]⟩
      rw [hstep, hescaped]
      rfl
  | case3 offset c rest body hopen opening =>
      rename_i ih
      obtain ⟨more, hmore, rfl⟩ := ok_of_map_eq_ok h
      rw [Template.expressions_addText] at hbodies ⊢
      obtain ⟨escaped, hescaped, hsame⟩ :=
        ih hmore hbodies (other + Text.byteLength ({} : Delimiters).opening.toList)
      refine ⟨Template.addText opening escaped, ?_, by rw [Template.expressions_addText, hsame]⟩
      rw [Delimiters.eq_append_of_afterOpening? hopen, escapeBraces_opening,
        Template.segmentsFrom_opening hopen, hescaped]
      rfl
  | case4 => cases h
  | case5 => cases h
  | case6 offset last c rest body hopen hlast inside after hclose path hpath raw =>
      rename_i ih
      obtain ⟨more, hmore, rfl⟩ := ok_of_map_eq_ok h
      obtain ⟨hbody, hbodies⟩ := List.forall_mem_cons.mp hbodies
      obtain ⟨escaped, hescaped, hsame⟩ := ih hmore hbodies (other + Text.byteLength raw)
      refine ⟨.expression ⟨raw, path⟩ :: escaped, ?_, by rw [expressions, expressions, hsame]⟩
      rw [← Delimiters.enclose_append hopen hclose, escapeBraces_enclose (hbody inside rfl),
        Template.segmentsFrom_enclose hopen hclose hpath hlast, hescaped]
      rfl

/-- Escaping puts a dollar in front of each brace that could be taken for an expression,
deleting these dollars gives the text back, and a template keeps its expressions, unless
there is such a brace in one of them. -/
theorem escapeBraces_reversible (text : String) :
    (∀ before after, escapeBraces text.toList = before ++ after → startsLiteral after = true →
      before.getLast? = some '$')
    ∧ unescapeBraces (escapeBraces text.toList) = text.toList
    ∧ ∀ segments, Template.read {} text = .ok segments →
        (∀ e ∈ expressions segments, ∀ inside,
          e.raw = ({} : Delimiters).enclose inside → ¬ ['$', '{'] <:+: inside) →
        ∃ escaped, Template.read {} (String.ofList (escapeBraces text.toList)) = .ok escaped
          ∧ expressions escaped = expressions segments := by
  refine ⟨fun _ _ => getLast?_of_escapeBraces, unescapeBraces_escapeBraces text.toList, ?_⟩
  intro segments hread hbodies
  obtain ⟨escaped, hescaped, hsame⟩ := expressions_escapeBraces hread hbodies 0
  refine ⟨escaped, ?_, hsame⟩
  rw [Template.read, String.toList_ofList]
  exact hescaped

theorem read_homeText : Template.read {} "$$\x7ba\x7d$\x7b\x7bp\x7d\x7d"
    = .ok [.text "$$\x7ba\x7d".toList, .expression ⟨"$\x7b\x7bp\x7d\x7d".toList, ["p"]⟩] := by
  have hpath : ReferencePath.read? ['p'] = some ["p"] := by
    have htext : (ReferencePath.text ["p"]).toList = ['p'] := by
      rw [ReferencePath.text, String.intercalate_singleton, String.toList_ofList]
    rw [← htext]
    exact ReferencePath.read?_text_alone (by decide)
  simp [Template.read, segmentsFrom, Delimiters.afterOpening?, Text.dropStart?, Delimiters.closing?,
    Text.breakOn?, hpath, Delimiters.enclose, Except.map, Template.addText]

/-- A brace behind a dollar, and an expression behind it. -/
theorem escapeBraces_homeText :
    escapeBraces "$$\x7ba\x7d$\x7b\x7bp\x7d\x7d".toList
      = "$$$\x7ba\x7d$\x7b\x7bp\x7d\x7d".toList
    ∧ startsLiteral "$\x7ba\x7d$\x7b\x7bp\x7d\x7d".toList = true
    ∧ "$$".toList.getLast? = some '$'
    ∧ unescapeBraces "$$$\x7ba\x7d$\x7b\x7bp\x7d\x7d".toList
      = "$$\x7ba\x7d$\x7b\x7bp\x7d\x7d".toList
    ∧ ∃ escaped, Template.read {} "$$$\x7ba\x7d$\x7b\x7bp\x7d\x7d" = .ok escaped
      ∧ expressions escaped = [⟨"$\x7b\x7bp\x7d\x7d".toList, ["p"]⟩] := by
  obtain ⟨hdollars, hunescape, hexpressions⟩ :=
    escapeBraces_reversible "$$\x7ba\x7d$\x7b\x7bp\x7d\x7d"
  have hescape : escapeBraces "$$\x7ba\x7d$\x7b\x7bp\x7d\x7d".toList
      = "$$$\x7ba\x7d$\x7b\x7bp\x7d\x7d".toList := by
    simp [escapeBraces]
  have hstart : startsLiteral "$\x7ba\x7d$\x7b\x7bp\x7d\x7d".toList = true := by
    simp [startsLiteral, List.isPrefixOf]
  rw [hescape] at hdollars hunescape hexpressions
  refine ⟨hescape, hstart, hdollars _ _ (by simp) hstart, hunescape, ?_⟩
  have hbody : ∀ e ∈ expressions [.text "$$\x7ba\x7d".toList,
      .expression ⟨"$\x7b\x7bp\x7d\x7d".toList, ["p"]⟩], ∀ inside,
        e.raw = ({} : Delimiters).enclose inside → ¬ ['$', '{'] <:+: inside := by
    intro e he inside hraw
    obtain rfl := List.mem_singleton.mp he
    have hinside : ['p'] = inside := by
      refine (List.append_left_inj ['}', '}']).mp ?_
      simpa [Delimiters.enclose] using hraw
    rw [← hinside]
    exact fun hinfix => absurd hinfix.length_le (by decide)
  exact hexpressions _ read_homeText hbody

end Manifest.SourceDocument
