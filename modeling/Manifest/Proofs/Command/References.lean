import Manifest.Proofs.Command.Loops
import Manifest.Proofs.Command.Unquoted
/-!
# Variables in words

A line refers to variables, and so do the words that are read from it, each by the rule by
which a dollar is read. A declared variable loses its braces, and then its name ends only
where no character of a name follows. So the words refer to the variables of the line
exactly if every declared variable in braces is parted from what follows
(`exists_words_references`): in front of a character of a name, the braces are what ends the
name, and without them the word refers to a variable with a longer name.

Without quotes and expressions, all white space of a line stands outside of pieces
(`blank_mem_iff`). The loops that read the words come to an end if they skip all of it.
-/

namespace Manifest

namespace Delimiters

variable {d : Delimiters} {cs rest : List Char}

/-- No expression begins in the text. -/
def OpensNowhere (d : Delimiters) (cs : List Char) : Prop :=
  ∀ ⦃part : List Char⦄, part <:+ cs → d.afterOpening? part = none

theorem OpensNowhere.of_suffix (h : d.OpensNowhere cs) (hrest : rest <:+ cs) :
    d.OpensNowhere rest :=
  fun _ hpart => h (hpart.trans hrest)

theorem OpensNowhere.opensAtDollar (h : d.OpensNowhere cs) : d.OpensAtDollar cs :=
  fun _ _ hpart _ => h hpart

theorem OpensNowhere.outside : ∀ {cs : List Char}, d.OpensNowhere cs → d.outside cs = cs
  | [], _ => by rw [Delimiters.outside]
  | c :: cs, h => by
      rw [outside_of_unopened (h List.suffix_rfl),
        OpensNowhere.outside (h.of_suffix (List.suffix_cons c cs))]

theorem opensNowhere_of_opensIn {line : String} (h : d.opensIn line = false) :
    d.OpensNowhere line.toList := by
  rw [opensIn, Bool.and_eq_false_iff, Bool.not_eq_false'] at h
  rintro part ⟨front, hline⟩
  unfold afterOpening?
  rcases h with hempty | hnone
  · rw [if_pos hempty]
  · split
    · rfl
    · rw [Option.isSome_eq_false_iff, Option.isNone_iff_eq_none, ← hline] at hnone
      by_contra hstart
      obtain ⟨body, hbody⟩ := Option.ne_none_iff_exists'.mp hstart
      rw [Text.eq_append_of_dropStart? hbody] at hnone
      exact Text.not_infix_of_breakOn?_eq_none hnone ⟨front, body, by simp⟩

end Delimiters

namespace Command

variable {d : Dialect} {declared : List String} {c : Char}
variable {cs n w line first rest : List Char} {others ws : List (List Char)}

/-! ## The variables of a text -/

/-- The names of the variables that a text refers to, in order. -/
def references (cs : List Char) : List (List Char) :=
  match cs with
  | [] => []
  | c :: rest =>
    if c = '$' then
      match reference? rest with
      | some (n, w) => n :: references (rest.drop w.length)
      | none => references rest
    else references rest
termination_by cs.length
decreasing_by
  · simp only [List.length_drop, List.length_cons]; omega
  · exact Nat.lt_succ_self _
  · exact Nat.lt_succ_self _

theorem references_nil : references [] = [] := by
  rw [references]

theorem references_cons_of_ne (h : c ≠ '$') : references (c :: rest) = references rest := by
  rw [references, if_neg h]

/-- A text refers to nothing without a dollar. -/
theorem references_append : ∀ {w : List Char}, '$' ∉ w → references (w ++ rest) = references rest
  | [], _ => rfl
  | c :: w, h => by
      rw [List.mem_cons, not_or] at h
      exact (references_cons_of_ne (Ne.symm h.1)).trans (references_append h.2)

theorem references_of_none (h : reference? rest = none) :
    references ('$' :: rest) = references rest := by
  rw [references, if_pos rfl, h]

theorem references_of_some (h : reference? (w ++ rest) = some (n, w)) :
    references ('$' :: (w ++ rest)) = n :: references rest := by
  rw [references, if_pos rfl, h]
  simp only [List.drop_left]

/-! ## Names that end where their braces do -/

/-- Behind each declared variable in braces, no character of a name follows. -/
def Parted (declared : List String) (line : List Char) : Prop :=
  ∀ ⦃n rest : List Char⦄, IsName n → declared.contains (String.ofList n) = true →
    ('$' :: '{' :: (n ++ '}' :: rest)) <:+ line → NameEnds rest

theorem reference?_braced (h : IsName n) (rest : List Char) :
    reference? ('{' :: (n ++ '}' :: rest)) = some (n, '{' :: (n ++ ['}'])) :=
  reference?_eq_some_iff.mpr ⟨h, rest, .braced rest, by simp⟩

theorem parted_nil : Parted declared [] := by
  intro n rest _ _ hsuffix
  cases List.suffix_nil.mp hsuffix

theorem Parted.of_suffix (h : Parted declared cs) (hrest : rest <:+ cs) : Parted declared rest :=
  fun _ _ hname hdeclared hsuffix => h hname hdeclared (hsuffix.trans hrest)

theorem parted_cons_iff (h : ∀ ⦃n rest : List Char⦄, IsName n →
      '$' :: '{' :: (n ++ '}' :: rest) ≠ c :: cs) :
    Parted declared (c :: cs) ↔ Parted declared cs := by
  refine ⟨fun hparted => hparted.of_suffix (List.suffix_cons c cs), ?_⟩
  intro hparted n rest hname hdeclared hsuffix
  rcases List.suffix_cons_iff.mp hsuffix with heq | hsuffix
  · exact absurd heq (h hname)
  · exact hparted hname hdeclared hsuffix

theorem parted_cons_of_ne (h : c ≠ '$') :
    Parted declared (c :: cs) ↔ Parted declared cs :=
  parted_cons_iff fun _ _ _ heq => h (List.cons.inj heq).1.symm

theorem parted_append : ∀ {w : List Char}, '$' ∉ w →
    (Parted declared (w ++ cs) ↔ Parted declared cs)
  | [], _ => Iff.rfl
  | c :: w, h => by
      rw [List.mem_cons, not_or] at h
      exact (parted_cons_of_ne (Ne.symm h.1)).trans (parted_append h.2)

theorem parted_of_none (h : reference? cs = none) :
    Parted declared ('$' :: cs) ↔ Parted declared cs := by
  refine parted_cons_iff fun n rest hname heq => ?_
  rw [← (List.cons.inj heq).2, reference?_braced hname] at h
  cases h

/-- Of a variable that loses its braces, the name has to end behind them. -/
theorem parted_of_some (h : reference? (w ++ rest) = some (n, w)) :
    Parted declared ('$' :: (w ++ rest))
      ↔ (shown declared n w ≠ w → NameEnds rest) ∧ Parted declared rest := by
  obtain ⟨hname, after, hrefers, hsplit⟩ := reference?_eq_some_iff.mp h
  obtain rfl := List.append_cancel_left hsplit
  constructor
  · intro hparted
    refine ⟨fun hshown => ?_, hparted.of_suffix ((List.suffix_append w rest).trans
      (List.suffix_cons '$' _))⟩
    unfold shown at hshown
    split at hshown
    · rename_i hdeclared
      cases hrefers with
      | braced => exact hparted hname hdeclared ⟨[], by simp⟩
      | bare => exact absurd rfl hshown
    · exact absurd rfl hshown
  · rintro ⟨hends, hparted⟩ m after hmname hdeclared hsuffix
    rcases List.suffix_cons_iff.mp hsuffix with heq | hsuffix
    · have hcs := (List.cons.inj heq).2
      have hbraced := reference?_braced hmname after
      rw [hcs, h] at hbraced
      obtain ⟨rfl, rfl⟩ := Prod.mk.inj (Option.some.inj hbraced)
      have hrest : after = rest := by simpa using hcs
      rw [hrest]
      refine hends ?_
      rw [shown, if_pos hdeclared]
      intro hself
      have hlength := congrArg List.length hself
      simp only [List.length_cons, List.length_append] at hlength
      omega
    · exact (parted_append (hrefers.not_mem_dollar hname)).mpr hparted hmname hdeclared hsuffix

/-! ## The variables of the words -/

/-- A name that goes on is another name. -/
theorem exists_references_of_not_ends (hname : IsName n) (h : ¬ NameEnds rest) :
    ∃ m more, references ('$' :: (n ++ rest)) = m :: more ∧ m ≠ n := by
  rcases name_cases (n ++ rest) with hnone | ⟨m, after, -, hm, hsplit, hends⟩
  · rw [name_append hname] at hnone
    obtain ⟨c, more, rfl, -⟩ := hname.exists_cons
    cases hnone
  · rw [hsplit]
    refine ⟨m, references after,
      references_of_some (reference?_eq_some_iff.mpr ⟨hm, after, .bare hends, rfl⟩), ?_⟩
    rintro rfl
    exact h (List.append_cancel_left hsplit ▸ hends)

/-- A variable is still meant once it is read, unless the name behind its braces goes on. -/
theorem references_shown (h : Refers n w rest) (hname : IsName n) (others : List (List Char))
    (names : List (List Char)) :
    references ('$' :: (shown declared n w ++ rest)) ++ others.flatMap references = n :: names
      ↔ (shown declared n w ≠ w → NameEnds rest)
        ∧ references rest ++ others.flatMap references = names := by
  have hsame {text : List Char} (hrefers : Refers n text rest) :
      references ('$' :: (text ++ rest)) ++ others.flatMap references = n :: names
        ↔ references rest ++ others.flatMap references = names := by
    rw [references_of_some (reference?_eq_some_iff.mpr ⟨hname, rest, hrefers, rfl⟩),
      List.cons_append, List.cons_inj_right]
  by_cases hshown : shown declared n w = w
  · rw [hshown, hsame h]
    exact ⟨fun hrest => ⟨fun hne => absurd rfl hne, hrest⟩, And.right⟩
  · have hbare : shown declared n w = n := by
      unfold shown at hshown ⊢
      split at hshown
      · rename_i hdeclared
        rw [if_pos hdeclared]
      · exact absurd rfl hshown
    -- the braces are lost, so that only what follows can end the name
    by_cases hends : NameEnds rest
    · rw [hbare, hsame (.bare hends)]
      exact ⟨fun hrest => ⟨fun _ => hends, hrest⟩, And.right⟩
    · obtain ⟨m, more, hread, hne⟩ := exists_references_of_not_ends hname hends
      rw [hbare, hread, List.cons_append]
      refine ⟨fun heq => absurd (List.cons.inj heq).1 hne, fun ⟨hrest, _⟩ => ?_⟩
      exact absurd (hrest (hbare ▸ hshown)) hends

theorem Begins.references (h : Begins first others none ws) :
    ws.flatMap references = references first ++ others.flatMap references := by
  cases h with
  | word => rw [List.flatMap_cons]; rfl
  | blank hempty => rw [hempty, references_nil, List.nil_append]

/-- The words of a line refer to its variables exactly if the braced ones are parted from
what follows. -/
theorem references_spelled (h : Spelled d line first others)
    (hopens : d.delimiters.OpensNowhere line) :
    references first ++ others.flatMap references = references line
      ↔ Parted d.declared line := by
  induction h with
  | nil =>
      rw [references_nil]
      exact iff_of_true rfl parted_nil
  | blank hblank h hwords ih =>
      have hdollar := ne_dollar_of_isBlank hblank
      rw [references_nil, List.nil_append, hwords.references, references_cons_of_ne hdollar,
        parted_cons_of_ne hdollar]
      exact ih (hopens.of_suffix (List.suffix_cons ..))
  | plain hblank hdollar h ih =>
      rw [references_cons_of_ne hdollar, references_cons_of_ne hdollar, parted_cons_of_ne hdollar]
      exact ih (hopens.of_suffix (List.suffix_cons ..))
  | dollar hopen hnone h ih =>
      rw [references_of_none hnone, references_of_none (h.reference?_eq_none hnone),
        parted_of_none hnone]
      exact ih (hopens.of_suffix (List.suffix_cons ..))
  | reference hopen hfound h ih =>
      obtain ⟨hname, after, hrefers, hsplit⟩ := reference?_eq_some_iff.mp hfound
      obtain rfl := List.append_cancel_left hsplit
      rw [references_of_some hfound, parted_of_some hfound,
        references_shown (h.refers_iff.mpr hrefers) hname, h.nameEnds_iff]
      exact and_congr_right fun _ =>
        ih (hopens.of_suffix ((List.suffix_append ..).trans (List.suffix_cons ..)))
  | expression hopen =>
      rw [hopens List.suffix_rfl] at hopen
      cases hopen

theorem exists_words_references {line : String} (hquotes : line.toList.any isQuoting = false)
    (hopens : d.delimiters.OpensNowhere line.toList) :
    ∃ args, words d line = .ok args
      ∧ (args.flatMap (fun arg => references arg.toList) = references line.toList
          ↔ Parted d.declared line.toList) := by
  rw [← hopens.outside] at hquotes
  rcases spells_or_unclosed line.toList hopens.opensAtDollar hquotes with
    ⟨first, others, hspelled, hread⟩ | ⟨⟨part, hpart, body, hopen, -⟩, -⟩
  · obtain ⟨ws, hws, hbegins⟩ := hread none
    refine ⟨ws.map String.ofList, words_eq_ok_iff.mpr ⟨ws, hws, rfl⟩, ?_⟩
    rw [← references_spelled hspelled hopens, ← hbegins.references, List.flatMap_map]
    simp only [String.toList_ofList]
  · rw [hopens hpart] at hopen
    cases hopen

/-! ## White space -/

/-- A piece holds white space only in quotes, behind a backslash or in an expression. -/
theorem Form.Leads.not_mem_blank {f : Form} (h : f.Leads d cs rest)
    (hquotes : cs.any isQuoting = false) (hopens : d.delimiters.OpensNowhere cs)
    (hblank : Text.isBlank c = true) : c ∉ Command.written (f.marked d) := by
  rw [List.any_eq_false] at hquotes
  cases h with
  | single => exact absurd rfl (hquotes '\'' (List.mem_cons_self ..))
  | double => exact absurd rfl (hquotes '"' (List.mem_cons_self ..))
  | part _ h =>
      cases h with
      | expression hopen =>
          rw [hopens List.suffix_rfl] at hopen
          cases hopen
      | bare _ h =>
          cases h with
          | escaped => exact absurd rfl (hquotes '\\' (List.mem_cons_self ..))
          | dollar =>
              rintro hc
              exact ne_dollar_of_isBlank hblank (List.mem_singleton.mp hc)
          | reference hname hrefers =>
              rw [Form.marked, written_marked_reference, List.mem_cons, not_or]
              exact ⟨ne_dollar_of_isBlank hblank, hrefers.not_mem_blank hblank hname⟩
          | plain hplain =>
              rw [Form.marked, Part.marked, written_keep]
              intro hc
              have hstop : (Text.isBlank c || c = '\'' || stopsQuoted c) = false :=
                hplain.not_stops hc
              rw [hblank, Bool.true_or, Bool.true_or] at hstop
              cases hstop

/-- In a line without quotes and expressions, all white space stands outside of pieces. -/
theorem blank_mem_iff {items : List Item} {last : List Char} (h : Row (Item.Leads d) items cs last)
    (hlast : last = []) (hquotes : cs.any isQuoting = false)
    (hopens : d.delimiters.OpensNowhere cs) :
    Item.blank c ∈ items ↔ c ∈ cs ∧ Text.isBlank c = true := by
  induction h with
  | nil =>
      subst hlast
      simp
  | @cons item items cs mid last hitem _ ih =>
      have hmid : mid <:+ cs := ⟨_, hitem.written.symm⟩
      have hmore : mid.any isQuoting = false := by
        rw [List.any_eq_false] at hquotes ⊢
        exact fun e he => hquotes e (hmid.subset he)
      rw [List.mem_cons, ih hlast hmore (hopens.of_suffix hmid)]
      cases hitem with
      | blank hblank =>
          rw [List.mem_cons, Item.blank.injEq, or_and_right]
          exact or_congr_left ⟨fun heq => ⟨heq, heq ▸ hblank⟩, And.left⟩
      | piece hpiece =>
          constructor
          · rintro (heq | ⟨hc, hblank⟩)
            · cases heq
            · exact ⟨hmid.subset hc, hblank⟩
          · rintro ⟨hc, hblank⟩
            rw [hpiece.written] at hc
            have hnot := hpiece.not_mem_blank hquotes hopens hblank
            exact Or.inr ⟨(List.mem_append.mp hc).resolve_left hnot, hblank⟩

/-- Over a line with neither quotes nor expressions, the loops end exactly if all its white
space is of the kind that they skip; at any other they stay for ever. Where they end, the line
has words, and these refer to the variables that the line refers to exactly if no declared
variable in braces stands in front of a character of a name. -/
theorem references_words (d : Dialect) {line : String} (hopening : d.delimiters.opening ≠ "")
    (hquotes : line.toList.any isQuoting = false)
    (hopens : d.delimiters.opensIn line = false) :
    ((∃ o, State.Runs d (.start line.toList) (.ended o))
        ↔ ∀ c ∈ line.toList, Text.isBlank c = true → isSeparator c = true)
      ∧ ∀ o, State.Runs d (.start line.toList) (.ended o) →
        ∃ args, o.result line = .ok args ∧ words d line = .ok args
          ∧ (args.flatMap (fun arg => references arg.toList) = references line.toList
              ↔ Parted d.declared line.toList) := by
  have hnowhere := Delimiters.opensNowhere_of_opensIn hopens
  obtain ⟨args, hwords, hreferences⟩ := exists_words_references hquotes hnowhere
  obtain ⟨items, last, hreads⟩ := exists_reads d line.toList
  obtain ⟨hlast, -⟩ := hreads.words_eq_ok_iff.mp hwords
  constructor
  · rw [State.ends_iff hopening hreads]
    simp only [blank_mem_iff hreads.row hlast hquotes hnowhere, and_imp]
  · intro o hended
    refine ⟨args, ?_, hwords, hreferences⟩
    rw [State.result_of_ended hopening hreads hended, hwords]

/-- A dot ends a name, and the spaces are skipped. -/
theorem parted_serve :
    ({} : Delimiters).opening ≠ ""
      ∧ "serve $\x7bPORT\x7d.log $HOST".toList.any isQuoting = false
      ∧ ({} : Delimiters).opensIn "serve $\x7bPORT\x7d.log $HOST" = false
      ∧ (∃ o, State.Runs ⟨{}, ["PORT"]⟩ (.start "serve $\x7bPORT\x7d.log $HOST".toList) (.ended o)
        ∧ o.result "serve $\x7bPORT\x7d.log $HOST" = .ok ["serve", "$PORT.log", "$HOST"])
      ∧ Parted ["PORT"] "serve $\x7bPORT\x7d.log $HOST".toList
      ∧ ["serve", "$PORT.log", "$HOST"].flatMap (fun arg => references arg.toList)
        = references "serve $\x7bPORT\x7d.log $HOST".toList := by
  have hopening : ({} : Delimiters).opening ≠ "" := by decide
  have hquotes : "serve $\x7bPORT\x7d.log $HOST".toList.any isQuoting = false := by decide
  have hopens : ({} : Delimiters).opensIn "serve $\x7bPORT\x7d.log $HOST" = false := by decide
  have hskipped : "serve $\x7bPORT\x7d.log $HOST".toList.all
      (fun c => !Text.isBlank c || isSeparator c) = true := by decide
  have hparted : Parted ["PORT"] "serve $\x7bPORT\x7d.log $HOST".toList := by
    have hline : "serve $\x7bPORT\x7d.log $HOST".toList = "serve ".toList
        ++ '$' :: ("\x7bPORT\x7d".toList ++ (".log ".toList ++ '$' :: ("HOST".toList ++ []))) := rfl
    rw [hline, parted_append (by decide), parted_of_some rfl, parted_append (by decide),
      parted_of_some rfl]
    refine ⟨fun _ => ?_, fun hshown => absurd rfl hshown, parted_nil⟩
    rintro c ⟨⟩
    rfl
  have hwords : words ⟨{}, ["PORT"]⟩ "serve $\x7bPORT\x7d.log $HOST"
      = .ok ["serve", "$PORT.log", "$HOST"] := by
    refine words_eq_ok_iff.mpr ⟨["serve".toList, "$PORT.log".toList, "$HOST".toList], ?_, rfl⟩
    calc wordsAfter ⟨{}, ["PORT"]⟩ none "serve $\x7bPORT\x7d.log $HOST".toList
      _ = wordsAfter ⟨{}, ["PORT"]⟩ (some "serve".toList) " $\x7bPORT\x7d.log $HOST".toList :=
        wordsAfter_piece rfl rfl
      _ = (wordsAfter ⟨{}, ["PORT"]⟩ none "$\x7bPORT\x7d.log $HOST".toList).map
          (["serve".toList] ++ ·) := wordsAfter_blank rfl
      _ = (wordsAfter ⟨{}, ["PORT"]⟩ (some "$PORT".toList) ".log $HOST".toList).map
          (["serve".toList] ++ ·) := congrArg _ (wordsAfter_piece rfl rfl)
      _ = (wordsAfter ⟨{}, ["PORT"]⟩ (some "$PORT.log".toList) " $HOST".toList).map
          (["serve".toList] ++ ·) := congrArg _ (wordsAfter_piece rfl rfl)
      _ = ((wordsAfter ⟨{}, ["PORT"]⟩ none "$HOST".toList).map (["$PORT.log".toList] ++ ·)).map
          (["serve".toList] ++ ·) := congrArg _ (wordsAfter_blank rfl)
      _ = ((wordsAfter ⟨{}, ["PORT"]⟩ (some "$HOST".toList) []).map (["$PORT.log".toList] ++ ·)).map
          (["serve".toList] ++ ·) := congrArg _ (congrArg _ (wordsAfter_piece rfl rfl))
      _ = .ok ["serve".toList, "$PORT.log".toList, "$HOST".toList] :=
        congrArg _ (congrArg _ wordsAfter_nil)
  obtain ⟨hends, hread⟩ := references_words ⟨{}, ["PORT"]⟩ hopening hquotes hopens
  obtain ⟨o, hended⟩ := hends.mpr fun c hc hblank => by
    simpa [hblank] using List.all_eq_true.mp hskipped c hc
  obtain ⟨args, hresult, hargs, hsame⟩ := hread o hended
  obtain rfl := Except.ok.inj (hwords.symm.trans hargs)
  exact ⟨hopening, hquotes, hopens, ⟨o, hended, hresult⟩, hparted, hsame.mpr hparted⟩

/-- An underscore goes on with a name, and another variable is meant. -/
theorem references_ping :
    "ping $\x7bHOST\x7d_local".toList.any isQuoting = false
      ∧ ({} : Delimiters).opensIn "ping $\x7bHOST\x7d_local" = false
      ∧ words ⟨{}, ["HOST"]⟩ "ping $\x7bHOST\x7d_local" = .ok ["ping", "$HOST_local"]
      ∧ references "ping $\x7bHOST\x7d_local".toList = ["HOST".toList]
      ∧ ["ping", "$HOST_local"].flatMap (fun arg => references arg.toList)
          = ["HOST_local".toList] := by
  refine ⟨by decide, by decide, ?_, ?_, ?_⟩
  · refine words_eq_ok_iff.mpr ⟨["ping".toList, "$HOST_local".toList], ?_, rfl⟩
    calc wordsAfter ⟨{}, ["HOST"]⟩ none "ping $\x7bHOST\x7d_local".toList
      _ = wordsAfter ⟨{}, ["HOST"]⟩ (some "ping".toList) " $\x7bHOST\x7d_local".toList :=
        wordsAfter_piece rfl rfl
      _ = (wordsAfter ⟨{}, ["HOST"]⟩ none "$\x7bHOST\x7d_local".toList).map
          (["ping".toList] ++ ·) := wordsAfter_blank rfl
      _ = (wordsAfter ⟨{}, ["HOST"]⟩ (some "$HOST".toList) "_local".toList).map
          (["ping".toList] ++ ·) := congrArg _ (wordsAfter_piece rfl rfl)
      _ = (wordsAfter ⟨{}, ["HOST"]⟩ (some "$HOST_local".toList) []).map (["ping".toList] ++ ·) :=
        congrArg _ (wordsAfter_piece rfl rfl)
      _ = .ok ["ping".toList, "$HOST_local".toList] := congrArg _ wordsAfter_nil
  · calc references "ping $\x7bHOST\x7d_local".toList
      _ = references ('$' :: ("\x7bHOST\x7d".toList ++ ("_local".toList ++ []))) :=
        references_append (by decide : '$' ∉ "ping ".toList)
      _ = "HOST".toList :: references ("_local".toList ++ []) := references_of_some rfl
      _ = ["HOST".toList] := by rw [references_append (by decide), references_nil]
  · have hping : references ("ping".toList ++ []) = [] :=
      (references_append (by decide)).trans references_nil
    have hlocal : references ('$' :: ("HOST_local".toList ++ [])) = ["HOST_local".toList] :=
      (references_of_some rfl).trans (congrArg _ references_nil)
    calc references ("ping".toList ++ []) ++ (references ('$' :: ("HOST_local".toList ++ [])) ++ [])
      _ = ["HOST_local".toList] := by rw [hping, hlocal]; rfl

end Command

end Manifest
