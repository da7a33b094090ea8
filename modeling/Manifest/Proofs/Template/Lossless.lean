import Manifest.Proofs.Template.Spliced
/-!
# Reading loses nothing

The segments of a template are its source cut into pieces: texts, none of them empty
and no two of them side by side, and expressions as they are written (`Exact`). With
the default delimiters the cuts are where they have to be: whatever looks like the
beginning of an expression inside of a text stands behind a dollar, and no expression
does (`Escaped`).

Where a text is no template, the fault is at an opening delimiter. What stands in front
of it is a template by itself, and what follows is to blame (`BrokenFrom`).

The pieces are counted from the character `last` that stands in front of them, so that
the induction can go on behind a piece.
-/

namespace Manifest

namespace Text

variable {needle : List Char}

theorem not_infix_of_breakOn?_eq_none : ∀ {cs : List Char}, breakOn? needle cs = none →
    ¬ needle <:+: cs
  | [], h => by
      intro hinfix
      obtain rfl := List.infix_nil.mp hinfix
      cases h
  | c :: cs, h => by
      rw [breakOn?] at h
      split at h
      · cases h
      · next hstart =>
          rw [Option.map_eq_none_iff] at h
          intro hinfix
          rcases List.infix_cons_iff.mp hinfix with ⟨rest, hrest⟩ | hinfix
          · rw [← hrest, dropStart?_append] at hstart
            cases hstart
          · exact not_infix_of_breakOn?_eq_none h hinfix

/-- What is found first does not occur in front of that. -/
theorem not_infix_of_breakOn? (hne : needle ≠ []) : ∀ {cs before after : List Char},
    breakOn? needle cs = some (before, after) → ¬ needle <:+: before
  | [], before, after, h => by
      have hempty : before = [] ∧ needle = [] ∧ after = [] := by
        simpa [and_assoc] using eq_append_of_breakOn? h
      exact absurd hempty.2.1 hne
  | c :: cs, before, after, h => by
      have hcs := eq_append_of_breakOn? h
      rw [breakOn?] at h
      intro hinfix
      split at h
      · obtain ⟨rfl, -⟩ := Prod.mk.inj (Option.some.inj h)
        exact hne (List.infix_nil.mp hinfix)
      · next hstart =>
          obtain ⟨⟨found, rest⟩, hbreak, hpair⟩ := Option.map_eq_some_iff.mp h
          obtain ⟨rfl, rfl⟩ := Prod.mk.inj hpair
          rcases List.infix_cons_iff.mp hinfix with ⟨more, hmore⟩ | hinfix
          · rw [hcs, ← hmore, List.append_assoc, List.append_assoc, dropStart?_append] at hstart
            cases hstart
          · exact not_infix_of_breakOn? hne hbreak hinfix

end Text

theorem Delimiters.enclose_ne_nil {d : Delimiters} {cs body : List Char}
    (h : d.afterOpening? cs = some body) (inside : List Char) : d.enclose inside ≠ [] := by
  have hopening := opening_ne_nil h
  simp [enclose, hopening]

namespace Template

variable {d : Delimiters} {offset : Nat} {last : Option Char} {cs : List Char}
variable {segments : List Segment} {fault : Fault}

/-! ## Pieces of the source -/

/-- The piece of the source that a segment is. -/
def Segment.source : Segment → List Char
  | .text cs => cs
  | .expression e => e.raw

def source (segments : List Segment) : List Char := segments.flatMap Segment.source

@[simp] theorem source_addText (cs : List Char) (segments : List Segment) :
    source (addText cs segments) = cs ++ source segments := by
  rcases segments with - | ⟨more | e, rest⟩
  · rfl
  · simp only [addText, source, List.flatMap_cons, Segment.source, List.append_assoc]
  · rfl

/-- The expression is written as its path, up to the first closing delimiter. -/
def Expression.Enclosed (d : Delimiters) (e : Expression) : Prop :=
  ∃ body, e.raw = d.opening.toList ++ body ++ d.closing.toList
    ∧ ¬ d.closing.toList <:+: body ∧ ReferencePath.read? body = some e.path

/-- The segments are the text cut into pieces. -/
structure Exact (d : Delimiters) (cs : List Char) (segments : List Segment) : Prop where
  source : source segments = cs
  nonempty : .text [] ∉ segments
  apart : ∀ a b, ¬ [.text a, .text b] <:+: segments
  enclosed : ∀ e, .expression e ∈ segments → e.Enclosed d

theorem mem_addText_iff {e : Expression} :
    .expression e ∈ addText cs segments ↔ .expression e ∈ segments := by
  rcases segments with - | ⟨more | e', rest⟩ <;> simp [addText]

/-- Text that is put in front joins the text that was first, if any. -/
theorem Exact.addText {text : List Char} (h : Exact d text segments) (hne : cs ≠ []) :
    Exact d (cs ++ text) (addText cs segments) where
  source := by rw [source_addText, h.source]
  nonempty := by
    have hrest := h.nonempty
    rcases segments with - | ⟨more | e, rest⟩
    · simpa [Template.addText] using hne
    · rw [List.mem_cons, not_or] at hrest
      simpa [Template.addText, hne] using hrest.2
    · simpa [Template.addText, hne] using hrest
  apart a b hinfix := by
    rcases segments with - | ⟨more | e, rest⟩
    · exact absurd hinfix.length_le (by simp [Template.addText])
    · rcases List.infix_cons_iff.mp hinfix with hprefix | hinfix
      · refine h.apart more b (List.IsPrefix.isInfix ?_)
        exact List.cons_prefix_cons.mpr ⟨rfl, (List.cons_prefix_cons.mp hprefix).2⟩
      · exact h.apart a b (List.infix_cons hinfix)
    · rcases List.infix_cons_iff.mp hinfix with hprefix | hinfix
      · have hfirst := (List.cons_prefix_cons.mp (List.cons_prefix_cons.mp hprefix).2).1
        cases hfirst
      · exact h.apart a b hinfix
  enclosed e he := h.enclosed e (mem_addText_iff.mp he)

theorem Exact.expression {text : List Char} {e : Expression} (h : Exact d text segments)
    (he : e.Enclosed d) : Exact d (e.raw ++ text) (.expression e :: segments) where
  source := congrArg (e.raw ++ ·) h.source
  nonempty hmem := h.nonempty ((List.mem_cons.mp hmem).resolve_left Segment.noConfusion)
  apart a b hinfix := by
    rcases List.infix_cons_iff.mp hinfix with hprefix | hinfix
    · cases (List.cons_prefix_cons.mp hprefix).1
    · exact h.apart a b hinfix
  enclosed e' he' := by
    rcases List.mem_cons.mp he' with heq | hmem
    · obtain rfl := Segment.expression.inj heq
      exact he
    · exact h.enclosed e' hmem

theorem exact_of_segmentsFrom (hclosing : d.closing.toList ≠ [])
    (h : segmentsFrom d offset last cs = .ok segments) : Exact d cs segments := by
  fun_induction segmentsFrom d offset last cs generalizing segments with
  | case1 =>
      obtain rfl := Except.ok.inj h
      exact ⟨rfl, List.not_mem_nil, fun a b hinfix => absurd (List.infix_nil.mp hinfix) (by simp),
        fun e he => absurd he List.not_mem_nil⟩
  | case2 offset last c rest hopen ih =>
      obtain ⟨more, hmore, rfl⟩ := ok_of_map_eq_ok h
      exact (ih hmore).addText (List.cons_ne_nil c [])
  | case3 offset c rest body hopen opening =>
      rename_i ih
      obtain ⟨more, hmore, rfl⟩ := ok_of_map_eq_ok h
      rw [Delimiters.eq_append_of_afterOpening? hopen]
      exact (ih hmore).addText (Delimiters.opening_ne_nil hopen)
  | case4 => cases h
  | case5 => cases h
  | case6 offset last c rest body hopen hlast inside after hclose path hpath raw =>
      rename_i ih
      obtain ⟨more, hmore, rfl⟩ := ok_of_map_eq_ok h
      rw [← Delimiters.enclose_append hopen hclose]
      have henclosed : Expression.Enclosed d ⟨raw, path⟩ :=
        ⟨inside, rfl, Text.not_infix_of_breakOn? hclosing hclose, hpath⟩
      exact (ih hmore).expression henclosed

/-! ## Dollars in front -/

/-- Opening delimiters in texts stand behind a dollar, expressions do not. -/
structure Escaped (d : Delimiters) (segments : List Segment) : Prop where
  texts : ∀ cs, .text cs ∈ segments → ∀ before after,
    cs = before ++ d.opening.toList ++ after → before.getLast? = some '$'
  expressions : ∀ before e after, segments = before ++ .expression e :: after →
    (source before).getLast? ≠ some '$'

/-- What stands in front of an expression is longer by a text that is put in front
of all. -/
theorem exists_of_addText_eq {text : List Char} {before after : List Segment} {e : Expression}
    (h : addText text segments = before ++ .expression e :: after) :
    ∃ front, segments = front ++ .expression e :: after
      ∧ source before = text ++ source front := by
  rcases segments with - | ⟨more | e', rest⟩
  · rcases before with - | ⟨first, before⟩
    · cases (List.cons.inj h).1
    · cases before <;> cases (List.cons.inj h).2
  · rcases before with - | ⟨first, before⟩
    · cases (List.cons.inj h).1
    · obtain ⟨rfl, rfl⟩ := List.cons.inj h
      exact ⟨.text more :: before, rfl, List.append_assoc ..⟩
  · rcases before with - | ⟨first, before⟩
    · cases (List.cons.inj h).1
    · obtain ⟨rfl, hrest⟩ := List.cons.inj h
      exact ⟨before, hrest, rfl⟩

theorem getLast?_append_or_of_ne {start : List Char} (h : start ≠ []) (more : List Char)
    (last : Option Char) : (start ++ more).getLast?.or last = more.getLast?.or start.getLast? := by
  obtain ⟨c, rest, rfl⟩ := List.exists_cons_of_ne_nil h
  exact getLast?_append_or rfl last

theorem getLast?_source_ne (h : segmentsFrom d offset last cs = .ok segments)
    {before after : List Segment} {e : Expression}
    (hsplit : segments = before ++ .expression e :: after) :
    (source before).getLast?.or last ≠ some '$' := by
  fun_induction segmentsFrom d offset last cs generalizing segments before with
  | case1 =>
      obtain rfl := Except.ok.inj h
      cases before <;> cases hsplit
  | case2 offset last c rest hopen ih =>
      obtain ⟨more, hmore, rfl⟩ := ok_of_map_eq_ok h
      obtain ⟨front, hfront, hsource⟩ := exists_of_addText_eq hsplit
      rw [hsource, List.singleton_append, getLast?_cons_or]
      exact ih hmore hfront
  | case3 offset c rest body hopen opening =>
      rename_i ih
      obtain ⟨more, hmore, rfl⟩ := ok_of_map_eq_ok h
      obtain ⟨front, hfront, hsource⟩ := exists_of_addText_eq hsplit
      rw [hsource, getLast?_append_or_of_ne (Delimiters.opening_ne_nil hopen)]
      exact ih hmore hfront
  | case4 => cases h
  | case5 => cases h
  | case6 offset last c rest body hopen hlast inside after hclose path hpath raw =>
      rename_i ih
      obtain ⟨more, hmore, rfl⟩ := ok_of_map_eq_ok h
      rcases before with - | ⟨first, before⟩
      · exact hlast
      · obtain ⟨rfl, hrest⟩ := List.cons.inj hsplit
        have hsource : source (.expression ⟨raw, path⟩ :: before) = raw ++ source before := rfl
        rw [hsource, getLast?_append_or_of_ne (Delimiters.enclose_ne_nil hopen inside)]
        exact ih hmore hrest

/-- The default opening delimiter does not overlap with itself. -/
theorem eq_or_of_opening_append {before more after : List Char}
    (h : ({} : Delimiters).opening.toList ++ more
      = before ++ (({} : Delimiters).opening.toList ++ after)) :
    before = [] ∨ ∃ rest, before = ({} : Delimiters).opening.toList ++ rest
      ∧ more = rest ++ (({} : Delimiters).opening.toList ++ after) := by
  rw [Delimiters.opening_default] at h ⊢
  rcases before with - | ⟨a, - | ⟨b, - | ⟨c, rest⟩⟩⟩
  · exact .inl rfl
  all_goals simp at h
  obtain ⟨rfl, rfl, rfl, hmore⟩ := h
  exact .inr ⟨rest, rfl, by simpa using hmore⟩

theorem afterOpening?_opening_default (more : List Char) :
    ({} : Delimiters).afterOpening? (({} : Delimiters).opening.toList ++ more) = some more := by
  rw [Delimiters.afterOpening?, if_neg (by decide)]
  exact Text.dropStart?_append ..

/-- The default opening delimiter in the first text stands behind a dollar, which may be
in front of the text. -/
theorem getLast?_of_leading (h : segmentsFrom {} offset last cs = .ok segments)
    {before after : List Char}
    (hsplit : leading segments = before ++ (({} : Delimiters).opening.toList ++ after)) :
    before.getLast?.or last = some '$' := by
  fun_induction segmentsFrom {} offset last cs generalizing segments before with
  | case1 =>
      obtain rfl := Except.ok.inj h
      rw [Delimiters.opening_default] at hsplit
      cases before <;> cases hsplit
  | case2 offset last c rest hopen ih =>
      obtain ⟨more, hmore, rfl⟩ := ok_of_map_eq_ok h
      rw [leading_addText, List.singleton_append] at hsplit
      rcases before with - | ⟨first, before⟩
      · -- nothing opens where the text begins
        obtain ⟨tail, htail⟩ := leading_prefix hmore
        rw [← htail, ← List.cons_append, hsplit, List.nil_append, List.append_assoc,
          afterOpening?_opening_default] at hopen
        cases hopen
      · obtain ⟨rfl, hrest⟩ := List.cons.inj hsplit
        rw [getLast?_cons_or]
        exact ih hmore hrest
  | case3 offset c rest body hopen opening =>
      rename_i ih
      obtain ⟨more, hmore, rfl⟩ := ok_of_map_eq_ok h
      rw [leading_addText] at hsplit
      rcases eq_or_of_opening_append hsplit with rfl | ⟨front, rfl, hrest⟩
      · rfl
      · rw [getLast?_append_or_of_ne (Delimiters.opening_ne_nil hopen)]
        exact ih hmore hrest
  | case4 => cases h
  | case5 => cases h
  | case6 offset last c rest body hopen hlast inside after hclose path hpath raw =>
      obtain ⟨more, hmore, rfl⟩ := ok_of_map_eq_ok h
      rw [Delimiters.opening_default] at hsplit
      cases before <;> cases hsplit

theorem getLast?_enclose_default (inside : List Char) :
    (({} : Delimiters).enclose inside).getLast? = some '\x7d' := by
  rw [Delimiters.enclose, Delimiters.closing_default, List.getLast?_append]
  rfl

/-- Behind an expression no dollar is in front of the text. -/
theorem getLast?_of_mem_tail (h : segmentsFrom {} offset last cs = .ok segments)
    {text before after : List Char} (htext : .text text ∈ segments.tail)
    (hsplit : text = before ++ (({} : Delimiters).opening.toList ++ after)) :
    before.getLast? = some '$' := by
  fun_induction segmentsFrom {} offset last cs generalizing segments with
  | case1 =>
      obtain rfl := Except.ok.inj h
      cases htext
  | case2 offset last c rest hopen ih =>
      obtain ⟨more, hmore, rfl⟩ := ok_of_map_eq_ok h
      exact ih hmore (mem_tail_of_addText htext)
  | case3 offset c rest body hopen opening =>
      rename_i ih
      obtain ⟨more, hmore, rfl⟩ := ok_of_map_eq_ok h
      exact ih hmore (mem_tail_of_addText htext)
  | case4 => cases h
  | case5 => cases h
  | case6 offset last c rest body hopen hlast inside after hclose path hpath raw =>
      rename_i ih
      obtain ⟨more, hmore, rfl⟩ := ok_of_map_eq_ok h
      rcases more with - | ⟨first, more⟩
      · cases htext
      · rcases List.mem_cons.mp htext with rfl | htext
        · have hdollar := getLast?_of_leading hmore hsplit
          rw [getLast?_enclose_default] at hdollar
          rcases Option.or_eq_some_iff.mp hdollar with hdollar | ⟨-, hbrace⟩
          · exact hdollar
          · cases hbrace
        · exact ih hmore htext

theorem escaped_of_read {text : String} (h : read {} text = .ok segments) :
    Escaped {} segments where
  texts cs hcs before after hsplit := by
    rw [List.append_assoc] at hsplit
    rcases segments with - | ⟨first, rest⟩
    · cases hcs
    · rcases List.mem_cons.mp hcs with rfl | hcs
      · have hdollar := getLast?_of_leading h hsplit
        rwa [Option.or_none] at hdollar
      · exact getLast?_of_mem_tail h hcs hsplit
  expressions before e after hsplit := by
    have hlast := getLast?_source_ne h hsplit
    rwa [Option.or_none] at hlast

/-! ## Faults -/

/-- What is wrong with the text behind an opening delimiter: nothing closes the
expression, or what stands in it is no path. -/
def Fault.Explains (d : Delimiters) (after : List Char) : Fault → Prop
  | .unclosed _ closing => closing = d.closing ∧ ¬ d.closing.toList <:+: after
  | .malformedPath _ body => ReferencePath.read? body = none ∧ ¬ d.closing.toList <:+: body
      ∧ ∃ rest, after = body ++ d.closing.toList ++ rest

/-- The fault is at an opening delimiter with no dollar in front of it. Up to there
the text is a template, and what stands behind the delimiter is to blame. -/
structure BrokenFrom (d : Delimiters) (offset : Nat) (last : Option Char) (cs : List Char)
    (fault : Fault) (before after : List Char) : Prop where
  split : cs = before ++ d.opening.toList ++ after
  position : fault.offset = offset + Text.byteLength before
  unescaped : before.getLast?.or last ≠ some '$'
  readable : ∃ segments, segmentsFrom d offset last before = .ok segments
  explained : fault.Explains d after

variable {before after : List Char}

theorem BrokenFrom.here (hsplit : cs = d.opening.toList ++ after) (hoffset : fault.offset = offset)
    (hlast : last ≠ some '$') (hexplained : fault.Explains d after) :
    BrokenFrom d offset last cs fault [] after where
  split := by rw [hsplit, List.nil_append]
  position := hoffset
  unescaped := hlast
  readable := ⟨[], segmentsFrom_nil⟩
  explained := hexplained

/-- A piece is put in front of all that is read in the same way whatever follows it. -/
theorem BrokenFrom.append {start : List Char} {f : List Segment → List Segment} (hne : start ≠ [])
    (h : BrokenFrom d (offset + Text.byteLength start) start.getLast? cs fault before after)
    (hread : segmentsFrom d offset last (start ++ before)
      = (segmentsFrom d (offset + Text.byteLength start) start.getLast? before).map f) :
    BrokenFrom d offset last (start ++ cs) fault (start ++ before) after where
  split := by rw [h.split, List.append_assoc, List.append_assoc, List.append_assoc]
  position := by rw [h.position, Text.byteLength_append, Nat.add_assoc]
  unescaped := by
    rw [getLast?_append_or_of_ne hne]
    exact h.unescaped
  readable := by
    obtain ⟨segments, hsegments⟩ := h.readable
    exact ⟨f segments, by rw [hread, hsegments]; rfl⟩
  explained := h.explained

theorem brokenFrom_of_segmentsFrom (hclosing : d.closing.toList ≠ [])
    (h : segmentsFrom d offset last cs = .error fault) :
    ∃ before after, BrokenFrom d offset last cs fault before after := by
  fun_induction segmentsFrom d offset last cs with
  | case1 => cases h
  | case2 offset last c rest hopen ih =>
      have hsize : Text.byteLength [c] = c.utf8Size := Nat.zero_add _
      obtain ⟨before, after, hbroken⟩ := ih (error_of_map_eq_error h)
      have hopen' : d.afterOpening? (c :: before) = none := by
        rw [hbroken.split, List.append_assoc, ← List.cons_append] at hopen
        exact Delimiters.afterOpening?_eq_none_of_append hopen
      rw [← hsize] at hbroken
      have hread : segmentsFrom d offset last ([c] ++ before)
          = (segmentsFrom d (offset + Text.byteLength [c]) [c].getLast? before).map
              (addText [c]) := by
        rw [List.singleton_append, segmentsFrom_plain hopen', hsize]
        rfl
      exact ⟨[c] ++ before, after, hbroken.append (List.cons_ne_nil c []) hread⟩
  | case3 offset c rest body hopen opening =>
      rename_i ih
      obtain ⟨before, after, hbroken⟩ := ih (error_of_map_eq_error h)
      rw [Delimiters.eq_append_of_afterOpening? hopen]
      exact ⟨opening ++ before, after, hbroken.append (Delimiters.opening_ne_nil hopen)
        (segmentsFrom_opening hopen offset before)⟩
  | case4 offset last c rest body hopen hlast hclose =>
      obtain rfl := Except.error.inj h
      have hexplained : (Fault.unclosed offset d.closing).Explains d body :=
        ⟨rfl, Text.not_infix_of_breakOn?_eq_none hclose⟩
      exact ⟨[], body, .here (Delimiters.eq_append_of_afterOpening? hopen) rfl hlast hexplained⟩
  | case5 offset last c rest body hopen hlast inside after hclose hpath =>
      obtain rfl := Except.error.inj h
      have hexplained : (Fault.malformedPath offset inside).Explains d body :=
        ⟨hpath, Text.not_infix_of_breakOn? hclosing hclose, after,
          Text.eq_append_of_breakOn? hclose⟩
      exact ⟨[], body, .here (Delimiters.eq_append_of_afterOpening? hopen) rfl hlast hexplained⟩
  | case6 offset last c rest body hopen hlast inside after hclose path hpath raw =>
      rename_i ih
      obtain ⟨before, after', hbroken⟩ := ih (error_of_map_eq_error h)
      rw [← Delimiters.enclose_append hopen hclose]
      exact ⟨raw ++ before, after', hbroken.append (Delimiters.enclose_ne_nil hopen inside)
        (segmentsFrom_enclose hopen hclose hpath hlast offset before)⟩

/-! ## Whole texts -/

/-- A text is cut into its segments, or else it is a template up to the opening delimiter
where the fault is. -/
theorem read_lossless {d : Delimiters} (hclosing : d.closing ≠ "") (text : String) :
    (∀ segments, read d text = .ok segments →
      Exact d text.toList segments ∧ (d = {} → Escaped d segments))
    ∧ ∀ fault, read d text = .error fault →
      ∃ before after : String, text = before ++ d.opening ++ after
        ∧ fault.offset = Text.byteLength before.toList
        ∧ before.toList.getLast? ≠ some '$'
        ∧ (∃ segments, read d before = .ok segments)
        ∧ fault.Explains d after.toList := by
  have hclosing' : d.closing.toList ≠ [] := by simpa using hclosing
  refine ⟨fun segments hread => ⟨exact_of_segmentsFrom hclosing' hread, ?_⟩,
    fun fault hread => ?_⟩
  · rintro rfl
    exact escaped_of_read hread
  · obtain ⟨before, after, hbroken⟩ := brokenFrom_of_segmentsFrom hclosing' hread
    refine ⟨String.ofList before, String.ofList after, ?_, ?_, ?_, ?_, ?_⟩
    · rw [← String.toList_inj]
      simpa using hbroken.split
    · rw [hbroken.position, String.toList_ofList, Nat.zero_add]
    · have hunescaped := hbroken.unescaped
      rwa [Option.or_none, ← String.toList_ofList (l := before)] at hunescaped
    · rw [read, String.toList_ofList]
      exact hbroken.readable
    · rw [String.toList_ofList]
      exact hbroken.explained

theorem read_single : read {} "at $\x7b\x7bp\x7d\x7d"
    = .ok [.text "at ".toList, .expression ⟨"$\x7b\x7bp\x7d\x7d".toList, ["p"]⟩] := by
  have hkey : ReferencePath.key? (Text.trim ['p']) = some (['p'], []) := by decide
  have hmore : ReferencePath.more? [] = some [] := by
    rw [ReferencePath.more?]
    rfl
  have hpath : ReferencePath.read? ['p'] = some ["p"] := by
    simp [ReferencePath.read?, hkey, hmore]
  simp [read, segmentsFrom, Delimiters.afterOpening?, Text.dropStart?, Delimiters.closing?,
    Text.breakOn?, hpath, Delimiters.enclose, Except.map, addText]

theorem read_unclosed : read {} "at $\x7b\x7bp" = .error (.unclosed 3 "\x7d\x7d") := by
  simp [read, segmentsFrom, Delimiters.afterOpening?, Text.dropStart?, Delimiters.closing?,
    Text.breakOn?, Except.map]
  rfl

/-- An expression behind a text, and one that is not closed. -/
theorem read_lossless_single :
    Exact {} "at $\x7b\x7bp\x7d\x7d".toList
        [.text "at ".toList, .expression ⟨"$\x7b\x7bp\x7d\x7d".toList, ["p"]⟩]
      ∧ Escaped {} [.text "at ".toList, .expression ⟨"$\x7b\x7bp\x7d\x7d".toList, ["p"]⟩]
      ∧ ∃ before after : String, "at $\x7b\x7bp" = before ++ ({} : Delimiters).opening ++ after
        ∧ 3 = Text.byteLength before.toList ∧ before.toList.getLast? ≠ some '$' :=
  have hread := (read_lossless (d := {}) (by decide) "at $\x7b\x7bp\x7d\x7d").1 _ read_single
  have hfault := (read_lossless (d := {}) (by decide) "at $\x7b\x7bp").2 _ read_unclosed
  ⟨hread.1, hread.2 rfl, hfault.imp fun _ h => h.imp fun _ h => ⟨h.1, h.2.1, h.2.2.1⟩⟩

end Template

end Manifest
