import Manifest.Proofs.Template.Separated
/-!
# Texts put into a template

Where a text ends in no character of the opening delimiter and in no dollar
(`EndsClear`), what follows is read as if it stood alone (`HoldsOnly.append`).
Each literal of a template and each expression in it, as it is written, is a
template of the same meaning by itself (`holdsOnly_literal`,
`holdsOnly_expression`), so that what is put together from such pieces holds
no expression but those of the pieces.
-/

namespace Manifest

namespace Text

/-- A text that does not begin with `start` still does not with more behind it,
if its last character is not in `start`. -/
theorem dropStart?_append_of_getLast? : ∀ {start cs : List Char} {c : Char},
    cs.getLast? = some c → c ∉ start → dropStart? start cs = none →
      ∀ tail, dropStart? start (cs ++ tail) = none
  | [], cs, _, _, _, h, _ => by cases cs <;> cases h
  | s :: start, [], _, hlast, _, _, _ => by cases hlast
  | s :: start, c :: cs, last, hlast, hnot, h, tail => by
      rw [dropStart?] at h
      rw [List.cons_append, dropStart?]
      split
      · next heq =>
          rw [if_pos heq] at h
          rw [List.mem_cons, not_or] at hnot
          cases cs with
          | nil =>
              obtain rfl := Option.some.inj hlast
              exact absurd heq.symm hnot.1
          | cons c' cs =>
              rw [List.getLast?_cons_cons] at hlast
              exact dropStart?_append_of_getLast? hlast hnot.2 h tail
      · rfl

theorem dropStart?_eq_none_of_append {start cs tail : List Char}
    (h : dropStart? start (cs ++ tail) = none) : dropStart? start cs = none := by
  cases hstart : dropStart? start cs with
  | none => rfl
  | some rest =>
      rw [dropStart?_append_right hstart tail] at h
      cases h

/-- What is found first in a text is also found first in the part up to there. -/
theorem breakOn?_of_breakOn? {needle : List Char} : ∀ {cs before after : List Char},
    breakOn? needle cs = some (before, after) →
      breakOn? needle (before ++ needle) = some (before, [])
  | [], before, after, h => by
      have hempty : before = [] ∧ needle = [] ∧ after = [] := by
        simpa [and_assoc] using eq_append_of_breakOn? h
      obtain ⟨rfl, rfl, -⟩ := hempty
      rfl
  | c :: cs, before, after, h => by
      have hcs := eq_append_of_breakOn? h
      simp only [breakOn?] at h
      cases hstart : dropStart? needle (c :: cs) with
      | some rest =>
          rw [hstart] at h
          obtain ⟨rfl, -⟩ := Prod.mk.inj (Option.some.inj h)
          have hself : dropStart? needle needle = some [] := by
            simpa using dropStart?_append needle []
          cases needle with
          | nil => rfl
          | cons n needle => rw [List.nil_append, breakOn?, hself]
      | none =>
          rw [hstart] at h
          obtain ⟨⟨b, a⟩, hbreak, hpair⟩ := Option.map_eq_some_iff.mp h
          obtain ⟨rfl, rfl⟩ := Prod.mk.inj hpair
          rw [hcs] at hstart
          have hstart' := dropStart?_eq_none_of_append hstart
          rw [List.cons_append] at hstart' ⊢
          rw [breakOn?, hstart', breakOn?_of_breakOn? hbreak]
          rfl

end Text

namespace Delimiters

/-- The text does not end in a character of the opening delimiter or in a
dollar. -/
def EndsClear (d : Delimiters) (cs : List Char) : Prop :=
  ∀ c ∈ cs.getLast?, c ∉ d.opening.toList ∧ c ≠ '$'

-- Not by going through all characters, of which there are only so many.
instance (d : Delimiters) (cs : List Char) : Decidable (d.EndsClear cs) :=
  Option.decidableForallMem cs.getLast?

variable {d : Delimiters} {cs more tail : List Char}

theorem EndsClear.append (h : d.EndsClear cs) (hmore : d.EndsClear more) :
    d.EndsClear (cs ++ more) := by
  intro c hc
  rw [List.getLast?_append] at hc
  rcases Option.or_eq_some_iff.mp hc with hc | ⟨-, hc⟩
  · exact hmore c hc
  · exact h c hc

theorem EndsClear.of_append (h : d.EndsClear (cs ++ more)) : d.EndsClear more := by
  intro c hc
  refine h c ?_
  rw [List.getLast?_append, Option.mem_def.mp hc]
  rfl

theorem EndsClear.getLast?_ne (h : d.EndsClear cs) : cs.getLast? ≠ some '$' := by
  intro hlast
  exact (h '$' hlast).2 rfl

theorem EndsClear.noneAcross (h : d.EndsClear cs) (tail : List Char) : d.NoneAcross cs tail := by
  rintro part ⟨front, rfl⟩ hnone hne
  have hpart := h.of_append
  obtain ⟨c, hc⟩ := Option.ne_none_iff_exists'.mp (mt List.getLast?_eq_none_iff.mp hne)
  unfold afterOpening? at hnone ⊢
  split at hnone
  · next hempty => rw [if_pos hempty]
  · next hopening =>
      rw [if_neg hopening]
      exact Text.dropStart?_append_of_getLast? hc (hpart c hc).1 hnone tail

theorem afterOpening?_eq_none_of_append (h : d.afterOpening? (cs ++ tail) = none) :
    d.afterOpening? cs = none := by
  unfold afterOpening? at h ⊢
  split at h
  · next hempty => rw [if_pos hempty]
  · next hopening =>
      rw [if_neg hopening]
      exact Text.dropStart?_eq_none_of_append h

theorem opening_ne_nil {body : List Char} (h : d.afterOpening? cs = some body) :
    d.opening.toList ≠ [] := by
  intro hnil
  unfold afterOpening? at h
  rw [if_pos (by simpa using hnil)] at h
  cases h

/-- A delimiter that opens somewhere opens at its own beginning. -/
theorem afterOpening?_opening {body : List Char} (h : d.afterOpening? cs = some body)
    (more : List Char) : d.afterOpening? (d.opening.toList ++ more) = some more := by
  unfold afterOpening?
  rw [if_neg (by simpa using opening_ne_nil h)]
  exact Text.dropStart?_append d.opening.toList more

/-- The closing delimiter is not empty, and ends in a character that is none
of the opening one and no dollar. -/
structure ClosesClear (d : Delimiters) : Prop where
  ne_nil : d.closing.toList ≠ []
  clear : d.EndsClear d.closing.toList

instance (d : Delimiters) : Decidable d.ClosesClear :=
  decidable_of_iff (d.closing.toList ≠ [] ∧ d.EndsClear d.closing.toList)
    ⟨fun ⟨hne, hclear⟩ => ⟨hne, hclear⟩, fun h => ⟨h.ne_nil, h.clear⟩⟩

theorem ClosesClear.enclose (h : d.ClosesClear) (inside : List Char) :
    d.EndsClear (d.enclose inside) := by
  intro c hc
  rw [Delimiters.enclose, List.getLast?_append] at hc
  rcases Option.or_eq_some_iff.mp hc with hc | ⟨hnone, -⟩
  · exact h.clear c hc
  · exact absurd (List.getLast?_eq_none_iff.mp hnone) h.ne_nil

end Delimiters

namespace Template

variable {d : Delimiters} {offset : Nat} {last : Option Char} {cs : List Char}
variable {segments : List Segment} {P : Expression → Prop}

/-! ## Templates that hold certain expressions only -/

/-- The text is a template, and all expressions in it have the property. -/
def HoldsOnly (d : Delimiters) (P : Expression → Prop) (text : String) : Prop :=
  ∃ segments, read d text = .ok segments ∧ ∀ e ∈ expressions segments, P e

theorem holdsOnly_empty (d : Delimiters) (P : Expression → Prop) : HoldsOnly d P "" :=
  ⟨[], by rw [read, String.toList_empty, segmentsFrom], fun _ he => absurd he List.not_mem_nil⟩

theorem holdsOnly_of_unopened {text : String} (h : d.opensIn text = false) :
    HoldsOnly d P text := by
  obtain ⟨segments, hread, hnone, -⟩ := read_of_unopened h
  refine ⟨segments, hread, fun e he => ?_⟩
  rw [hnone] at he
  cases he

theorem HoldsOnly.append {a b : String} (ha : HoldsOnly d P a) (hclear : d.EndsClear a.toList)
    (hb : HoldsOnly d P b) : HoldsOnly d P (a ++ b) := by
  obtain ⟨segments, hread, hP⟩ := ha
  obtain ⟨more, hmore, hP'⟩ := hb
  have hlast : a.toList.getLast?.or none ≠ some '$' := by
    rw [Option.or_none]
    exact hclear.getLast?_ne
  have hboth : (read d (a ++ b)).toOption = some (join segments more) := by
    rw [read, String.toList_append,
      toOption_segmentsFrom_append hread (hclear.noneAcross b.toList),
      segmentsFrom_of_last_ne hlast, show segmentsFrom d 0 none b.toList = .ok more from hmore]
    rfl
  cases hfound : read d (a ++ b) with
  | error fault => rw [hfound] at hboth; cases hboth
  | ok found =>
      rw [hfound] at hboth
      obtain rfl : found = join segments more := Option.some.inj hboth
      refine ⟨_, hfound, fun e he => ?_⟩
      rw [expressions_join, List.mem_append] at he
      exact he.elim (hP e) (hP' e)

/-! ## Pieces of a template -/

/-- An escaped delimiter is read in the same way whatever follows it. -/
theorem segmentsFrom_opening {body : List Char} (hopen : d.afterOpening? cs = some body)
    (offset : Nat) (more : List Char) :
    segmentsFrom d offset (some '$') (d.opening.toList ++ more)
      = (segmentsFrom d (offset + Text.byteLength d.opening.toList) d.opening.toList.getLast?
          more).map (addText d.opening.toList) := by
  obtain ⟨o, os, hcons⟩ := List.exists_cons_of_ne_nil (Delimiters.opening_ne_nil hopen)
  have hopen' := Delimiters.afterOpening?_opening hopen more
  rw [hcons, List.cons_append] at hopen' ⊢
  rw [segmentsFrom_escaped hopen' rfl, hcons]

/-- An expression is read in the same way whatever follows it. -/
theorem segmentsFrom_enclose {body inside after : List Char} {path : List String}
    (hopen : d.afterOpening? cs = some body) (hclose : d.closing? body = some (inside, after))
    (hpath : ReferencePath.read? inside = some path) (hlast : last ≠ some '$') (offset : Nat)
    (more : List Char) :
    segmentsFrom d offset last (d.enclose inside ++ more)
      = (segmentsFrom d (offset + Text.byteLength (d.enclose inside))
          (d.enclose inside).getLast? more).map (.expression ⟨d.enclose inside, path⟩ :: ·) := by
  have hclose' : d.closing? (inside ++ d.closing.toList ++ more) = some (inside, more) := by
    have hbreak := Text.breakOn?_append_right (Text.breakOn?_of_breakOn? hclose) more
    rwa [List.nil_append] at hbreak
  have hopen' := Delimiters.afterOpening?_opening hopen (inside ++ d.closing.toList ++ more)
  have hsplit : d.enclose inside ++ more
      = d.opening.toList ++ (inside ++ d.closing.toList ++ more) := by
    simp only [Delimiters.enclose, List.append_assoc]
  obtain ⟨o, os, hcons⟩ := List.exists_cons_of_ne_nil (Delimiters.opening_ne_nil hopen)
  rw [hsplit]
  rw [hcons, List.cons_append] at hopen' ⊢
  rw [segmentsFrom_opened hopen' hlast, hclose']
  simp only [hpath]

theorem fill_raw (h : segmentsFrom d offset last cs = .ok segments) :
    fill (fun e => String.ofList e.raw) segments = String.ofList cs := by
  fun_induction segmentsFrom d offset last cs generalizing segments with
  | case1 =>
      obtain rfl := Except.ok.inj h
      rfl
  | case2 offset last c rest hopen ih =>
      obtain ⟨more, hmore, rfl⟩ := ok_of_map_eq_ok h
      rw [fill_addText, ih hmore, ← String.ofList_append, List.singleton_append]
  | case3 offset c rest body hopen opening =>
      rename_i ih
      obtain ⟨more, hmore, rfl⟩ := ok_of_map_eq_ok h
      rw [fill_addText, ih hmore, ← String.ofList_append,
        Delimiters.eq_append_of_afterOpening? hopen]
  | case4 => cases h
  | case5 => cases h
  | case6 offset last c rest body hopen hlast inside after hclose path hpath raw =>
      rename_i ih
      obtain ⟨more, hmore, rfl⟩ := ok_of_map_eq_ok h
      rw [fill, ih hmore, ← String.ofList_append, Delimiters.enclose_append hopen hclose]

theorem segmentsFrom_nil : segmentsFrom d offset last [] = .ok [] := by
  rw [segmentsFrom]

/-- An expression that is all of a text. -/
theorem read_enclose {inside : List Char} {path : List String} (hopening : d.opening.toList ≠ [])
    (hclose : d.closing? (inside ++ d.closing.toList) = some (inside, []))
    (hpath : ReferencePath.read? inside = some path) :
    read d (String.ofList (d.enclose inside)) = .ok [.expression ⟨d.enclose inside, path⟩] := by
  have hopen : d.afterOpening? (d.opening.toList ++ (inside ++ d.closing.toList))
      = some (inside ++ d.closing.toList) := by
    rw [Delimiters.afterOpening?, if_neg (by simpa using hopening)]
    exact Text.dropStart?_append ..
  have halone := segmentsFrom_enclose hopen hclose hpath (Option.some_ne_none '$').symm 0 []
  rw [List.append_nil, segmentsFrom_nil] at halone
  rw [read, String.toList_ofList, halone]
  rfl

/-- The text in front of the first expression. -/
def leading : List Segment → List Char
  | .text cs :: _ => cs
  | _ => []

@[simp] theorem leading_addText (cs : List Char) (segments : List Segment) :
    leading (addText cs segments) = cs ++ leading segments := by
  rcases segments with - | ⟨more | e, rest⟩
  · exact (List.append_nil cs).symm
  · rfl
  · exact (List.append_nil cs).symm

theorem leading_prefix (h : segmentsFrom d offset last cs = .ok segments) :
    leading segments <+: cs := by
  have hfill := fill_raw h
  rcases segments with - | ⟨more | e, rest⟩
  · exact List.nil_prefix
  · rw [fill] at hfill
    refine ⟨(fill (fun e => String.ofList e.raw) rest).toList, ?_⟩
    show more ++ (fill (fun e => String.ofList e.raw) rest).toList = cs
    simpa using congrArg String.toList hfill
  · exact List.nil_prefix

/-- What is read as text in front of a template is read as text alone. -/
theorem exists_read_leading (h : segmentsFrom d offset last cs = .ok segments) (other : Nat) :
    ∃ found, segmentsFrom d other last (leading segments) = .ok found ∧ expressions found = [] := by
  fun_induction segmentsFrom d offset last cs generalizing segments other with
  | case1 =>
      obtain rfl := Except.ok.inj h
      exact ⟨[], segmentsFrom_nil, rfl⟩
  | case2 offset last c rest hopen ih =>
      obtain ⟨more, hmore, rfl⟩ := ok_of_map_eq_ok h
      obtain ⟨found, hfound, hnone⟩ := ih hmore (other + c.utf8Size)
      obtain ⟨tail, htail⟩ := leading_prefix hmore
      have hopen' : d.afterOpening? (c :: leading more) = none := by
        rw [← htail, ← List.cons_append] at hopen
        exact Delimiters.afterOpening?_eq_none_of_append hopen
      refine ⟨addText [c] found, ?_, by rw [expressions_addText, hnone]⟩
      rw [leading_addText, List.singleton_append, segmentsFrom_plain hopen', hfound]
      rfl
  | case3 offset c rest body hopen opening =>
      rename_i ih
      obtain ⟨more, hmore, rfl⟩ := ok_of_map_eq_ok h
      obtain ⟨found, hfound, hnone⟩ := ih hmore (other + Text.byteLength d.opening.toList)
      refine ⟨addText d.opening.toList found, ?_, by rw [expressions_addText, hnone]⟩
      rw [leading_addText, segmentsFrom_opening hopen, hfound]
      rfl
  | case4 => cases h
  | case5 => cases h
  | case6 offset last c rest body hopen hlast inside after hclose path hpath raw =>
      obtain ⟨more, hmore, rfl⟩ := ok_of_map_eq_ok h
      exact ⟨[], segmentsFrom_nil, rfl⟩

theorem holdsOnly_leading (h : segmentsFrom d offset last cs = .ok segments)
    (hlast : last ≠ some '$') : HoldsOnly d P (String.ofList (leading segments)) := by
  obtain ⟨found, hfound, hnone⟩ := exists_read_leading h 0
  refine ⟨found, ?_, fun e he => ?_⟩
  · rw [read, String.toList_ofList, ← segmentsFrom_of_last_ne hlast, hfound]
  · rw [hnone] at he
    cases he

theorem mem_tail_of_addText {t more : List Char} {segments : List Segment}
    (h : .text t ∈ (addText more segments).tail) : .text t ∈ segments.tail := by
  rcases segments with - | ⟨_ | e, rest⟩
  · exact h
  · exact h
  · exact (List.mem_cons.mp h).resolve_left Segment.noConfusion

theorem holdsOnly_tail (hclose : d.ClosesClear) (h : segmentsFrom d offset last cs = .ok segments)
    {t : List Char} (ht : .text t ∈ segments.tail) : HoldsOnly d P (String.ofList t) := by
  fun_induction segmentsFrom d offset last cs generalizing segments with
  | case1 =>
      obtain rfl := Except.ok.inj h
      cases ht
  | case2 offset last c rest hopen ih =>
      obtain ⟨more, hmore, rfl⟩ := ok_of_map_eq_ok h
      exact ih hmore (mem_tail_of_addText ht)
  | case3 offset c rest body hopen opening =>
      rename_i ih
      obtain ⟨more, hmore, rfl⟩ := ok_of_map_eq_ok h
      exact ih hmore (mem_tail_of_addText ht)
  | case4 => cases h
  | case5 => cases h
  | case6 offset last c rest body hopen hlast inside after hbreak path hpath raw =>
      rename_i ih
      obtain ⟨more, hmore, rfl⟩ := ok_of_map_eq_ok h
      rcases more with - | ⟨first, more⟩
      · cases ht
      · rcases List.mem_cons.mp ht with rfl | ht
        · exact holdsOnly_leading hmore (hclose.enclose inside).getLast?_ne
        · exact ih hmore ht

/-- A literal of a template is a text without expressions by itself, even where
it holds an escaped delimiter. -/
theorem holdsOnly_literal (hclose : d.ClosesClear) {text : String} (h : read d text = .ok segments)
    {t : List Char} (ht : .text t ∈ segments) : HoldsOnly d P (String.ofList t) := by
  rcases segments with - | ⟨first, rest⟩
  · cases ht
  · rcases List.mem_cons.mp ht with rfl | ht
    · exact holdsOnly_leading h (Option.some_ne_none _).symm
    · exact holdsOnly_tail hclose h ht

/-- An expression as it is written is that expression by itself. -/
theorem holdsOnly_expression {e : Expression} (h : segmentsFrom d offset last cs = .ok segments)
    (he : e ∈ expressions segments) (hP : P e) : HoldsOnly d P (String.ofList e.raw) := by
  fun_induction segmentsFrom d offset last cs generalizing segments with
  | case1 =>
      obtain rfl := Except.ok.inj h
      cases he
  | case2 offset last c rest hopen ih =>
      obtain ⟨more, hmore, rfl⟩ := ok_of_map_eq_ok h
      exact ih hmore (by rwa [expressions_addText] at he)
  | case3 offset c rest body hopen opening =>
      rename_i ih
      obtain ⟨more, hmore, rfl⟩ := ok_of_map_eq_ok h
      exact ih hmore (by rwa [expressions_addText] at he)
  | case4 => cases h
  | case5 => cases h
  | case6 offset last c rest body hopen hlast inside after hclose path hpath raw =>
      rename_i ih
      obtain ⟨more, hmore, rfl⟩ := ok_of_map_eq_ok h
      rcases List.mem_cons.mp he with rfl | he
      · refine ⟨[.expression ⟨raw, path⟩], ?_, fun e he => List.mem_singleton.mp he ▸ hP⟩
        exact read_enclose (Delimiters.opening_ne_nil hopen) (Text.breakOn?_of_breakOn? hclose)
          hpath
      · exact ih hmore he

/-! ## Seams of a template -/

/-- Every literal with something behind it ends clear. -/
def Seams (d : Delimiters) : List Segment → Prop
  | [] => True
  | .text cs :: rest => (rest ≠ [] → d.EndsClear cs) ∧ Seams d rest
  | .expression _ :: rest => Seams d rest

instance decidableSeams (d : Delimiters) : ∀ segments, Decidable (Seams d segments)
  | [] => inferInstanceAs (Decidable True)
  | .text cs :: rest =>
      have := decidableSeams d rest
      inferInstanceAs (Decidable ((rest ≠ [] → d.EndsClear cs) ∧ Seams d rest))
  | .expression _ :: rest => decidableSeams d rest

/-- If the text is a template, its literals end clear in front of its
expressions. -/
def Spaced (d : Delimiters) (text : String) : Prop :=
  ∀ segments ∈ (read d text).toOption, Seams d segments

instance (d : Delimiters) (text : String) : Decidable (Spaced d text) :=
  inferInstanceAs (Decidable (∀ segments ∈ (read d text).toOption, Seams d segments))

theorem Spaced.seams {text : String} (h : Spaced d text) (hread : read d text = .ok segments) :
    Seams d segments := by
  refine h segments ?_
  rw [hread]
  rfl

end Template

end Manifest
