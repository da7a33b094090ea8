import Manifest.Proofs.Template
/-!
# Templates put together

Two templates with a separator between them are read as the one and then the
other (`read_separated`), provided that no character of the separator is one of
the opening delimiter or a dollar: then no expression can begin across the
separator, and none is escaped by it.
-/

namespace Manifest

/-! ## Searching in a longer text -/

namespace Text

theorem dropStart?_append_right {start cs rest : List Char} (h : dropStart? start cs = some rest)
    (tail : List Char) : dropStart? start (cs ++ tail) = some (rest ++ tail) := by
  rw [eq_append_of_dropStart? h, List.append_assoc]
  exact dropStart?_append start (rest ++ tail)

/-- A text that does not begin with `start` still does not with more behind it,
if it is long enough to tell. -/
theorem dropStart?_append_eq_none : ∀ {start cs : List Char}, start.length ≤ cs.length →
    dropStart? start cs = none → ∀ tail, dropStart? start (cs ++ tail) = none
  | [], cs, _, h, _ => by cases cs <;> cases h
  | s :: start, c :: cs, hlength, h, tail => by
      rw [dropStart?] at h
      rw [List.cons_append, dropStart?]
      split
      · next heq =>
          rw [if_pos heq] at h
          exact dropStart?_append_eq_none (Nat.le_of_succ_le_succ hlength) h tail
      · rfl

/-- Nor if what comes behind begins with a character that is not in `start`. -/
theorem dropStart?_append_cons_eq_none {t : Char} : ∀ {start cs : List Char}, t ∉ start →
    dropStart? start cs = none → ∀ tail, dropStart? start (cs ++ t :: tail) = none
  | [], cs, _, h, _ => by cases cs <;> cases h
  | s :: start, [], ht, _, tail => by
      have hne : s ≠ t := fun heq => ht (heq ▸ List.mem_cons_self ..)
      rw [List.nil_append, dropStart?, if_neg hne]
  | s :: start, c :: cs, ht, h, tail => by
      rw [dropStart?] at h
      rw [List.cons_append, dropStart?]
      split
      · next heq =>
          rw [if_pos heq] at h
          exact dropStart?_append_cons_eq_none (fun hmem => ht (List.mem_cons_of_mem _ hmem)) h tail
      · rfl

/-- What is found first in a text is also found first in a longer one. -/
theorem breakOn?_append_right {needle : List Char} : ∀ {cs before after : List Char},
    breakOn? needle cs = some (before, after) →
      ∀ tail, breakOn? needle (cs ++ tail) = some (before, after ++ tail)
  | [], before, after, h, tail => by
      have hempty : before = [] ∧ needle = [] ∧ after = [] := by
        simpa [and_assoc] using eq_append_of_breakOn? h
      obtain ⟨rfl, rfl, rfl⟩ := hempty
      cases tail <;> rfl
  | c :: cs, before, after, h, tail => by
      have hlength : needle.length ≤ (c :: cs).length := by
        rw [eq_append_of_breakOn? h]
        simp only [List.length_append]
        omega
      simp only [breakOn?] at h
      simp only [List.cons_append, breakOn?]
      cases hstart : dropStart? needle (c :: cs) with
      | some rest =>
          rw [hstart] at h
          obtain ⟨rfl, rfl⟩ := Prod.mk.inj (Option.some.inj h)
          have hstart' := dropStart?_append_right hstart tail
          rw [List.cons_append] at hstart'
          rw [hstart']
      | none =>
          rw [hstart] at h
          obtain ⟨⟨b, a⟩, hbreak, hpair⟩ := Option.map_eq_some_iff.mp h
          obtain ⟨rfl, rfl⟩ := Prod.mk.inj hpair
          have hstart' := dropStart?_append_eq_none hlength hstart tail
          rw [List.cons_append] at hstart'
          rw [hstart', breakOn?_append_right hbreak tail]
          rfl

end Text

namespace Delimiters

variable {d : Delimiters} {cs rest tail : List Char} {t : Char}

theorem afterOpening?_append (h : d.afterOpening? cs = some rest) (tail : List Char) :
    d.afterOpening? (cs ++ tail) = some (rest ++ tail) := by
  unfold afterOpening? at h ⊢
  split at h
  · cases h
  · next hne =>
      rw [if_neg hne]
      exact Text.dropStart?_append_right h tail

theorem eq_append_of_afterOpening? (h : d.afterOpening? cs = some rest) :
    cs = d.opening.toList ++ rest := by
  unfold afterOpening? at h
  split at h
  · cases h
  · exact Text.eq_append_of_dropStart? h

/-- An expression and what follows it are the text in which it opens. -/
theorem enclose_append {body inside after : List Char} (h : d.afterOpening? cs = some body)
    (hclose : d.closing? body = some (inside, after)) : d.enclose inside ++ after = cs := by
  rw [eq_append_of_afterOpening? h, Text.eq_append_of_breakOn? hclose, enclose]
  simp only [List.append_assoc]

/-- Nothing opens in `cs` for the only reason that `tail` comes behind. -/
def NoneAcross (d : Delimiters) (cs tail : List Char) : Prop :=
  ∀ ⦃part : List Char⦄, part <:+ cs → d.afterOpening? part = none → part ≠ [] →
    d.afterOpening? (part ++ tail) = none

theorem NoneAcross.of_suffix {more : List Char} (h : d.NoneAcross cs tail) (hmore : more <:+ cs) :
    d.NoneAcross more tail :=
  fun _ hpart => h (hpart.trans hmore)

theorem noneAcross_cons (ht : t ∉ d.opening.toList) (cs tail : List Char) :
    d.NoneAcross cs (t :: tail) := by
  intro part _ h _
  unfold afterOpening? at h ⊢
  split at h
  · next hempty => rw [if_pos hempty]
  · next hne =>
      rw [if_neg hne]
      exact Text.dropStart?_append_cons_eq_none ht h tail

/-- Nothing opens at a character that is not in the opening delimiter. -/
theorem afterOpening?_cons_eq_none (ht : t ∉ d.opening.toList) (cs : List Char) :
    d.afterOpening? (t :: cs) = none := by
  unfold afterOpening?
  split
  · rfl
  · next hne =>
      cases hopening : d.opening.toList with
      | nil => exact absurd (by simpa using hopening) hne
      | cons s start =>
          have hst : s ≠ t := fun heq => ht (hopening ▸ heq ▸ List.mem_cons_self ..)
          rw [Text.dropStart?, if_neg hst]

end Delimiters

namespace Template

/-! ## Joining segments -/

/-- The segments of two texts, one behind the other. -/
def join : List Segment → List Segment → List Segment
  | [], more => more
  | .text cs :: rest, more => addText cs (join rest more)
  | .expression e :: rest, more => .expression e :: join rest more

@[simp] theorem expressions_join (segments more : List Segment) :
    expressions (join segments more) = expressions segments ++ expressions more := by
  induction segments with
  | nil => rfl
  | cons segment rest ih =>
      cases segment with
      | text cs => rw [join, expressions_addText, ih, expressions]
      | expression e => rw [join, expressions, ih, expressions, List.cons_append]

theorem fill_join (value : Expression → String) (segments more : List Segment) :
    fill value (join segments more) = fill value segments ++ fill value more := by
  induction segments with
  | nil => exact (String.empty_append).symm
  | cons segment rest ih =>
      cases segment with
      | text cs => rw [join, fill_addText, ih, fill, String.append_assoc]
      | expression e => rw [join, fill, fill, ih, String.append_assoc]

theorem addText_addText (cs more : List Char) (segments : List Segment) :
    addText cs (addText more segments) = addText (cs ++ more) segments := by
  rcases segments with - | ⟨last | e, rest⟩
  · rfl
  · simp only [addText, List.append_assoc]
  · rfl

@[simp] theorem join_addText (cs : List Char) (segments more : List Segment) :
    join (addText cs segments) more = addText cs (join segments more) := by
  rcases segments with - | ⟨last | e, rest⟩
  · rfl
  · rw [addText, join, join, addText_addText]
  · rfl

/-! ## One step of reading -/

variable {d : Delimiters} {offset : Nat} {last : Option Char} {c : Char} {rest body : List Char}

theorem segmentsFrom_plain (h : d.afterOpening? (c :: rest) = none) :
    segmentsFrom d offset last (c :: rest)
      = (segmentsFrom d (offset + c.utf8Size) (some c) rest).map (addText [c]) := by
  rw [segmentsFrom]
  split
  · rfl
  · next hopen => rw [h] at hopen; cases hopen

theorem segmentsFrom_escaped (h : d.afterOpening? (c :: rest) = some body)
    (hlast : last = some '$') :
    segmentsFrom d offset last (c :: rest)
      = (segmentsFrom d (offset + Text.byteLength d.opening.toList) d.opening.toList.getLast?
          body).map (addText d.opening.toList) := by
  rw [segmentsFrom]
  split
  · next hopen => rw [h] at hopen; cases hopen
  · next hopen =>
      rw [h] at hopen
      rw [if_pos hlast, Option.some.inj hopen]

theorem segmentsFrom_opened (h : d.afterOpening? (c :: rest) = some body)
    (hlast : last ≠ some '$') :
    segmentsFrom d offset last (c :: rest)
      = match d.closing? body with
        | none => .error (.unclosed offset d.closing)
        | some (inside, after) =>
          match ReferencePath.read? inside with
          | none => .error (.malformedPath offset inside)
          | some path =>
            (segmentsFrom d (offset + Text.byteLength (d.enclose inside))
              (d.enclose inside).getLast? after).map
              (.expression ⟨d.enclose inside, path⟩ :: ·) := by
  rw [segmentsFrom]
  split
  · next hopen => rw [h] at hopen; cases hopen
  · next hopen =>
      rw [h] at hopen
      obtain rfl := Option.some.inj hopen
      rw [if_neg hlast]
      split
      · next hclose => simp only [hclose]
      · next inside after hclose =>
          cases hpath : ReferencePath.read? inside <;> simp only [hclose, hpath]

/-! ## Reading further on -/

theorem toOption_map {α β ε : Type} (f : α → β) (x : Except ε α) :
    (x.map f).toOption = x.toOption.map f := by
  cases x <;> rfl

/-- What is read does not depend on where the text stands in the source. -/
theorem toOption_segmentsFrom (d : Delimiters) (offset other : Nat) (last : Option Char)
    (cs : List Char) :
    (segmentsFrom d offset last cs).toOption = (segmentsFrom d other last cs).toOption := by
  fun_induction segmentsFrom d offset last cs generalizing other with
  | case1 => rw [segmentsFrom]
  | case2 offset last c rest hopen ih =>
      rw [segmentsFrom_plain hopen, toOption_map, toOption_map, ih]
  | case3 offset c rest body hopen opening =>
      rename_i ih
      rw [segmentsFrom_escaped hopen rfl, toOption_map, toOption_map, ih]
  | case4 offset last c rest body hopen hlast hclose =>
      rw [segmentsFrom_opened hopen hlast, hclose]
      rfl
  | case5 offset last c rest body hopen hlast inside after hclose hpath =>
      rw [segmentsFrom_opened hopen hlast, hclose]
      simp only [hpath]
      rfl
  | case6 offset last c rest body hopen hlast inside after hclose path hpath raw =>
      rename_i ih
      rw [segmentsFrom_opened hopen hlast, hclose]
      simp only [hpath]
      rw [toOption_map, toOption_map, ih]

theorem getLast?_cons_or (c : Char) (rest : List Char) (last : Option Char) :
    (c :: rest).getLast?.or last = rest.getLast?.or (some c) := by
  rw [List.getLast?_cons]
  cases rest.getLast? <;> rfl

theorem getLast?_append_or {start more : List Char} (h : start ++ more = c :: rest)
    (last : Option Char) : (c :: rest).getLast?.or last = more.getLast?.or start.getLast? := by
  rw [← List.getLast?_append, h, List.getLast?_cons]
  rfl

/-- Reading goes on behind a text as if what follows stood alone, but for the
character in front, if nothing opens across the end of the text. -/
theorem toOption_segmentsFrom_append {segments : List Segment} {cs tail : List Char}
    (h : segmentsFrom d offset last cs = .ok segments) (hacross : d.NoneAcross cs tail) :
    (segmentsFrom d offset last (cs ++ tail)).toOption
      = (segmentsFrom d 0 (cs.getLast?.or last) tail).toOption.map (join segments) := by
  fun_induction segmentsFrom d offset last cs generalizing segments with
  | case1 offset last =>
      obtain rfl := Except.ok.inj h
      rw [List.nil_append, List.getLast?_nil, Option.none_or, toOption_segmentsFrom d offset 0]
      exact (Option.map_id_fun' ▸ rfl)
  | case2 offset last c rest hopen ih =>
      obtain ⟨more, hmore, rfl⟩ := ok_of_map_eq_ok h
      have hopen' := hacross List.suffix_rfl hopen (List.cons_ne_nil c rest)
      rw [List.cons_append] at hopen' ⊢
      rw [segmentsFrom_plain hopen', toOption_map,
        ih hmore (hacross.of_suffix (List.suffix_cons ..)),
        Option.map_map, getLast?_cons_or]
      congr 1
      funext more
      exact (join_addText ..).symm
  | case3 offset c rest body hopen opening =>
      rename_i ih
      obtain ⟨more, hmore, rfl⟩ := ok_of_map_eq_ok h
      have hcs := Delimiters.eq_append_of_afterOpening? hopen
      have hopen' := Delimiters.afterOpening?_append hopen tail
      rw [List.cons_append] at hopen' ⊢
      rw [segmentsFrom_escaped hopen' rfl, toOption_map,
        ih hmore (hacross.of_suffix ⟨_, hcs.symm⟩), Option.map_map, getLast?_append_or hcs.symm]
      congr 1
      funext more
      exact (join_addText ..).symm
  | case4 offset last c rest body hopen hlast hclose => cases h
  | case5 => cases h
  | case6 offset last c rest body hopen hlast inside after hclose path hpath raw =>
      rename_i ih
      obtain ⟨more, hmore, rfl⟩ := ok_of_map_eq_ok h
      have hcs : raw ++ after = c :: rest := Delimiters.enclose_append hopen hclose
      have hopen' := Delimiters.afterOpening?_append hopen tail
      have hclose' : d.closing? (body ++ tail) = some (inside, after ++ tail) :=
        Text.breakOn?_append_right hclose tail
      rw [List.cons_append] at hopen' ⊢
      rw [segmentsFrom_opened hopen' hlast, hclose']
      simp only [hpath]
      rw [toOption_map, ih hmore (hacross.of_suffix ⟨raw, hcs⟩), Option.map_map,
        getLast?_append_or hcs]
      rfl

/-- Only a dollar in front of a text matters to how it is read. -/
theorem segmentsFrom_of_last_ne (hlast : last ≠ some '$') (cs : List Char) :
    segmentsFrom d offset last cs = segmentsFrom d offset none cs := by
  cases cs with
  | nil => rw [segmentsFrom, segmentsFrom]
  | cons c rest =>
      cases hopen : d.afterOpening? (c :: rest) with
      | none => rw [segmentsFrom_plain hopen, segmentsFrom_plain hopen]
      | some body =>
          have hfirst : none ≠ some '$' := (Option.some_ne_none _).symm
          rw [segmentsFrom_opened hopen hlast, segmentsFrom_opened hopen hfirst]

/-- Characters at which nothing can open are read as text, and what follows as
if it stood alone. -/
theorem toOption_segmentsFrom_separator (tail : List Char) : ∀ {separator : List Char},
    separator ≠ [] → (∀ t ∈ separator, t ∉ d.opening.toList) → '$' ∉ separator →
      (segmentsFrom d 0 none (separator ++ tail)).toOption
        = (segmentsFrom d 0 none tail).toOption.map (addText separator)
  | [], hne, _, _ => absurd rfl hne
  | t :: rest, _, hopening, hdollar => by
      rw [List.mem_cons, not_or] at hdollar
      rw [List.forall_mem_cons] at hopening
      have hlast : (some t) ≠ some '$' := fun heq => hdollar.1 (Option.some.inj heq).symm
      rw [List.cons_append, segmentsFrom_plain (Delimiters.afterOpening?_cons_eq_none hopening.1 _),
        segmentsFrom_of_last_ne hlast, toOption_map, toOption_segmentsFrom d _ 0]
      cases rest with
      | nil => rfl
      | cons t' rest =>
          rw [toOption_segmentsFrom_separator tail (List.cons_ne_nil _ _) hopening.2 hdollar.2,
            Option.map_map]
          congr 1
          funext segments
          exact addText_addText ..

/-- Two templates with a separator between them are read as the one and then
the other. -/
theorem read_separated {a b separator : String} {segments more : List Segment}
    (ha : read d a = .ok segments) (hb : read d b = .ok more) (hne : separator.toList ≠ [])
    (hopening : ∀ t ∈ separator.toList, t ∉ d.opening.toList) (hdollar : '$' ∉ separator.toList) :
    read d (a ++ separator ++ b) = .ok (join segments (addText separator.toList more)) := by
  have hrest : (segmentsFrom d 0 none (separator.toList ++ b.toList)).toOption
      = some (addText separator.toList more) := by
    have hmore : segmentsFrom d 0 none b.toList = .ok more := hb
    rw [toOption_segmentsFrom_separator b.toList hne hopening hdollar, hmore]
    rfl
  have hall : (read d (a ++ separator ++ b)).toOption
      = some (join segments (addText separator.toList more)) := by
    rw [read, String.toList_append, String.toList_append, List.append_assoc]
    cases hseparator : separator.toList with
    | nil => exact absurd hseparator hne
    | cons t tail =>
        rw [hseparator] at hopening hrest
        have hacross := Delimiters.noneAcross_cons (hopening t (List.mem_cons_self ..)) a.toList
          (tail ++ b.toList)
        have hplain := Delimiters.afterOpening?_cons_eq_none (hopening t (List.mem_cons_self ..))
          (tail ++ b.toList)
        rw [List.cons_append] at hrest ⊢
        rw [segmentsFrom_plain hplain] at hrest
        rw [toOption_segmentsFrom_append ha hacross, segmentsFrom_plain hplain, hrest]
        rfl
  cases hread : read d (a ++ separator ++ b) with
  | error fault => rw [hread] at hall; cases hall
  | ok found =>
      rw [hread] at hall
      rw [Option.some.inj hall]

end Template

end Manifest
