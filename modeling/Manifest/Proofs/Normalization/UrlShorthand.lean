import Manifest.Normalization.UrlShorthand
import Manifest.Proofs.ReferencePath.Written
import Manifest.Proofs.Template.Spliced
import Manifest.Proofs.Text.Split
/-!
# Targets of the shorthand

A text that is an expression for the url of a target, with blanks wherever they may
stand (`Shortens`), has that target (`target?_of_shortens`): behind `.url` there is no
other period, so that the longest target is the one that is written. The expressions for
the fields of the target are read as its path with the field behind it (`read_field`).

With any delimiters, the texts that have a target are those that are written so
(`isSome_target?_iff`). A target may hold anything but blanks (`Matches`).
-/

namespace Manifest.UrlShorthand

open Text (isBlank)

variable {d : Delimiters} {cs target rest : List Char}

/-! ## Where a target ends -/

theorem exists_afterBlanks (cs : List Char) :
    ∃ more, afterBlanks cs = cs.dropWhile isBlank :: more := by
  induction cs with
  | nil => exact ⟨[], rfl⟩
  | cons c cs ih =>
      obtain ⟨more, hmore⟩ := ih
      rw [afterBlanks]
      cases hblank : isBlank c with
      | true =>
          rw [List.dropWhile_cons_of_pos hblank, hmore]
          exact ⟨more ++ [c :: cs], rfl⟩
      | false =>
          rw [List.dropWhile_cons_of_neg (Bool.eq_false_iff.mp hblank)]
          exact ⟨[], rfl⟩

theorem mem_afterBlanks_iff : rest ∈ afterBlanks cs ↔
    ∃ front, (∀ c ∈ front, isBlank c = true) ∧ cs = front ++ rest := by
  induction cs with
  | nil =>
      rw [afterBlanks, List.mem_singleton]
      constructor
      · rintro rfl
        exact ⟨[], List.forall_mem_nil _, rfl⟩
      · rintro ⟨front, -, hcs⟩
        exact (List.append_eq_nil_iff.mp hcs.symm).2
  | cons c cs ih =>
      rw [afterBlanks]
      split
      · next hblank =>
          rw [List.mem_append, List.mem_singleton, ih]
          constructor
          · rintro (⟨front, hfront, rfl⟩ | rfl)
            · exact ⟨c :: front, List.forall_mem_cons.mpr ⟨hblank, hfront⟩, rfl⟩
            · exact ⟨[], List.forall_mem_nil _, rfl⟩
          · rintro ⟨- | ⟨first, front⟩, hfront, hcs⟩
            · exact Or.inr hcs.symm
            · exact Or.inl ⟨front, (List.forall_mem_cons.mp hfront).2, (List.cons.inj hcs).2⟩
      · next hblank =>
          rw [List.mem_singleton]
          constructor
          · rintro rfl
            exact ⟨[], List.forall_mem_nil _, rfl⟩
          · rintro ⟨- | ⟨first, front⟩, hfront, hcs⟩
            · exact hcs.symm
            · rw [(List.cons.inj hcs).1] at hblank
              exact absurd (hfront first (List.mem_cons_self ..)) hblank

theorem isEnd_iff : isEnd d cs = true ↔ ∃ before after,
    (∀ c ∈ before, isBlank c = true) ∧ (∀ c ∈ after, isBlank c = true)
      ∧ cs = before ++ (d.closing.toList ++ after) := by
  rw [isEnd, List.any_eq_true]
  constructor
  · rintro ⟨rest, hrest, hclosing⟩
    obtain ⟨before, hbefore, rfl⟩ := mem_afterBlanks_iff.mp hrest
    split at hclosing
    · next after hafter =>
        rw [Text.eq_append_of_dropStart? hafter]
        exact ⟨before, after, hbefore, List.all_eq_true.mp hclosing, rfl⟩
    · cases hclosing
  · rintro ⟨before, after, hbefore, hafter, rfl⟩
    refine ⟨_, mem_afterBlanks_iff.mpr ⟨before, hbefore, rfl⟩, ?_⟩
    rw [Text.dropStart?_append]
    exact List.all_eq_true.mpr hafter

theorem endsTarget_iff : endsTarget d cs = true ↔ ∃ before after,
    (∀ c ∈ before, isBlank c = true) ∧ (∀ c ∈ after, isBlank c = true)
      ∧ cs = ['.', 'u', 'r', 'l'] ++ (before ++ (d.closing.toList ++ after)) := by
  rw [endsTarget]
  constructor
  · intro h
    split at h
    · next rest hrest =>
        obtain ⟨before, after, hbefore, hafter, rfl⟩ := isEnd_iff.mp h
        exact ⟨before, after, hbefore, hafter, Text.eq_append_of_dropStart? hrest⟩
    · cases h
  · rintro ⟨before, after, hbefore, hafter, rfl⟩
    rw [Text.dropStart?_append]
    exact isEnd_iff.mpr ⟨before, after, hbefore, hafter, rfl⟩

/-! ## The longest target -/

theorem longestTarget?_eq_none (h : '.' ∉ cs.tail) : longestTarget? d cs = none := by
  induction cs with
  | nil => rfl
  | cons c cs ih =>
      have hends : endsTarget d cs = false := by
        rw [endsTarget]
        split
        · next hurl =>
            rw [List.tail_cons, Text.eq_append_of_dropStart? hurl] at h
            exact absurd (List.mem_cons_self ..) h
        · rfl
      rw [longestTarget?]
      split
      · rfl
      · rw [ih fun hmem => h (List.mem_of_mem_tail hmem), hends]
        rfl

/-- The target is as long as it can be if there is no period behind `.url`. -/
theorem longestTarget?_append (hne : target ≠ []) (htarget : ∀ c ∈ target, isBlank c = false)
    (hend : isEnd d rest = true) (hrest : '.' ∉ rest) :
    longestTarget? d (target ++ (['.', 'u', 'r', 'l'] ++ rest)) = some target := by
  induction target with
  | nil => exact absurd rfl hne
  | cons c target ih =>
      obtain ⟨hc, htarget⟩ := List.forall_mem_cons.mp htarget
      rw [List.cons_append, longestTarget?, if_neg (Bool.eq_false_iff.mp hc)]
      cases target with
      | nil =>
          have hnone : longestTarget? d (['.', 'u', 'r', 'l'] ++ rest) = none :=
            longestTarget?_eq_none (by simpa using hrest)
          have hends : endsTarget d (['.', 'u', 'r', 'l'] ++ rest) = true := by
            rw [endsTarget, Text.dropStart?_append]
            exact hend
          rw [List.nil_append, hnone, hends]
          rfl
      | cons next target => rw [ih (List.cons_ne_nil _ _) htarget]

/-- A target that is found is one. -/
theorem exists_of_longestTarget? (h : longestTarget? d cs = some target) :
    target ≠ [] ∧ (∀ c ∈ target, isBlank c = false)
      ∧ ∃ rest, cs = target ++ rest ∧ endsTarget d rest = true := by
  induction cs generalizing target with
  | nil => cases h
  | cons c cs ih =>
      rw [longestTarget?] at h
      split at h
      · cases h
      · next hblank =>
          have hc : isBlank c = false := Bool.eq_false_iff.mpr hblank
          split at h
          · next longer hlonger =>
              obtain rfl := Option.some.inj h
              obtain ⟨-, hchars, rest, rfl, hends⟩ := ih hlonger
              exact ⟨List.cons_ne_nil _ _, List.forall_mem_cons.mpr ⟨hc, hchars⟩, rest, rfl, hends⟩
          · split at h
            · next hends =>
                obtain rfl := Option.some.inj h
                exact ⟨List.cons_ne_nil _ _, List.forall_mem_singleton.mpr hc, cs, rfl, hends⟩
            · cases h

/-- Where there is a target, one is found. -/
theorem isSome_longestTarget? (hne : target ≠ []) (htarget : ∀ c ∈ target, isBlank c = false)
    (hends : endsTarget d rest = true) : (longestTarget? d (target ++ rest)).isSome = true := by
  induction target with
  | nil => exact absurd rfl hne
  | cons c target ih =>
      obtain ⟨hc, htarget⟩ := List.forall_mem_cons.mp htarget
      rw [List.cons_append, longestTarget?, if_neg (Bool.eq_false_iff.mp hc)]
      split
      · rfl
      · next hnone =>
          cases target with
          | nil =>
              rw [List.nil_append, if_pos hends]
              rfl
          | cons next target =>
              have hsome := ih (List.cons_ne_nil _ _) htarget
              rw [hnone] at hsome
              cases hsome

/-! ## Whole texts -/

/-- A written expression, as it is read from its start. -/
theorem expression_split {outer inner inner' outer' : List Char} {target text : String}
    (h : text.toList = outer ++ d.opening.toList ++ inner ++ (target ++ ".url").toList ++ inner'
      ++ d.closing.toList ++ outer') :
    text.toList = outer ++ (d.opening.toList ++ (inner ++ (target.toList
      ++ (['.', 'u', 'r', 'l'] ++ (inner' ++ (d.closing.toList ++ outer')))))) := by
  have hurl : ".url".toList = ['.', 'u', 'r', 'l'] := String.toList_ofList
  rw [h, String.toList_append, hurl]
  simp only [List.append_assoc]

theorem trimLeft_target {inner : List Char} (hinner : ∀ c ∈ inner, isBlank c = true)
    (hne : target ≠ []) (htarget : ∀ c ∈ target, isBlank c = false) :
    Text.trimLeft (inner ++ (target ++ rest)) = target ++ rest := by
  refine Text.dropWhile_append hinner ?_
  obtain ⟨first, others, rfl⟩ := List.exists_cons_of_ne_nil hne
  rintro c ⟨⟩
  exact htarget first (List.mem_cons_self ..)

/-- The text is an expression for the url of the target, with any blanks around it and
inside of its delimiters. -/
def Shortens (target text : String) : Prop :=
  ∃ outer inner inner' outer' : List Char,
    (∀ c ∈ outer ++ inner ++ inner' ++ outer', isBlank c = true)
      ∧ text.toList = outer ++ ({} : Delimiters).opening.toList ++ inner
        ++ (target ++ ".url").toList ++ inner' ++ ({} : Delimiters).closing.toList ++ outer'

theorem target?_of_shortens {target text : String} (h : Shortens target text)
    (hne : target.toList ≠ []) (htarget : ∀ c ∈ target.toList, isBlank c = false) :
    target? {} text = some target := by
  obtain ⟨outer, inner, inner', outer', hblank, htext⟩ := h
  have hsplit := expression_split htext
  simp only [List.forall_mem_append] at hblank
  obtain ⟨⟨⟨houter, hinner⟩, hinner'⟩, houter'⟩ := hblank
  have hperiod : '.' ∉ inner' ++ (({} : Delimiters).closing.toList ++ outer') := by
    rw [Delimiters.closing_default, List.mem_append, List.mem_append, not_or, not_or]
    refine ⟨fun hmem => ?_, by decide, fun hmem => ?_⟩
    · exact absurd (hinner' _ hmem) (by decide)
    · exact absurd (houter' _ hmem) (by decide)
  have hend : isEnd {} (inner' ++ (({} : Delimiters).closing.toList ++ outer')) = true :=
    isEnd_iff.mpr ⟨inner', outer', hinner', houter', rfl⟩
  have hlongest := longestTarget?_append hne htarget hend hperiod
  generalize ['.', 'u', 'r', 'l'] ++ (inner' ++ (({} : Delimiters).closing.toList ++ outer'))
    = tail at hlongest hsplit
  have hopens : ∀ c ∈ (({} : Delimiters).opening.toList
      ++ (inner ++ (target.toList ++ tail))).head?, isBlank c = false := by
    rw [Delimiters.opening_default]
    rintro c ⟨⟩
    decide
  obtain ⟨more, hmore⟩ := exists_afterBlanks text.toList
  rw [target?, hmore, hsplit, Text.dropWhile_append houter hopens, List.findSome?_cons,
    Text.dropStart?_append]
  simp only [Option.bind_eq_bind, Option.bind_some, trimLeft_target hinner hne htarget, hlongest,
    Option.pure_def, String.ofList_toList]

/-! ## The language of the shorthand -/

/-- The text is an expression for the url of the target, between any delimiters. The target is
one or more characters that are no blanks. -/
def Matches (d : Delimiters) (target text : String) : Prop :=
  target.toList ≠ [] ∧ (∀ c ∈ target.toList, isBlank c = false)
    ∧ ∃ outer inner inner' outer' : List Char,
      (∀ c ∈ outer ++ inner ++ inner' ++ outer', isBlank c = true)
        ∧ text.toList = outer ++ d.opening.toList ++ inner
          ++ (target ++ ".url").toList ++ inner' ++ d.closing.toList ++ outer'

theorem target?_of_matches {target text : String} (h : Matches {} target text) :
    target? {} text = some target :=
  target?_of_shortens h.2.2 h.1 h.2.1

theorem matches_of_target? {target text : String} (h : target? d text = some target) :
    Matches d target text := by
  rw [target?] at h
  obtain ⟨rest, hrest, h⟩ := List.exists_of_findSome?_eq_some h
  obtain ⟨outer, houter, htext⟩ := mem_afterBlanks_iff.mp hrest
  obtain ⟨inside, hinside, h⟩ := Option.bind_eq_some_iff.mp h
  obtain ⟨found, hfound, h⟩ := Option.bind_eq_some_iff.mp h
  obtain rfl := Option.some.inj h
  obtain ⟨hne, hchars, tail, htail, hends⟩ := exists_of_longestTarget? hfound
  obtain ⟨inner', outer', hinner', houter', rfl⟩ := endsTarget_iff.mp hends
  have hurl : ".url".toList = ['.', 'u', 'r', 'l'] := String.toList_ofList
  rw [Matches, String.toList_ofList]
  refine ⟨hne, hchars, outer, inside.takeWhile isBlank, inner', outer', ?_, ?_⟩
  · simp only [List.forall_mem_append]
    exact ⟨⟨⟨houter, fun c hc => List.mem_takeWhile_imp hc⟩, hinner'⟩, houter'⟩
  · have hsplit : inside = inside.takeWhile isBlank ++ Text.trimLeft inside :=
      List.takeWhile_append_dropWhile.symm
    rw [htail] at hsplit
    rw [htext, Text.eq_append_of_dropStart? hinside, String.toList_append, String.toList_ofList,
      hurl]
    conv_lhs => rw [hsplit]
    simp only [List.append_assoc]

/-- The texts with a target are those that match. -/
theorem isSome_target?_iff {text : String} :
    (target? d text).isSome = true ↔ ∃ target, Matches d target text := by
  constructor
  · intro h
    obtain ⟨target, htarget⟩ := Option.isSome_iff_exists.mp h
    exact ⟨target, matches_of_target? htarget⟩
  · rintro ⟨target, hne, hchars, outer, inner, inner', outer', hblank, htext⟩
    have hsplit := expression_split htext
    simp only [List.forall_mem_append] at hblank
    obtain ⟨⟨⟨houter, hinner⟩, hinner'⟩, houter'⟩ := hblank
    have hends : endsTarget d (['.', 'u', 'r', 'l']
        ++ (inner' ++ (d.closing.toList ++ outer'))) = true :=
      endsTarget_iff.mpr ⟨inner', outer', hinner', houter', rfl⟩
    obtain ⟨found, hfound⟩ := Option.isSome_iff_exists.mp (isSome_longestTarget? hne hchars hends)
    rw [target?, List.findSome?_isSome_iff]
    refine ⟨_, mem_afterBlanks_iff.mpr ⟨outer, houter, hsplit⟩, ?_⟩
    rw [Text.dropStart?_append]
    simp only [Option.bind_eq_bind, Option.bind_some, trimLeft_target hinner hne hchars, hfound,
      Option.pure_def, Option.isSome_some]

/-! ## Fields of a target -/

/-- The expression for a field is read as the path of its target with the field behind it. -/
theorem read_field {key name : String} {keys : List String}
    (h : ∀ k ∈ key :: (keys ++ [name]), ReferencePath.IsBare k) :
    ∃ e, Template.read {} (field {} (ReferencePath.text (key :: keys)) name) = .ok [.expression e]
      ∧ e.path = key :: (keys ++ [name]) := by
  have hblank : ∀ c ∈ [' '], isBlank c = true := by
    intro c hc
    rw [List.mem_singleton.mp hc]
    decide
  have hpath := ReferencePath.read?_text h hblank hblank
  generalize hinside : [' '] ++ (ReferencePath.text (key :: (keys ++ [name]))).toList ++ [' ']
    = inside at hpath
  have hclose : ({} : Delimiters).closing? (inside ++ ({} : Delimiters).closing.toList)
      = some (inside, []) := by
    have hbrace : '\x7d' ∉ inside := by
      rw [← hinside, List.mem_append, List.mem_append, not_or, not_or]
      refine ⟨⟨by decide, fun hmem => ?_⟩, by decide⟩
      rcases ReferencePath.chars_text h _ hmem with hkey | hperiod
      · exact absurd hkey (by decide)
      · exact absurd hperiod (by decide)
    have hbreak : Text.breakOn? ['\x7d', '\x7d'] (inside ++ (['\x7d', '\x7d'] ++ []))
        = some (inside, []) := Text.breakOn?_of_not_mem hbrace []
    rw [List.append_nil] at hbreak
    rw [Delimiters.closing?, Delimiters.closing_default]
    exact hbreak
  have hfield : field {} (ReferencePath.text (key :: keys)) name
      = String.ofList (({} : Delimiters).enclose inside) := by
    have hspace : " ".toList = [' '] := String.toList_ofList
    rw [← hinside, ReferencePath.text_concat, ← hspace, ← String.toList_inj, field]
    simp only [Delimiters.enclose, String.toList_append, String.toList_ofList, List.append_assoc]
  have hopens : ({} : Delimiters).opening.toList ≠ [] := by
    rw [Delimiters.opening_default]
    exact List.cons_ne_nil _ _
  rw [hfield]
  exact ⟨_, Template.read_enclose hopens hclose hpath, rfl⟩

end Manifest.UrlShorthand
