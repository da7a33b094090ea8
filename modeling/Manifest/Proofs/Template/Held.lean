import Manifest.Proofs.Template.Lossless
/-!
# The expressions of a part

What a text holds (`Holds`) is what its parts hold, as long as no expression reaches from
one part into the next: nothing opens across the cut, and whatever opens in front of it is
closed there (`holds_append_iff`). A text that ends in the closing delimiter closes
whatever it opens. So an expression may be cut off from what stands behind it, even where
it is escaped and other expressions begin inside of it (`holds_enclose_append_iff`).
-/

namespace Manifest

namespace Delimiters

variable {d : Delimiters} {cs : List Char}

/-- Whatever opens in the text is closed in it. -/
def Closes (d : Delimiters) (cs : List Char) : Prop :=
  ∀ ⦃part body : List Char⦄, part <:+ cs → d.afterOpening? part = some body →
    d.closing? body ≠ none

theorem Closes.of_suffix {rest : List Char} (h : d.Closes cs) (hrest : rest <:+ cs) :
    d.Closes rest :=
  fun _ _ hpart => h (hpart.trans hrest)

/-- A text that ends in the closing delimiter closes what it opens, if the two delimiters
have no character in common. -/
theorem closes_append_closing (hdisjoint : ∀ c ∈ d.opening.toList, c ∉ d.closing.toList)
    (cs : List Char) : d.Closes (cs ++ d.closing.toList) := by
  rintro part body ⟨front, hpart⟩ hopen hnone
  rw [eq_append_of_afterOpening? hopen, ← List.append_assoc] at hpart
  have hclosing : d.closing.toList <:+ body := by
    rcases List.append_eq_append_iff.mp hpart with ⟨inside, -, hbody⟩ | ⟨shared, hshared, hbody⟩
    · exact ⟨inside, hbody.symm⟩
    · -- what is left of the opening delimiter would belong to the closing one
      obtain ⟨o, ho⟩ := Option.ne_none_iff_exists'.mp (mt List.getLast?_eq_none_iff.mp
        (opening_ne_nil hopen))
      rcases List.eq_nil_or_concat shared with rfl | ⟨init, c, rfl⟩
      · exact ⟨[], hbody⟩
      · have hlast := congrArg List.getLast? hshared
        rw [List.getLast?_append, ho, List.concat_eq_append, ← List.append_assoc,
          List.getLast?_concat] at hlast
        obtain rfl : o = c := Option.some.inj hlast
        refine absurd ?_ (hdisjoint o (List.mem_of_getLast? ho))
        rw [hbody]
        simp
  exact Text.not_infix_of_breakOn?_eq_none hnone hclosing.isInfix

theorem closesClear_default : ({} : Delimiters).ClosesClear := by
  refine ⟨by rw [closing_default]; exact List.cons_ne_nil _ _, ?_⟩
  intro c hc
  rw [closing_default] at hc
  obtain rfl := Option.some.inj hc
  rw [opening_default]
  decide

end Delimiters

namespace Template

variable {d : Delimiters} {offset : Nat} {last : Option Char} {c : Char}
variable {cs tail rest body inside : List Char} {es : List Expression}

/-! ## What a text holds -/

/-- The text is a template behind the character `last`, and these are its expressions. -/
def Holds (d : Delimiters) (last : Option Char) (cs : List Char) (es : List Expression) : Prop :=
  ∃ segments, segmentsFrom d 0 last cs = .ok segments ∧ expressions segments = es

theorem holds_iff (offset : Nat) : Holds d last cs es
    ↔ (segmentsFrom d offset last cs).toOption.map expressions = some es := by
  rw [toOption_segmentsFrom d offset 0]
  cases h : segmentsFrom d 0 last cs with
  | error fault => simp [Holds, h, Except.toOption]
  | ok segments => simp [Holds, h, Except.toOption]

theorem holds_nil_iff : Holds d last [] es ↔ es = [] := by
  rw [holds_iff 0, segmentsFrom_nil]
  exact ⟨fun h => (Option.some.inj h).symm, fun h => h ▸ rfl⟩

/-- Only a dollar in front of a text matters to what it holds. -/
theorem holds_of_last_ne (hlast : last ≠ some '$') : Holds d last cs es ↔ Holds d none cs es := by
  rw [Holds, segmentsFrom_of_last_ne hlast, Holds]

theorem holds_cons_iff (hopen : d.afterOpening? (c :: rest) = none) :
    Holds d last (c :: rest) es ↔ Holds d (some c) rest es := by
  rw [holds_iff 0, segmentsFrom_plain hopen, toOption_map, Option.map_map,
    holds_iff (0 + c.utf8Size)]
  have hsame : expressions ∘ addText [c] = expressions := by
    funext segments
    exact expressions_addText ..
  rw [hsame]

/-! ## What its parts hold -/

/-- A text in front of another is a template if both together are. -/
theorem exists_read_of_append {all : List Segment}
    (h : segmentsFrom d offset last (cs ++ tail) = .ok all) (hcloses : d.Closes cs)
    (hacross : d.NoneAcross cs tail) :
    ∃ segments, segmentsFrom d offset last cs = .ok segments := by
  fun_induction segmentsFrom d offset last cs generalizing all with
  | case1 => exact ⟨[], rfl⟩
  | case2 offset last c rest hopen ih =>
      have hopen' := hacross List.suffix_rfl hopen (List.cons_ne_nil c rest)
      rw [List.cons_append] at h hopen'
      rw [segmentsFrom_plain hopen'] at h
      obtain ⟨more, hmore, -⟩ := ok_of_map_eq_ok h
      have hrest := List.suffix_cons c rest
      obtain ⟨segments, hsegments⟩ := ih hmore (hcloses.of_suffix hrest) (hacross.of_suffix hrest)
      rw [hsegments]
      exact ⟨_, rfl⟩
  | case3 offset c rest body hopen opening =>
      rename_i ih
      have hopen' := Delimiters.afterOpening?_append hopen tail
      rw [List.cons_append] at h hopen'
      rw [segmentsFrom_escaped hopen' rfl] at h
      obtain ⟨more, hmore, -⟩ := ok_of_map_eq_ok h
      have hbody : body <:+ c :: rest := ⟨_, (Delimiters.eq_append_of_afterOpening? hopen).symm⟩
      obtain ⟨segments, hsegments⟩ := ih hmore (hcloses.of_suffix hbody) (hacross.of_suffix hbody)
      rw [hsegments]
      exact ⟨_, rfl⟩
  | case4 offset last c rest body hopen hlast hclose =>
      exact absurd hclose (hcloses List.suffix_rfl hopen)
  | case5 offset last c rest body hopen hlast inside after hclose hpath =>
      have hopen' := Delimiters.afterOpening?_append hopen tail
      have hclose' : d.closing? (body ++ tail) = some (inside, after ++ tail) :=
        Text.breakOn?_append_right hclose tail
      rw [List.cons_append] at h hopen'
      rw [segmentsFrom_opened hopen' hlast, hclose'] at h
      simp only [hpath] at h
      cases h
  | case6 offset last c rest body hopen hlast inside after hclose path hpath raw =>
      rename_i ih
      have hopen' := Delimiters.afterOpening?_append hopen tail
      have hclose' : d.closing? (body ++ tail) = some (inside, after ++ tail) :=
        Text.breakOn?_append_right hclose tail
      rw [List.cons_append] at h hopen'
      rw [segmentsFrom_opened hopen' hlast, hclose'] at h
      simp only [hpath] at h
      obtain ⟨more, hmore, -⟩ := ok_of_map_eq_ok h
      have hafter : after <:+ c :: rest := ⟨_, Delimiters.enclose_append hopen hclose⟩
      obtain ⟨segments, hsegments⟩ := ih hmore (hcloses.of_suffix hafter)
        (hacross.of_suffix hafter)
      rw [hsegments]
      exact ⟨_, rfl⟩

/-- A text holds what its parts hold, if no expression reaches across. -/
theorem holds_append_iff (hcloses : d.Closes cs) (hacross : d.NoneAcross cs tail) :
    Holds d last (cs ++ tail) es ↔ ∃ front back, Holds d last cs front
      ∧ Holds d (cs.getLast?.or last) tail back ∧ es = front ++ back := by
  constructor
  · rintro ⟨all, hall, rfl⟩
    obtain ⟨segments, hsegments⟩ := exists_read_of_append hall hcloses hacross
    have hread := toOption_segmentsFrom_append hsegments hacross
    rw [hall] at hread
    obtain ⟨more, hmore, hjoin⟩ := Option.map_eq_some_iff.mp hread.symm
    refine ⟨expressions segments, expressions more, ⟨segments, hsegments, rfl⟩, ?_, ?_⟩
    · exact (holds_iff 0).mpr (by rw [hmore]; rfl)
    · rw [← hjoin, expressions_join]
  · rintro ⟨front, back, ⟨segments, hsegments, rfl⟩, ⟨more, hmore, rfl⟩, rfl⟩
    refine (holds_iff 0).mpr ?_
    rw [toOption_segmentsFrom_append hsegments hacross, hmore]
    exact congrArg some (expressions_join segments more)

/-- What is written as an expression may be cut off, whether it is one or is escaped. -/
theorem holds_enclose_append_iff (inside tail : List Char) :
    Holds {} last (({} : Delimiters).enclose inside ++ tail) es ↔ ∃ front back,
      Holds {} last (({} : Delimiters).enclose inside) front ∧ Holds {} none tail back
        ∧ es = front ++ back := by
  have hdisjoint :
      ∀ c ∈ ({} : Delimiters).opening.toList, c ∉ ({} : Delimiters).closing.toList := by
    rw [Delimiters.opening_default, Delimiters.closing_default]
    simp
  have hcloses : ({} : Delimiters).Closes (({} : Delimiters).enclose inside) :=
    Delimiters.closes_append_closing hdisjoint _
  have hacross := (Delimiters.closesClear_default.enclose inside).noneAcross tail
  have hlast : (({} : Delimiters).enclose inside).getLast?.or last ≠ some '$' := by
    rw [getLast?_enclose_default]
    simp
  rw [holds_append_iff hcloses hacross]
  simp only [holds_of_last_ne hlast]

end Template

end Manifest
