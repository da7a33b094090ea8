import Manifest.Proofs.Command
import Manifest.Proofs.ReferencePath.Written
/-!
# Variables

What stands behind a dollar is read as the name of a variable, in braces or without. In
braces the name ends at the closing one, otherwise where no character of a name follows
(`reference?_eq_some_iff`). Whatever else is known about references is read off this: a
blank behind a text changes nothing in how it is read (`reference?_append_blank`).
-/

namespace Manifest.Command

variable {c t : Char} {cs rest n w : List Char} {declared : List String}

/-! ## Names -/

theorem isNameChar_of_isNameStart (h : isNameStart c = true) : isNameChar c = true := by
  rw [isNameStart, Bool.or_eq_true] at h
  rw [isNameChar, Char.isAlphanum, Bool.or_eq_true, Bool.or_eq_true]
  exact h.imp_left Or.inl

theorem isBlank_of_isNameChar (h : isNameChar c = true) : Text.isBlank c = false := by
  refine ReferencePath.isBlank_of_isKeyChar ?_
  rw [isNameChar] at h
  rw [ReferencePath.isKeyChar, h]
  rfl

theorem isNameChar_of_isBlank (h : Text.isBlank c = true) : isNameChar c = false := by
  refine Bool.eq_false_iff.mpr fun hname => ?_
  rw [isBlank_of_isNameChar hname] at h
  cases h

theorem ne_dollar_of_isNameChar (h : isNameChar c = true) : c ≠ '$' := by
  rintro rfl
  exact absurd h (by decide)

theorem ne_dollar_of_isBlank (h : Text.isBlank c = true) : c ≠ '$' := by
  rintro rfl
  exact absurd h (by decide)

/-- No character of a name comes first in the text: a name in front of it ends. -/
def NameEnds (rest : List Char) : Prop := ∀ c ∈ rest.head?, isNameChar c = false

/-- The text is the name of a variable. -/
structure IsName (n : List Char) : Prop where
  start : ∃ c ∈ n.head?, isNameStart c = true
  chars : ∀ c ∈ n, isNameChar c = true

theorem IsName.exists_cons (h : IsName n) : ∃ c cs, n = c :: cs ∧ isNameStart c = true := by
  obtain ⟨c, hc, hstart⟩ := h.start
  obtain ⟨cs, rfl⟩ := List.head?_eq_some_iff.mp hc
  exact ⟨c, cs, rfl, hstart⟩

/-- A name goes on as far as its characters do. -/
theorem name_append (h : IsName n) (rest : List Char) :
    name (n ++ rest) = n ++ rest.takeWhile isNameChar := by
  obtain ⟨c, cs, rfl, hstart⟩ := h.exists_cons
  rw [List.cons_append, name, if_pos hstart,
    List.takeWhile_append_of_pos fun x hx => h.chars x (List.mem_cons_of_mem c hx)]
  rfl

theorem name_append_of_ends (h : IsName n) (hrest : NameEnds rest) : name (n ++ rest) = n := by
  rw [name_append h]
  cases rest with
  | nil => exact List.append_nil n
  | cons c rest =>
      rw [List.takeWhile_cons_of_neg (by rw [hrest c rfl]; exact Bool.false_ne_true)]
      exact List.append_nil n

/-- A text begins with a name that ends there, or with none. -/
theorem name_cases (cs : List Char) :
    name cs = [] ∨ ∃ n rest, name cs = n ∧ IsName n ∧ cs = n ++ rest ∧ NameEnds rest := by
  cases cs with
  | nil => exact .inl rfl
  | cons c cs =>
      rw [name]
      split
      · rename_i hstart
        refine .inr ⟨_, cs.dropWhile isNameChar, rfl, ⟨⟨c, rfl, hstart⟩, ?_⟩, ?_, ?_⟩
        · intro x hx
          rcases List.mem_cons.mp hx with rfl | hx
          · exact isNameChar_of_isNameStart hstart
          · exact List.mem_takeWhile_imp hx
        · rw [List.cons_append, List.takeWhile_append_dropWhile]
        · intro x hx
          have hstops := List.head?_dropWhile_not isNameChar cs
          rwa [Option.mem_def.mp hx] at hstops
      · exact .inl rfl

/-! ## References -/

theorem reference?_brace (cs : List Char) :
    reference? ('{' :: cs)
      = if !(name cs).isEmpty && (cs.drop (name cs).length).head? = some '}' then
          some (name cs, '{' :: name cs ++ ['}'])
        else none := by
  have hnone : name ('{' :: cs) = [] := by rw [name, if_neg (by decide)]
  simp only [reference?, hnone]
  rfl

theorem reference?_of_ne_brace (h : cs.head? ≠ some '{') :
    reference? cs = if (name cs).isEmpty then none else some (name cs, name cs) := by
  unfold reference?
  split
  · exact absurd rfl h
  · cases name cs <;> rfl

/-- The name `n` is written as `w` in front of `rest`. -/
inductive Refers (n : List Char) : (w rest : List Char) → Prop
  | braced (rest : List Char) : Refers n ('{' :: (n ++ ['}'])) rest
  | bare {rest : List Char} (h : NameEnds rest) : Refers n n rest

/-- A reference is a name in braces, or the longest name without them. -/
theorem reference?_eq_some_iff :
    reference? cs = some (n, w) ↔ IsName n ∧ ∃ rest, Refers n w rest ∧ cs = w ++ rest := by
  constructor
  · intro h
    by_cases hbrace : cs.head? = some '{'
    · obtain ⟨inside, rfl⟩ := List.head?_eq_some_iff.mp hbrace
      rw [reference?_brace] at h
      rcases name_cases inside with hnone | ⟨m, rest, hm, hname, rfl, -⟩
      · rw [hnone] at h
        cases h
      · rw [hm, List.drop_left] at h
        split at h
        · rename_i hclosed
          obtain ⟨rfl, rfl⟩ := Prod.mk.inj (Option.some.inj h)
          rw [Bool.and_eq_true, decide_eq_true_iff] at hclosed
          obtain ⟨after, rfl⟩ := List.head?_eq_some_iff.mp hclosed.2
          exact ⟨hname, after, .braced after, by simp⟩
        · cases h
    · rw [reference?_of_ne_brace hbrace] at h
      rcases name_cases cs with hnone | ⟨m, rest, hm, hname, rfl, hends⟩
      · rw [hnone] at h
        cases h
      · rw [hm] at h
        split at h
        · cases h
        · obtain ⟨rfl, rfl⟩ := Prod.mk.inj (Option.some.inj h)
          exact ⟨hname, rest, .bare hends, rfl⟩
  · rintro ⟨hname, rest, hrefers, rfl⟩
    obtain ⟨c, n', hcons, hstart⟩ := hname.exists_cons
    cases hrefers with
    | braced =>
        have hends : NameEnds ('}' :: rest) := by
          rintro x ⟨⟩
          decide
        have hinside := name_append_of_ends hname hends
        rw [List.cons_append, List.append_assoc, List.singleton_append, reference?_brace, hinside,
          List.drop_left, if_pos (by simp [hcons])]
        rfl
    | bare hends =>
        have hbrace : (n ++ rest).head? ≠ some '{' := by
          rw [hcons, List.cons_append, List.head?_cons]
          intro heq
          rw [Option.some.inj heq] at hstart
          exact absurd hstart (by decide)
        rw [reference?_of_ne_brace hbrace, name_append_of_ends hname hends, hcons]
        rfl

/-- A name is written with its own characters and braces. -/
theorem Refers.chars (h : Refers n w rest) (hname : IsName n) (hc : c ∈ w) :
    isNameChar c = true ∨ c = '{' ∨ c = '}' := by
  cases h with
  | braced =>
      rcases List.mem_cons.mp hc with rfl | hc
      · exact .inr (.inl rfl)
      · rcases List.mem_append.mp hc with hc | hc
        · exact .inl (hname.chars c hc)
        · exact .inr (.inr (List.mem_singleton.mp hc))
  | bare => exact .inl (hname.chars c hc)

theorem Refers.ne_nil (h : Refers n w rest) (hname : IsName n) : w ≠ [] := by
  cases h with
  | braced => exact List.cons_ne_nil _ _
  | bare =>
      obtain ⟨c, n', rfl, -⟩ := hname.exists_cons
      exact List.cons_ne_nil c n'

theorem Refers.not_mem (h : Refers n w rest) (hname : IsName n) (hchar : isNameChar c = false)
    (hopen : c ≠ '{') (hclose : c ≠ '}') : c ∉ w := by
  intro hmem
  rcases h.chars hname hmem with hname | hbrace | hbrace
  · rw [hname] at hchar
    cases hchar
  · exact hopen hbrace
  · exact hclose hbrace

theorem Refers.not_mem_dollar (h : Refers n w rest) (hname : IsName n) : '$' ∉ w :=
  h.not_mem hname (by decide) (by decide) (by decide)

theorem Refers.of_append {more tail : List Char} (h : Refers n w (more ++ tail)) :
    Refers n w more := by
  cases h with
  | braced => exact .braced more
  | bare hends =>
      refine .bare fun c hc => hends c ?_
      rw [List.head?_append, Option.mem_def.mp hc]
      rfl

/-! ## References in front of a blank -/

theorem NameEnds.append_blank (ht : Text.isBlank t = true) (hends : NameEnds rest)
    (tail : List Char) : NameEnds (rest ++ t :: tail) := by
  intro c hc
  cases rest with
  | nil =>
      obtain rfl := Option.some.inj hc
      exact isNameChar_of_isBlank ht
  | cons first rest => exact hends c hc

theorem Refers.append_blank (ht : Text.isBlank t = true) (h : Refers n w rest)
    (tail : List Char) : Refers n w (rest ++ t :: tail) := by
  cases h with
  | braced => exact .braced _
  | bare hends => exact .bare (hends.append_blank ht tail)

theorem Refers.not_mem_blank (ht : Text.isBlank t = true) (h : Refers n w rest)
    (hname : IsName n) : t ∉ w := by
  refine h.not_mem hname (isNameChar_of_isBlank ht) ?_ ?_
  · rintro rfl
    exact absurd ht (by decide)
  · rintro rfl
    exact absurd ht (by decide)

/-- What stands behind a blank is no part of a reference in front of it. -/
theorem reference?_append_blank (ht : Text.isBlank t = true) (cs tail : List Char) :
    reference? (cs ++ t :: tail) = reference? cs := by
  cases h : reference? cs with
  | some found =>
      obtain ⟨n, w⟩ := found
      obtain ⟨hname, rest, hrefers, rfl⟩ := reference?_eq_some_iff.mp h
      rw [List.append_assoc]
      exact reference?_eq_some_iff.mpr ⟨hname, _, hrefers.append_blank ht tail, rfl⟩
  | none =>
      by_contra hsome
      obtain ⟨⟨n, w⟩, hfound⟩ := Option.ne_none_iff_exists'.mp hsome
      obtain ⟨hname, rest, hrefers, hsplit⟩ := reference?_eq_some_iff.mp hfound
      have hinside : ∃ more, cs = w ++ more ∧ rest = more ++ t :: tail := by
        rcases List.append_eq_append_iff.mp hsplit with ⟨more, rfl, hmore⟩ | hinside
        · rcases more with - | ⟨first, more⟩
          · exact ⟨[], by simp, hmore.symm⟩
          · obtain ⟨rfl, -⟩ := List.cons.inj hmore
            exact absurd (List.mem_append_right cs (List.mem_cons_self ..))
              (hrefers.not_mem_blank ht hname)
        · exact hinside
      obtain ⟨more, rfl, rfl⟩ := hinside
      have hshort := reference?_eq_some_iff.mpr ⟨hname, more, hrefers.of_append, rfl⟩
      rw [h] at hshort
      cases hshort

/-! ## Dollars -/

/-- How a reference is written once it is read: a declared variable has no braces. -/
def shown (declared : List String) (n w : List Char) : List Char :=
  if declared.contains (String.ofList n) then n else w

theorem read_dollar_of_some (h : reference? (w ++ rest) = some (n, w)) :
    (dollar (c := c) declared (w ++ rest)).read = ('$' :: shown declared n w, rest) := by
  unfold dollar
  split
  · next hfound =>
      rw [h] at hfound
      obtain ⟨rfl, rfl⟩ := Prod.mk.inj (Option.some.inj hfound)
      exact congrArg _ List.drop_left
  · next hnone => rw [h] at hnone; cases hnone

theorem read_dollar_of_none (h : reference? cs = none) :
    (dollar (c := c) declared cs).read = (['$'], cs) := by
  unfold dollar
  split
  · next hfound => rw [h] at hfound; cases hfound
  · rfl

end Manifest.Command
