import Mathlib.Data.List.Infix
import Manifest.Proofs.Command.Variable
import Manifest.Proofs.Template.Lossless
/-!
# Parts of words

Inside of double quotes and outside of them, a word is a row of expressions, characters
behind a backslash, what stands behind a dollar, and plain text that goes on as far as it
can. Which of them comes first in a text, and where it ends, is said here without
the functions that read it (`Part.Leads`). It is one part at most (`Part.Leads.unique`),
and reading takes that (`Part.Leads.quotedPart`, `Part.Leads.piece`). There is none
only where the text is cut off or its first character means something else
(`leads_or_cut`).

What becomes of each character is written down with the part: it is kept, or there is a
reason why it is not (`Role`).
-/

namespace Manifest

theorem Text.breakOn?_eq_none_iff {needle cs : List Char} :
    breakOn? needle cs = none ↔ ¬ needle <:+: cs := by
  constructor
  · exact not_infix_of_breakOn?_eq_none
  · intro hinfix
    by_contra hsome
    obtain ⟨⟨before, after⟩, hbreak⟩ := Option.ne_none_iff_exists'.mp hsome
    exact hinfix ⟨before, after, (eq_append_of_breakOn? hbreak).symm⟩

namespace Command

variable {d : Dialect} {quoted : Bool} {c : Char} {cs text rest last missing : List Char}

/-! ## What becomes of a character -/

/-- A character is put into a word, or it is dropped because it is white space, a quote
mark, a backslash that escapes, or a brace around the name of a variable. -/
inductive Role where
  | kept
  | blank
  | quote
  | backslash
  | brace (name : List Char)
deriving DecidableEq, Repr

/-- There is this reason to drop the character. -/
def Role.Fits (declared : List String) (c : Char) : Role → Prop
  | .kept => True
  | .blank => Text.isBlank c = true
  | .quote => c = '\'' ∨ c = '"'
  | .backslash => c = '\\'
  | .brace n => (c = '{' ∨ c = '}') ∧ IsName n ∧ declared.contains (String.ofList n) = true

/-- A text with what becomes of each of its characters. -/
abbrev Marked := List (Char × Role)

/-- A text of which nothing is dropped. -/
def keep (cs : List Char) : Marked := cs.map fun c => (c, .kept)

/-- The text as it stands in the line. -/
def written (m : Marked) : List Char := m.map Prod.fst

/-- The text as it is put into a word. -/
def kept (m : Marked) : List Char := (m.filter fun x => x.2 = .kept).map Prod.fst

theorem written_append (m m' : Marked) : written (m ++ m') = written m ++ written m' :=
  List.map_append

theorem kept_append (m m' : Marked) : kept (m ++ m') = kept m ++ kept m' := by
  simp [kept]

theorem written_cons (c : Char) (role : Role) (m : Marked) :
    written ((c, role) :: m) = c :: written m := rfl

theorem kept_cons_kept (c : Char) (m : Marked) : kept ((c, .kept) :: m) = c :: kept m := rfl

theorem kept_cons_of_ne {role : Role} (h : role ≠ .kept) (c : Char) (m : Marked) :
    kept ((c, role) :: m) = kept m := by
  simp [kept, h]

theorem written_keep (cs : List Char) : written (keep cs) = cs := by
  rw [written, keep, List.map_map]
  exact List.map_id cs

theorem kept_keep (cs : List Char) : kept (keep cs) = cs := by
  induction cs with
  | nil => rfl
  | cons c cs ih => exact congrArg (c :: ·) ih

theorem role_of_mem_keep {x : Char × Role} (h : x ∈ keep cs) : x.2 = .kept := by
  obtain ⟨c, -, rfl⟩ := List.mem_map.mp h
  rfl

/-! ## Rows -/

section

variable {α : Type} {leads : α → List Char → List Char → Prop} {a : α} {as as' : List α}

/-- A text is a row of things, and then goes on with `rest`. -/
inductive Row (leads : α → List Char → List Char → Prop) : List α → List Char → List Char → Prop
  | nil (cs : List Char) : Row leads [] cs cs
  | cons {a : α} {as : List α} {cs mid rest : List Char} (h : leads a cs mid)
      (hrow : Row leads as mid rest) : Row leads (a :: as) cs rest

/-- No such thing comes first in the text. -/
def Stuck (leads : α → List Char → List Char → Prop) (cs : List Char) : Prop :=
  ∀ a rest, ¬ leads a cs rest

/-- One thing at most comes first in a text, and it ends in one place. -/
def Functional (leads : α → List Char → List Char → Prop) : Prop :=
  ∀ ⦃a a' cs rest rest'⦄, leads a cs rest → leads a' cs rest' → a = a' ∧ rest = rest'

theorem Row.unique {last' : List Char} (hone : Functional leads) (h : Row leads as cs last)
    (hlast : Stuck leads last) (h' : Row leads as' cs last') (hlast' : Stuck leads last') :
    as = as' ∧ last = last' := by
  induction h generalizing as' with
  | nil =>
      cases h' with
      | nil => exact ⟨rfl, rfl⟩
      | cons hfirst => exact absurd hfirst (hlast _ _)
  | cons hfirst _ ih =>
      cases h' with
      | nil => exact absurd hfirst (hlast' _ _)
      | cons hfirst' hrow' =>
          obtain ⟨rfl, rfl⟩ := hone hfirst hfirst'
          obtain ⟨rfl, rfl⟩ := ih hlast hrow'
          exact ⟨rfl, rfl⟩

theorem Row.exists_of_mem (h : Row leads as cs last) (ha : a ∈ as) :
    ∃ cs rest, leads a cs rest := by
  induction h with
  | nil => cases ha
  | cons hfirst _ ih =>
      rcases List.mem_cons.mp ha with rfl | ha
      · exact ⟨_, _, hfirst⟩
      · exact ih ha

/-- A row is the text of its things, where each of them is. -/
theorem Row.eq_append {f : α → Marked}
    (hf : ∀ {a cs rest}, leads a cs rest → cs = written (f a) ++ rest) (h : Row leads as cs last) :
    cs = written (as.flatMap f) ++ last := by
  induction h with
  | nil => rfl
  | cons hfirst _ ih =>
      rw [List.flatMap_cons, written_append, List.append_assoc, ← ih]
      exact hf hfirst

/-- A text is a row as far as it can be. -/
theorem exists_row (leads : α → List Char → List Char → Prop)
    (hshorter : ∀ {a cs rest}, leads a cs rest → rest.length < cs.length) (cs : List Char) :
    ∃ as last, Row leads as cs last ∧ Stuck leads last := by
  by_cases hstuck : Stuck leads cs
  · exact ⟨[], cs, .nil cs, hstuck⟩
  · simp only [Stuck, not_forall, not_not] at hstuck
    obtain ⟨a, mid, hfirst⟩ := hstuck
    have hlt := hshorter hfirst
    obtain ⟨as, last, hrow, hlast⟩ := exists_row leads hshorter mid
    exact ⟨a :: as, last, .cons hfirst hrow, hlast⟩
termination_by cs.length

end

/-! ## Plain text -/

/-- Plain text does not go on here: the text ends, its first character stops, or an
expression opens. -/
def PlainEnds (d : Delimiters) (stop : Char → Bool) : List Char → Prop
  | [] => True
  | c :: cs => stop c = true ∨ (d.afterOpening? (c :: cs)).isSome = true

/-- The text is plain, and ends in front of `rest`. -/
inductive Plain (d : Delimiters) (stop : Char → Bool) : (text rest : List Char) → Prop
  | nil {rest : List Char} (h : PlainEnds d stop rest) : Plain d stop [] rest
  | cons {c : Char} {text rest : List Char} (hgoes : ¬ PlainEnds d stop (c :: (text ++ rest)))
      (h : Plain d stop text rest) : Plain d stop (c :: text) rest

theorem plainEnds_cons_iff {d : Delimiters} {stop : Char → Bool} :
    PlainEnds d stop (c :: cs) ↔ (stop c || (d.afterOpening? (c :: cs)).isSome) = true := by
  rw [Bool.or_eq_true]
  rfl

/-- Plain text is read as far as it goes. -/
theorem plain_eq_iff {d : Delimiters} {stop : Char → Bool} :
    plain d stop cs = (text, rest) ↔ cs = text ++ rest ∧ Plain d stop text rest := by
  constructor
  · intro h
    induction cs generalizing text with
    | nil =>
        obtain ⟨rfl, rfl⟩ := Prod.mk.inj h
        exact ⟨rfl, .nil trivial⟩
    | cons c cs ih =>
        rw [plain] at h
        split at h
        · next hbreaks =>
            obtain ⟨rfl, rfl⟩ := Prod.mk.inj h
            exact ⟨rfl, .nil (plainEnds_cons_iff.mpr hbreaks)⟩
        · next hgoes =>
            obtain ⟨rfl, rfl⟩ := Prod.mk.inj h
            obtain ⟨hsplit, hplain⟩ := ih rfl
            refine ⟨congrArg (c :: ·) hsplit, .cons ?_ hplain⟩
            rwa [← hsplit, plainEnds_cons_iff]
  · rintro ⟨rfl, h⟩
    induction h with
    | @nil rest hbreaks =>
        cases rest with
        | nil => rfl
        | cons c rest => rw [List.nil_append, plain, if_pos (plainEnds_cons_iff.mp hbreaks)]
    | cons hgoes _ ih =>
        rw [List.cons_append, plain, if_neg (plainEnds_cons_iff.not.mp hgoes), ih]

theorem Plain.goes {d : Delimiters} {stop : Char → Bool} (h : Plain d stop (c :: text) rest) :
    stop c = false ∧ d.afterOpening? (c :: (text ++ rest)) = none := by
  cases h with
  | cons hgoes =>
      rw [plainEnds_cons_iff, Bool.or_eq_true, not_or] at hgoes
      simpa using hgoes

theorem Plain.not_stops {d : Delimiters} {stop : Char → Bool} (h : Plain d stop text rest)
    (hc : c ∈ text) : stop c = false := by
  induction h with
  | nil => cases hc
  | cons hgoes htext ih =>
      rcases List.mem_cons.mp hc with rfl | hc
      · exact (Plain.cons hgoes htext).goes.1
      · exact ih hc

theorem read_run {d : Delimiters} {stop : Char → Bool} (h : Plain d stop (c :: text) rest) :
    (run (c := c) d stop (text ++ rest)).read = (c :: text, rest) := by
  cases h with
  | cons _ htext =>
      have hplain : plain d stop (text ++ rest) = (text, rest) := plain_eq_iff.mpr ⟨rfl, htext⟩
      exact congrArg (fun found => (c :: found.1, found.2)) hplain

/-! ## Parts

A part of a word is read in the same way inside of double quotes and outside of them, but
for the characters that end plain text and for what a backslash does. -/

/-- The characters that plain text does not go over. -/
def stops (quoted : Bool) : Char → Bool :=
  match quoted with
  | true => stopsQuoted
  | false => stopsWord

/-- A part of a word. A reference is known by its name and as it is written. -/
inductive Part where
  | expression (inside : List Char)
  | escaped (c : Char)
  | dollar
  | reference (name written : List Char)
  | plain (text : List Char)
deriving DecidableEq, Repr

/-- In double quotes only a quote, a backslash or a dollar loses the backslash in front of it.
A variable that is declared loses its braces. -/
def Part.marked (d : Dialect) (quoted : Bool) : Part → Marked
  | .expression inside => keep (d.delimiters.enclose inside)
  | .escaped c => ('\\', if quoted && !stopsQuoted c then .kept else .backslash) :: keep [c]
  | .dollar => keep ['$']
  | .reference n w =>
    if d.declared.contains (String.ofList n) then
      ('$', .kept) :: w.map fun c => (c, if isNameChar c then .kept else .brace n)
    else keep ('$' :: w)
  | .plain text => keep text

/-- What comes first where no expression opens. -/
inductive Part.Bare (d : Dialect) (quoted : Bool) : Part → (cs rest : List Char) → Prop
  | escaped (c : Char) (rest : List Char) : Bare d quoted (.escaped c) ('\\' :: c :: rest) rest
  | dollar {rest : List Char}
      (halone : ∀ n w after, IsName n → Refers n w after → rest ≠ w ++ after) :
      Bare d quoted .dollar ('$' :: rest) rest
  | reference {n w cs rest : List Char} (hname : IsName n) (hrefers : Refers n w rest)
      (hcs : cs = w ++ rest) : Bare d quoted (.reference n w) ('$' :: cs) rest
  | plain {c : Char} {text cs rest : List Char}
      (hplain : Plain d.delimiters (stops quoted) (c :: text) rest) (hcs : cs = text ++ rest) :
      Bare d quoted (.plain (c :: text)) (c :: cs) rest

/-- The part comes first in a text that goes on with `rest`. -/
inductive Part.Leads (d : Dialect) (quoted : Bool) : Part → (cs rest : List Char) → Prop
  | expression {cs body inside rest : List Char} (hopen : d.delimiters.afterOpening? cs = some body)
      (hclose : d.delimiters.closing? body = some (inside, rest)) :
      Leads d quoted (.expression inside) cs rest
  | bare {p : Part} {cs rest : List Char} (hopen : d.delimiters.afterOpening? cs = none)
      (h : Bare d quoted p cs rest) : Leads d quoted p cs rest

/-- The text ends before what comes first in it: no closing delimiter ever comes, or no
character behind the backslash. The fault is at `missing`. -/
inductive Cut (d : Dialect) : (cs missing : List Char) → Prop
  | expression {cs body : List Char} (hopen : d.delimiters.afterOpening? cs = some body)
      (hclose : ¬ d.delimiters.closing.toList <:+: body) : Cut d cs body
  | backslash (hopen : d.delimiters.afterOpening? ['\\'] = none) : Cut d ['\\'] []

theorem reference?_eq_none_iff :
    reference? cs = none ↔ ∀ n w after, IsName n → Refers n w after → cs ≠ w ++ after := by
  constructor
  · intro h n w after hname hrefers hcs
    rw [reference?_eq_some_iff.mpr ⟨hname, after, hrefers, hcs⟩] at h
    cases h
  · intro halone
    by_contra hsome
    obtain ⟨⟨n, w⟩, hfound⟩ := Option.ne_none_iff_exists'.mp hsome
    obtain ⟨hname, after, hrefers, hcs⟩ := reference?_eq_some_iff.mp hfound
    exact halone n w after hname hrefers hcs

theorem Refers.filter_isNameChar {n w : List Char} (h : Refers n w rest) (hname : IsName n) :
    w.filter isNameChar = n := by
  have hn : n.filter isNameChar = n := List.filter_eq_self.mpr hname.chars
  cases h with
  | braced =>
      rw [List.filter_cons_of_neg (by decide), List.filter_append, hn,
        List.filter_cons_of_neg (by decide)]
      exact List.append_nil n
  | bare => exact hn

theorem kept_map_brace (n w : List Char) :
    kept (w.map fun c => (c, if isNameChar c then Role.kept else .brace n))
      = w.filter isNameChar := by
  induction w with
  | nil => rfl
  | cons c w ih =>
      cases hc : isNameChar c with
      | true => simp only [List.map_cons, hc, if_true, kept_cons_kept, ih, List.filter_cons_of_pos]
      | false =>
          simp only [List.map_cons, hc, Bool.false_eq_true, if_false]
          rw [kept_cons_of_ne (by simp), ih, List.filter_cons_of_neg (by simp [hc])]

/-- What is kept of a reference is how it is shown. -/
theorem kept_reference {n w : List Char} (h : Refers n w rest) (hname : IsName n) (quoted : Bool) :
    kept ((Part.reference n w).marked d quoted) = '$' :: shown d.declared n w := by
  rw [Part.marked, shown]
  split
  · rw [kept_cons_kept, kept_map_brace, h.filter_isNameChar hname]
  · exact kept_keep _

theorem read_dollar_reference {n w : List Char} (hname : IsName n) (hrefers : Refers n w rest)
    (quoted : Bool) :
    (dollar (c := '$') d.declared (w ++ rest)).read
      = (kept ((Part.reference n w).marked d quoted), rest) := by
  rw [kept_reference hrefers hname quoted]
  exact read_dollar_of_some (reference?_eq_some_iff.mpr ⟨hname, rest, hrefers, rfl⟩)

theorem ne_of_stops (h : stops quoted c = false) : c ≠ '"' ∧ c ≠ '\\' ∧ c ≠ '$' := by
  refine ⟨?_, ?_, ?_⟩ <;> rintro rfl <;> cases quoted <;> exact absurd h (by decide)

theorem Part.Leads.quotedPart {p : Part} (h : p.Leads d true (c :: cs) rest) :
    (quotedPart d c cs).map Piece.read = .ok (kept (p.marked d true), rest) := by
  cases h with
  | expression hopen hclose =>
      rw [quotedPart_of_opened hopen]
      exact (read_expression_iff hopen).mpr ⟨_, hclose, kept_keep _⟩
  | bare hopen h =>
      rw [quotedPart_of_unopened hopen]
      cases h with
      | escaped e =>
          have hkept : (if stopsQuoted e then [e] else ['\\', e])
              = kept ((Part.escaped e).marked d true) := by
            cases hstop : stopsQuoted e <;> simp [Part.marked, hstop, kept, keep]
          rw [if_pos rfl, ← hkept]
          rfl
      | dollar halone =>
          rw [if_neg (by decide), if_pos rfl]
          exact congrArg Except.ok (read_dollar_of_none (reference?_eq_none_iff.mpr halone))
      | reference hname hrefers hcs =>
          rw [if_neg (by decide), if_pos rfl, hcs]
          exact congrArg Except.ok (read_dollar_reference hname hrefers true)
      | plain hplain hcs =>
          obtain ⟨-, hbackslash, hdollar⟩ := ne_of_stops hplain.goes.1
          rw [if_neg hbackslash, if_neg hdollar, hcs, Part.marked, kept_keep]
          exact congrArg Except.ok (read_run hplain)

theorem Part.Bare.ne_mark {p : Part} (h : p.Bare d false (c :: cs) rest) :
    c ≠ '\'' ∧ c ≠ '"' := by
  cases h with
  | escaped => exact ⟨by decide, by decide⟩
  | dollar => exact ⟨by decide, by decide⟩
  | reference => exact ⟨by decide, by decide⟩
  | plain hplain =>
      refine ⟨?_, (ne_of_stops hplain.goes.1).1⟩
      rintro rfl
      exact absurd hplain.goes.1 (by decide)

theorem Part.Leads.piece {p : Part} (h : p.Leads d false (c :: cs) rest) :
    (piece d c cs).map Piece.read = .ok (kept (p.marked d false), rest) := by
  cases h with
  | expression hopen hclose =>
      rw [piece_of_opened hopen]
      exact (read_expression_iff hopen).mpr ⟨_, hclose, kept_keep _⟩
  | bare hopen h =>
      rw [piece_of_unopened hopen, if_neg h.ne_mark.1, if_neg h.ne_mark.2]
      cases h with
      | escaped e => rfl
      | dollar halone =>
          rw [if_neg (by decide), if_pos rfl]
          exact congrArg Except.ok (read_dollar_of_none (reference?_eq_none_iff.mpr halone))
      | reference hname hrefers hcs =>
          rw [if_neg (by decide), if_pos rfl, hcs]
          exact congrArg Except.ok (read_dollar_reference hname hrefers false)
      | plain hplain hcs =>
          obtain ⟨-, hbackslash, hdollar⟩ := ne_of_stops hplain.goes.1
          rw [if_neg hbackslash, if_neg hdollar, hcs, Part.marked, kept_keep]
          exact congrArg Except.ok (read_run hplain)

/-- Only one part comes first in a text. -/
theorem Part.Leads.unique {p p' : Part} {rest' : List Char} (h : p.Leads d quoted cs rest)
    (h' : p'.Leads d quoted cs rest') : p = p' ∧ rest = rest' := by
  cases h with
  | expression hopen hclose =>
      cases h' with
      | expression hopen' hclose' =>
          obtain rfl := Option.some.inj (hopen.symm.trans hopen')
          obtain ⟨rfl, rfl⟩ := Prod.mk.inj (Option.some.inj (hclose.symm.trans hclose'))
          exact ⟨rfl, rfl⟩
      | bare hopen' => rw [hopen] at hopen'; cases hopen'
  | bare hopen h =>
      cases h' with
      | expression hopen' => rw [hopen] at hopen'; cases hopen'
      | bare _ h' =>
          cases h with
          | escaped =>
              cases h' with
              | escaped => exact ⟨rfl, rfl⟩
              | plain hplain => exact absurd rfl (ne_of_stops hplain.goes.1).2.1
          | dollar halone =>
              cases h' with
              | dollar => exact ⟨rfl, rfl⟩
              | reference hname hrefers hcs => exact absurd hcs (halone _ _ _ hname hrefers)
              | plain hplain => exact absurd rfl (ne_of_stops hplain.goes.1).2.2
          | reference hname hrefers hcs =>
              cases h' with
              | dollar halone => exact absurd hcs (halone _ _ _ hname hrefers)
              | reference hname' hrefers' hcs' =>
                  have hfound := reference?_eq_some_iff.mpr ⟨hname, _, hrefers, hcs⟩
                  rw [reference?_eq_some_iff.mpr ⟨hname', _, hrefers', hcs'⟩] at hfound
                  obtain ⟨rfl, rfl⟩ := Prod.mk.inj (Option.some.inj hfound)
                  exact ⟨rfl, List.append_cancel_left (hcs.symm.trans hcs')⟩
              | plain hplain => exact absurd rfl (ne_of_stops hplain.goes.1).2.2
          | @plain c text cs _ hplain hcs =>
              cases h' with
              | escaped => exact absurd rfl (ne_of_stops hplain.goes.1).2.1
              | dollar => exact absurd rfl (ne_of_stops hplain.goes.1).2.2
              | reference => exact absurd rfl (ne_of_stops hplain.goes.1).2.2
              | plain hplain' hcs' =>
                  have hread := plain_eq_iff.mpr ⟨congrArg (c :: ·) hcs, hplain⟩
                  rw [plain_eq_iff.mpr ⟨congrArg (c :: ·) hcs', hplain'⟩] at hread
                  obtain ⟨htext, hrest⟩ := Prod.mk.inj hread
                  exact ⟨congrArg Part.plain htext.symm, hrest.symm⟩

/-- A text begins with a part or is cut off, unless its first character means something else. -/
theorem leads_or_cut (c : Char) (cs : List Char)
    (hhead : d.delimiters.afterOpening? (c :: cs) = none → stops quoted c = true →
      c = '\\' ∨ c = '$') :
    (∃ p rest, Part.Leads d quoted p (c :: cs) rest) ∨ ∃ missing, Cut d (c :: cs) missing := by
  cases hopen : d.delimiters.afterOpening? (c :: cs) with
  | some body =>
      cases hclose : d.delimiters.closing? body with
      | some found => exact .inl ⟨.expression found.1, found.2, .expression hopen hclose⟩
      | none => exact .inr ⟨body, .expression hopen (Text.breakOn?_eq_none_iff.mp hclose)⟩
  | none =>
      cases hstop : stops quoted c with
      | false =>
          have hgoes : ¬ PlainEnds d.delimiters (stops quoted) (c :: cs) := by
            rw [plainEnds_cons_iff, hstop, hopen]
            exact Bool.false_ne_true
          obtain ⟨hcs, hplain⟩ :=
            plain_eq_iff.mp (Prod.eta (plain d.delimiters (stops quoted) cs)).symm
          rw [hcs] at hgoes
          exact .inl ⟨_, _, .bare hopen (.plain (.cons hgoes hplain) hcs)⟩
      | true =>
          rcases hhead hopen hstop with rfl | rfl
          · cases cs with
            | nil => exact .inr ⟨[], .backslash hopen⟩
            | cons e cs => exact .inl ⟨_, cs, .bare hopen (.escaped e cs)⟩
          · cases hfound : reference? cs with
            | none =>
                exact .inl ⟨_, cs, .bare hopen (.dollar (reference?_eq_none_iff.mp hfound))⟩
            | some found =>
                obtain ⟨hname, rest, hrefers, hcs⟩ := reference?_eq_some_iff.mp hfound
                exact .inl ⟨_, rest, .bare hopen (.reference hname hrefers hcs)⟩

theorem written_marked_reference (n w : List Char) :
    written ((Part.reference n w).marked d quoted) = '$' :: w := by
  rw [Part.marked]
  split
  · rw [written_cons, written, List.map_map]
    exact congrArg ('$' :: ·) (List.map_id w)
  · exact written_keep _

theorem Part.Leads.written {p : Part} (h : p.Leads d quoted cs rest) :
    cs = written (p.marked d quoted) ++ rest := by
  cases h with
  | expression hopen hclose =>
      rw [Part.marked, written_keep]
      exact (Delimiters.enclose_append hopen hclose).symm
  | bare _ h =>
      cases h with
      | escaped => rfl
      | dollar => rfl
      | reference _ _ hcs => rw [written_marked_reference, hcs, List.cons_append]
      | plain _ hcs => rw [Part.marked, written_keep, hcs, List.cons_append]

theorem fits_of_mem_keep {declared : List String} {x : Char × Role} (h : x ∈ keep cs) :
    x.2.Fits declared x.1 := by
  rw [role_of_mem_keep h]
  trivial

/-- What is dropped of a part is a backslash or a brace. -/
theorem Part.Leads.fits {p : Part} (h : p.Leads d quoted cs rest) {x : Char × Role}
    (hx : x ∈ p.marked d quoted) : x.2.Fits d.declared x.1 := by
  cases h with
  | expression => exact fits_of_mem_keep hx
  | bare _ h =>
      cases h with
      | escaped =>
          rcases List.mem_cons.mp hx with rfl | hx
          · dsimp only
            split <;> trivial
          · exact fits_of_mem_keep hx
      | dollar => exact fits_of_mem_keep hx
      | @reference n w _ _ hname hrefers =>
          rw [Part.marked] at hx
          split at hx
          · next hdeclared =>
              rcases List.mem_cons.mp hx with rfl | hx
              · trivial
              · obtain ⟨c, hc, rfl⟩ := List.mem_map.mp hx
                dsimp only
                split
                · trivial
                · next hchar =>
                    exact ⟨(hrefers.chars hname hc).resolve_left hchar, hname, hdeclared⟩
          · exact fits_of_mem_keep hx
      | plain => exact fits_of_mem_keep hx

theorem Part.Leads.ne_nil {p : Part} (h : p.Leads d quoted cs rest) : cs ≠ [] := by
  cases h with
  | expression hopen =>
      rintro rfl
      exact absurd (Delimiters.afterOpening?_shorter hopen) (Nat.not_lt_zero _)
  | bare _ h => cases h <;> exact List.cons_ne_nil _ _

theorem Cut.quotedPart (h : Cut d (c :: cs) missing) : quotedPart d c cs = .error missing := by
  cases h with
  | expression hopen hclose =>
      rw [quotedPart_of_opened hopen]
      exact expression_of_unclosed hopen (Text.breakOn?_eq_none_iff.mpr hclose)
  | backslash hopen =>
      rw [quotedPart_of_unopened hopen, if_pos rfl]
      rfl

theorem Cut.piece (h : Cut d (c :: cs) missing) : piece d c cs = .error missing := by
  cases h with
  | expression hopen hclose =>
      rw [piece_of_opened hopen]
      exact expression_of_unclosed hopen (Text.breakOn?_eq_none_iff.mpr hclose)
  | backslash hopen =>
      rw [piece_of_unopened hopen, if_neg (by decide), if_neg (by decide), if_pos rfl]
      rfl

theorem Cut.ne_nil (h : Cut d cs missing) : cs ≠ [] := by
  cases h with
  | expression hopen =>
      rintro rfl
      exact absurd (Delimiters.afterOpening?_shorter hopen) (Nat.not_lt_zero _)
  | backslash => exact List.cons_ne_nil _ _

end Command

end Manifest
