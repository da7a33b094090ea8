import Manifest.Proofs.Command.Parts
/-!
# What a line is made of

From left to right a line is white space and pieces: texts in single and in double quotes,
and parts that stand outside of them (`Item.Leads`). A line is such a row in only one way,
up to its end or to a piece that is not finished (`exists_reads`, `Reads.unique`). In
the first case the row says what the words are (`Reads.words_eq_ok_iff`), in the second
reading fails there (`Reads.words_eq_error_iff`).
-/

namespace Manifest.Command

variable {d : Dialect} {begun : Option (List Char)} {c : Char}
variable {cs rest last missing : List Char}

/-! ## Pieces -/

/-- In double quotes a part comes first unless the closing quote does. -/
def InQuotes (d : Dialect) (p : Part) (cs rest : List Char) : Prop :=
  cs.head? ≠ some '"' ∧ p.Leads d true cs rest

/-- What a piece of a word may be. -/
inductive Form where
  | single (inside : List Char)
  | double (parts : List Part)
  | part (p : Part)
deriving DecidableEq, Repr

def Form.marked (d : Dialect) : Form → Marked
  | .single inside => ('\'', .quote) :: (keep inside ++ [('\'', .quote)])
  | .double parts => ('"', .quote) :: (parts.flatMap (Part.marked d true) ++ [('"', .quote)])
  | .part p => p.marked d false

/-- The piece comes first in a text that goes on with `rest`. An expression goes before
quotes where its delimiter begins with one. -/
inductive Form.Leads (d : Dialect) : Form → (cs rest : List Char) → Prop
  | single {inside cs rest : List Char} (hopen : d.delimiters.afterOpening? ('\'' :: cs) = none)
      (hinside : '\'' ∉ inside) (hcs : cs = inside ++ '\'' :: rest) :
      Leads d (.single inside) ('\'' :: cs) rest
  | double {parts : List Part} {cs rest : List Char}
      (hopen : d.delimiters.afterOpening? ('"' :: cs) = none)
      (hparts : Row (InQuotes d) parts cs ('"' :: rest)) : Leads d (.double parts) ('"' :: cs) rest
  | part {p : Part} {cs rest : List Char} (hblank : ∀ c ∈ cs.head?, Text.isBlank c = false)
      (h : p.Leads d false cs rest) : Leads d (.part p) cs rest

/-- The text ends before the piece that comes first in it: inside of quotes, or with what
it is cut off in. The fault is at `missing`. -/
inductive BreaksOff (d : Dialect) : (cs missing : List Char) → Prop
  | single {inside : List Char} (hopen : d.delimiters.afterOpening? ('\'' :: inside) = none)
      (hinside : '\'' ∉ inside) : BreaksOff d ('\'' :: inside) []
  | double {parts : List Part} {cs : List Char}
      (hopen : d.delimiters.afterOpening? ('"' :: cs) = none)
      (hparts : Row (InQuotes d) parts cs []) : BreaksOff d ('"' :: cs) []
  | cutInQuotes {parts : List Part} {cs last missing : List Char}
      (hopen : d.delimiters.afterOpening? ('"' :: cs) = none)
      (hparts : Row (InQuotes d) parts cs last) (hquote : last.head? ≠ some '"')
      (hlast : Cut d last missing) : BreaksOff d ('"' :: cs) missing
  | cut {cs missing : List Char} (hblank : ∀ c ∈ cs.head?, Text.isBlank c = false)
      (h : Cut d cs missing) : BreaksOff d cs missing

/-! ### Text in double quotes -/

theorem InQuotes.shorter {p : Part} (h : InQuotes d p cs rest) : rest.length < cs.length := by
  obtain ⟨c, cs, rfl⟩ := List.exists_cons_of_ne_nil h.2.ne_nil
  obtain ⟨p, -, hread⟩ := ok_of_map_eq_ok h.2.quotedPart
  obtain ⟨-, rfl⟩ := Prod.mk.inj hread
  exact p.shorter

theorem functional_inQuotes (d : Dialect) : Functional (InQuotes d) :=
  fun _ _ _ _ _ h h' => h.2.unique h'.2

/-- The parts are put in front of what follows them. -/
theorem read_quotedRest_row {parts : List Part} (h : Row (InQuotes d) parts cs last) :
    (quotedRest d cs).map Piece.read
      = ((quotedRest d last).map Piece.read).map fun r =>
          (kept (parts.flatMap (Part.marked d true)) ++ r.1, r.2) := by
  induction h with
  | nil => cases quotedRest d _ <;> rfl
  | @cons p parts cs mid last hpart _ ih =>
      obtain ⟨hquote, hleads⟩ := hpart
      obtain ⟨c, cs, rfl⟩ := List.exists_cons_of_ne_nil hleads.ne_nil
      have hne : c ≠ '"' := fun heq => hquote (congrArg some heq)
      rw [read_quotedRest_part hne hleads.quotedPart, ih, List.flatMap_cons, kept_append]
      cases quotedRest d last with
      | error => rfl
      | ok q => exact congrArg (fun text => Except.ok (text, q.rest)) (List.append_assoc ..).symm

theorem quotedRest_of_cut (hquote : last.head? ≠ some '"') (hlast : Cut d last missing) :
    quotedRest d last = .error missing := by
  obtain ⟨c, cs, rfl⟩ := List.exists_cons_of_ne_nil hlast.ne_nil
  rw [quotedRest, if_neg fun heq => hquote (congrArg some heq), hlast.quotedPart]

/-- Text in double quotes ends with the closing one, with the line, or where it is cut off. -/
theorem ends_of_stuck (h : Stuck (InQuotes d) cs) :
    cs = [] ∨ (∃ rest, cs = '"' :: rest) ∨ cs.head? ≠ some '"' ∧ ∃ missing, Cut d cs missing := by
  cases cs with
  | nil => exact .inl rfl
  | cons c cs =>
      by_cases hquote : c = '"'
      · exact .inr (.inl ⟨cs, hquote ▸ rfl⟩)
      · have hhead : (c :: cs).head? ≠ some '"' := fun heq => hquote (Option.some.inj heq)
        have hstops : stops true c = true → c = '\\' ∨ c = '$' := by
          simp [stops, stopsQuoted, hquote]
        rcases leads_or_cut c cs (fun _ => hstops) with ⟨p, rest, hpart⟩ | hcut
        · exact absurd ⟨hhead, hpart⟩ (h p rest)
        · exact .inr (.inr ⟨hhead, hcut⟩)

theorem stuck_quote (rest : List Char) : Stuck (InQuotes d) ('"' :: rest) :=
  fun _ _ hpart => hpart.1 rfl

/-! ### Pieces are read -/

theorem Form.Leads.not_blank {f : Form} (h : f.Leads d (c :: cs) rest) :
    Text.isBlank c = false := by
  cases h with
  | single => rfl
  | double => rfl
  | part hblank => exact hblank c rfl

/-- Reading takes the piece that comes first. -/
theorem Form.Leads.read {f : Form} (h : f.Leads d (c :: cs) rest) :
    (piece d c cs).map Piece.read = .ok (kept (f.marked d), rest) := by
  cases h with
  | single hopen hinside hcs =>
      rw [piece_of_unopened hopen, if_pos rfl,
        read_singleQuoted (Text.breakOn?_singleton_eq_some_iff.mpr ⟨hinside, hcs⟩), Form.marked,
        kept_cons_of_ne (by simp), kept_append, kept_keep]
      simp [kept]
  | double hopen hparts =>
      rw [piece_of_unopened hopen, if_neg (by decide), if_pos rfl, read_doubleQuoted,
        read_quotedRest_row hparts, quotedRest_end, Form.marked, kept_cons_of_ne (by simp),
        kept_append]
      rfl
  | part _ h => exact h.piece

theorem BreaksOff.not_blank (h : BreaksOff d (c :: cs) missing) : Text.isBlank c = false := by
  cases h with
  | single => rfl
  | double => rfl
  | cutInQuotes => rfl
  | cut hblank => exact hblank c rfl

theorem BreaksOff.ne_nil (h : BreaksOff d cs missing) : cs ≠ [] := by
  cases h with
  | single => exact List.cons_ne_nil _ _
  | double => exact List.cons_ne_nil _ _
  | cutInQuotes => exact List.cons_ne_nil _ _
  | cut _ h => exact h.ne_nil

theorem doubleQuoted_of_row {parts : List Part} (h : Row (InQuotes d) parts cs last)
    (hlast : quotedRest d last = .error missing) :
    doubleQuoted (c := c) d cs = .error missing := by
  refine error_of_map_eq_error (f := Piece.read) ?_
  rw [read_doubleQuoted, read_quotedRest_row h, hlast]
  rfl

/-- Reading fails at a piece that is not finished. -/
theorem BreaksOff.read (h : BreaksOff d (c :: cs) missing) : piece d c cs = .error missing := by
  cases h with
  | single hopen hinside =>
      have hnone : Text.breakOn? ['\''] cs = none := by
        rwa [Text.breakOn?_eq_none_iff, List.singleton_infix_iff]
      rw [piece_of_unopened hopen, if_pos rfl, singleQuoted]
      split
      · next hsome => rw [hnone] at hsome; cases hsome
      · rfl
  | double hopen hparts =>
      rw [piece_of_unopened hopen, if_neg (by decide), if_pos rfl]
      exact doubleQuoted_of_row hparts (by rw [quotedRest])
  | cutInQuotes hopen hparts hquote hlast =>
      rw [piece_of_unopened hopen, if_neg (by decide), if_pos rfl]
      exact doubleQuoted_of_row hparts (quotedRest_of_cut hquote hlast)
  | cut _ h => exact h.piece

/-- What is missing is known from the text. -/
theorem BreaksOff.unique {missing' : List Char} (h : BreaksOff d cs missing)
    (h' : BreaksOff d cs missing') : missing = missing' := by
  obtain ⟨c, cs, rfl⟩ := List.exists_cons_of_ne_nil h.ne_nil
  have hread := h.read
  rw [h'.read] at hread
  exact (Except.error.inj hread).symm

/-- What is not blank begins a piece, though it may not be finished. -/
theorem leads_or_breaksOff (hblank : Text.isBlank c = false) :
    (∃ f rest, Form.Leads d f (c :: cs) rest) ∨ ∃ missing, BreaksOff d (c :: cs) missing := by
  by_cases hmark : d.delimiters.afterOpening? (c :: cs) = none ∧ (c = '\'' ∨ c = '"')
  · obtain ⟨hopen, rfl | rfl⟩ := hmark
    · by_cases hquote : '\'' ∈ cs
      · obtain ⟨inside, rest, hcs, hinside⟩ := List.eq_append_cons_of_mem hquote
        exact .inl ⟨_, rest, .single hopen hinside hcs⟩
      · exact .inr ⟨[], .single hopen hquote⟩
    · obtain ⟨parts, last, hrow, hstuck⟩ := exists_row (InQuotes d) InQuotes.shorter cs
      rcases ends_of_stuck hstuck with rfl | ⟨rest, rfl⟩ | ⟨hquote, missing, hcut⟩
      · exact .inr ⟨[], .double hopen hrow⟩
      · exact .inl ⟨_, rest, .double hopen hrow⟩
      · exact .inr ⟨missing, .cutInQuotes hopen hrow hquote hcut⟩
  · have hhead : ∀ e ∈ (c :: cs).head?, Text.isBlank e = false := by
      rintro e ⟨⟩
      exact hblank
    have hstops : d.delimiters.afterOpening? (c :: cs) = none → stops false c = true →
        c = '\\' ∨ c = '$' := by
      intro hopen hstop
      have hneither : ¬ (c = '\'' ∨ c = '"') := fun heq => hmark ⟨hopen, heq⟩
      simpa [stops, stopsWord, stopsQuoted, hblank, not_or.mp hneither] using hstop
    rcases leads_or_cut c cs hstops with ⟨p, rest, hpart⟩ | ⟨missing, hcut⟩
    · exact .inl ⟨.part p, rest, .part hhead hpart⟩
    · exact .inr ⟨missing, .cut hhead hcut⟩

/-- Only one piece comes first in a text. -/
theorem Form.Leads.unique {f f' : Form} {rest' : List Char} (h : f.Leads d cs rest)
    (h' : f'.Leads d cs rest') : f = f' ∧ rest = rest' := by
  have hpart : ∀ {p : Part} {c cs rest}, d.delimiters.afterOpening? (c :: cs) = none →
      c = '\'' ∨ c = '"' → ¬ p.Leads d false (c :: cs) rest := by
    intro p c cs rest hopen hmark hleads
    cases hleads with
    | expression hopen' => rw [hopen] at hopen'; cases hopen'
    | bare _ h => exact hmark.elim h.ne_mark.1 h.ne_mark.2
  cases h with
  | single hopen hinside hcs =>
      cases h' with
      | single _ hinside' hcs' =>
          have hcut := Text.breakOn?_singleton_eq_some_iff.mpr ⟨hinside, hcs⟩
          rw [Text.breakOn?_singleton_eq_some_iff.mpr ⟨hinside', hcs'⟩] at hcut
          obtain ⟨rfl, rfl⟩ := Prod.mk.inj (Option.some.inj hcut)
          exact ⟨rfl, rfl⟩
      | part _ h' => exact absurd h' (hpart hopen (.inl rfl))
  | double hopen hparts =>
      cases h' with
      | double _ hparts' =>
          obtain ⟨rfl, hrest⟩ :=
            hparts.unique (functional_inQuotes d) (stuck_quote _) hparts' (stuck_quote _)
          exact ⟨rfl, (List.cons.inj hrest).2⟩
      | part _ h' => exact absurd h' (hpart hopen (.inr rfl))
  | part _ h =>
      cases h' with
      | single hopen => exact absurd h (hpart hopen (.inl rfl))
      | double hopen => exact absurd h (hpart hopen (.inr rfl))
      | part _ h' =>
          obtain ⟨rfl, rfl⟩ := h.unique h'
          exact ⟨rfl, rfl⟩

theorem Form.Leads.written {f : Form} (h : f.Leads d cs rest) :
    cs = written (f.marked d) ++ rest := by
  cases h with
  | single _ _ hcs =>
      rw [Form.marked, written_cons, written_append, written_keep, hcs]
      simp [Command.written]
  | double _ hparts =>
      rw [Form.marked, written_cons, written_append,
        hparts.eq_append fun hpart => hpart.2.written]
      simp [Command.written]
  | part _ h => exact h.written

/-- What is dropped of a piece is a quote mark, a backslash or a brace. -/
theorem Form.Leads.fits {f : Form} (h : f.Leads d cs rest) {x : Char × Role}
    (hx : x ∈ f.marked d) : x.2.Fits d.declared x.1 := by
  cases h with
  | single =>
      rcases List.mem_cons.mp hx with rfl | hx
      · exact .inl rfl
      · rcases List.mem_append.mp hx with hx | hx
        · exact fits_of_mem_keep hx
        · obtain rfl := List.mem_singleton.mp hx
          exact .inl rfl
  | double _ hparts =>
      rcases List.mem_cons.mp hx with rfl | hx
      · exact .inr rfl
      · rcases List.mem_append.mp hx with hx | hx
        · obtain ⟨p, hp, hx⟩ := List.mem_flatMap.mp hx
          obtain ⟨mid, after, hleads⟩ := hparts.exists_of_mem hp
          exact hleads.2.fits hx
        · obtain rfl := List.mem_singleton.mp hx
          exact .inr rfl
  | part _ h => exact h.fits hx

/-! ## Lines -/

/-- One blank of a line, or a piece of a word. -/
inductive Item where
  | blank (c : Char)
  | piece (f : Form)
deriving DecidableEq, Repr

def Item.marked (d : Dialect) : Item → Marked
  | .blank c => [(c, .blank)]
  | .piece f => f.marked d

/-- White space or a piece comes first in a text that goes on with `rest`. -/
inductive Item.Leads (d : Dialect) : Item → (cs rest : List Char) → Prop
  | blank {c : Char} {rest : List Char} (hblank : Text.isBlank c = true) :
      Leads d (.blank c) (c :: rest) rest
  | piece {f : Form} {cs rest : List Char} (h : f.Leads d cs rest) : Leads d (.piece f) cs rest

theorem functional_leads (d : Dialect) : Functional (Item.Leads d) := by
  intro item item' cs rest rest' h h'
  cases h with
  | blank hblank =>
      cases h' with
      | blank => exact ⟨rfl, rfl⟩
      | piece h' => rw [h'.not_blank] at hblank; cases hblank
  | piece h =>
      cases h' with
      | blank hblank => rw [h.not_blank] at hblank; cases hblank
      | piece h' =>
          obtain ⟨rfl, rfl⟩ := h.unique h'
          exact ⟨rfl, rfl⟩

theorem Form.Leads.ne_nil {f : Form} (h : f.Leads d cs rest) : cs ≠ [] := by
  cases h with
  | single => exact List.cons_ne_nil _ _
  | double => exact List.cons_ne_nil _ _
  | part _ h => exact h.ne_nil

theorem Item.Leads.shorter {item : Item} (h : item.Leads d cs rest) :
    rest.length < cs.length := by
  cases h with
  | blank => exact Nat.lt_succ_self _
  | piece h =>
      obtain ⟨c, cs, rfl⟩ := List.exists_cons_of_ne_nil h.ne_nil
      obtain ⟨p, -, hread⟩ := ok_of_map_eq_ok h.read
      obtain ⟨-, rfl⟩ := Prod.mk.inj hread
      exact p.shorter

theorem Item.Leads.written {item : Item} (h : item.Leads d cs rest) :
    cs = written (item.marked d) ++ rest := by
  cases h with
  | blank => rfl
  | piece h => exact h.written

theorem Item.Leads.fits {item : Item} (h : item.Leads d cs rest) {x : Char × Role}
    (hx : x ∈ item.marked d) : x.2.Fits d.declared x.1 := by
  cases h with
  | blank hblank =>
      obtain rfl := List.mem_singleton.mp hx
      exact hblank
  | piece h => exact h.fits hx

/-- What is not finished is no piece. -/
theorem BreaksOff.stuck (h : BreaksOff d cs missing) : Stuck (Item.Leads d) cs := by
  obtain ⟨c, cs, rfl⟩ := List.exists_cons_of_ne_nil h.ne_nil
  intro item rest hleads
  cases hleads with
  | blank hblank => rw [h.not_blank] at hblank; cases hblank
  | piece hleads =>
      have hread := hleads.read
      rw [h.read] at hread
      cases hread

/-- The words of a row, the first of which has begun with `begun`, if it has begun at all.
White space ends a word, and a piece goes on with it. -/
def gather (d : Dialect) : Option (List Char) → List Item → List (List Char)
  | begun, [] => begun.toList
  | begun, .blank _ :: items => begun.toList ++ gather d none items
  | begun, .piece f :: items => gather d (some (begun.getD [] ++ kept (f.marked d))) items

/-- The words together are all that is kept. -/
theorem flatten_gather (begun : Option (List Char)) (items : List Item) :
    (gather d begun items).flatten = begun.getD [] ++ kept (items.flatMap (Item.marked d)) := by
  induction items generalizing begun with
  | nil => cases begun <;> simp [gather, kept]
  | cons item items ih =>
      rw [List.flatMap_cons, kept_append]
      cases item with
      | blank c =>
          rw [gather, List.flatten_append, ih, Item.marked, kept_cons_of_ne (by simp)]
          cases begun <;> simp [kept]
      | piece f => rw [gather, ih, Item.marked, Option.getD_some, List.append_assoc]

/-- The line is a row of white space and pieces, and then it ends, or a piece begins that
is not finished. -/
structure Reads (d : Dialect) (items : List Item) (cs last : List Char) : Prop where
  row : Row (Item.Leads d) items cs last
  ends : last = [] ∨ ∃ missing, BreaksOff d last missing

theorem exists_reads (d : Dialect) (cs : List Char) : ∃ items last, Reads d items cs last := by
  obtain ⟨items, last, hrow, hstuck⟩ := exists_row (Item.Leads d) Item.Leads.shorter cs
  refine ⟨items, last, hrow, ?_⟩
  cases last with
  | nil => exact .inl rfl
  | cons c last =>
      cases hblank : Text.isBlank c with
      | true => exact absurd (.blank hblank) (hstuck (.blank c) last)
      | false =>
          rcases leads_or_breaksOff hblank with ⟨f, rest, hpiece⟩ | hbreaks
          · exact absurd (.piece hpiece) (hstuck (.piece f) rest)
          · exact .inr hbreaks

theorem wordsAfter_form {f : Form} (h : f.Leads d cs rest) :
    wordsAfter d begun cs = wordsAfter d (some (begun.getD [] ++ kept (f.marked d))) rest := by
  obtain ⟨c, cs, rfl⟩ := List.exists_cons_of_ne_nil h.ne_nil
  exact wordsAfter_piece h.not_blank h.read

/-- The words of a line that is read to its end. -/
theorem wordsAfter_row {items : List Item} (h : Row (Item.Leads d) items cs last)
    (hlast : last = []) : wordsAfter d begun cs = .ok (gather d begun items) := by
  induction h generalizing begun with
  | nil =>
      subst hlast
      exact wordsAfter_nil
  | cons hitem _ ih =>
      cases hitem with
      | blank hblank =>
          rw [wordsAfter_blank hblank, ih hlast]
          rfl
      | piece hpiece => rw [wordsAfter_form hpiece, ih hlast, gather]

theorem wordsAfter_breaksOff {items : List Item} (h : Row (Item.Leads d) items cs last)
    (hlast : BreaksOff d last missing) : wordsAfter d begun cs = .error missing := by
  induction h generalizing begun with
  | nil =>
      obtain ⟨c, cs, rfl⟩ := List.exists_cons_of_ne_nil hlast.ne_nil
      exact wordsAfter_broken hlast.not_blank hlast.read
  | cons hitem _ ih =>
      cases hitem with
      | blank hblank =>
          rw [wordsAfter_blank hblank, ih hlast]
          rfl
      | piece hpiece => rw [wordsAfter_form hpiece, ih hlast]

namespace Reads

variable {items : List Item} {line : String}

theorem stuck (h : Reads d items cs last) : Stuck (Item.Leads d) last := by
  rcases h.ends with rfl | ⟨missing, hbreaks⟩
  · intro item rest hleads
    exact absurd hleads.shorter (Nat.not_lt_zero _)
  · exact hbreaks.stuck

theorem unique {items' : List Item} {last' : List Char} (h : Reads d items cs last)
    (h' : Reads d items' cs last') : items = items' ∧ last = last' :=
  h.row.unique (functional_leads d) h.stuck h'.row h'.stuck

/-- The line is what has been read of it, and what has not. -/
theorem written (h : Reads d items cs last) :
    cs = written (items.flatMap (Item.marked d)) ++ last :=
  h.row.eq_append Item.Leads.written

/-- Whatever is dropped of a line, there is a reason for it. -/
theorem fits (h : Reads d items cs last) {x : Char × Role}
    (hx : x ∈ items.flatMap (Item.marked d)) : x.2.Fits d.declared x.1 := by
  obtain ⟨item, hitem, hx⟩ := List.mem_flatMap.mp hx
  obtain ⟨cs, rest, hleads⟩ := h.row.exists_of_mem hitem
  exact hleads.fits hx

theorem words_cases (h : Reads d items line.toList last) :
    (last = [] ∧ words d line = .ok ((gather d none items).map String.ofList))
      ∨ ∃ missing, BreaksOff d last missing
        ∧ words d line
          = .error ⟨line, Text.byteLength line.toList - Text.byteLength missing + 1⟩ := by
  rcases h.ends with hend | ⟨missing, hbreaks⟩
  · refine .inl ⟨hend, ?_⟩
    simp only [words, wordsAfter_row h.row hend]
  · refine .inr ⟨missing, hbreaks, ?_⟩
    simp only [words, wordsAfter_breaksOff h.row hbreaks]

/-- A line that is read to its end has the words of its row. -/
theorem words_eq_ok_iff (h : Reads d items line.toList last) {args : List String} :
    words d line = .ok args ↔ last = [] ∧ args = (gather d none items).map String.ofList := by
  rcases h.words_cases with ⟨hend, hwords⟩ | ⟨missing, hbreaks, hwords⟩
  · rw [hwords]
    constructor
    · intro heq
      exact ⟨hend, (Except.ok.inj heq).symm⟩
    · rintro ⟨-, rfl⟩
      rfl
  · rw [hwords]
    constructor
    · intro heq
      cases heq
    · rintro ⟨rfl, -⟩
      exact absurd rfl hbreaks.ne_nil

/-- A line fails where a piece is not finished, and only there. -/
theorem words_eq_error_iff (h : Reads d items line.toList last) {fault : Fault} :
    words d line = .error fault ↔ ∃ missing, BreaksOff d last missing
      ∧ fault = ⟨line, Text.byteLength line.toList - Text.byteLength missing + 1⟩ := by
  rcases h.words_cases with ⟨rfl, hwords⟩ | ⟨missing, hbreaks, hwords⟩
  · rw [hwords]
    constructor
    · intro heq
      cases heq
    · rintro ⟨missing, hbreaks, -⟩
      exact absurd rfl hbreaks.ne_nil
  · rw [hwords]
    constructor
    · intro heq
      exact ⟨missing, hbreaks, (Except.error.inj heq).symm⟩
    · rintro ⟨other, hother, rfl⟩
      rw [hother.unique hbreaks]

/-- Of the characters of a line, the words together hold those that are kept, in
their order. -/
theorem toList_words {args : List String} (h : Reads d items line.toList last)
    (hwords : words d line = .ok args) :
    args.flatMap String.toList = kept (items.flatMap (Item.marked d)) := by
  obtain ⟨-, rfl⟩ := h.words_eq_ok_iff.mp hwords
  have hflatten : (gather d none items).flatten = kept (items.flatMap (Item.marked d)) :=
    flatten_gather none items
  rw [← hflatten, List.flatten_eq_flatMap, List.flatMap_map]
  simp only [String.toList_ofList]
  rfl

end Reads

end Manifest.Command
