import Mathlib.Logic.Relation
import Manifest.Proofs.Command.Reading
/-!
# Splitting a line comes to an end

`words` takes white space and pieces one by one, each of which leaves less of the line, so
that it says nothing of how a splitter gets through a line. Here the splitter is three
loops within each other (`step`): over the words of the line, over the pieces of a word,
and over the parts of a text in double quotes. Nothing makes them take something off the
line each time. A run of plain text may turn out empty, which is a fault of its own, and
between words only four of the blank characters are skipped.

Where the blanks outside of pieces are among these four, the loops end with what `words`
says; at any other they stay for ever (`State.ends_iff`, `State.result_of_ended`). No run
of plain text is ever empty (`State.Runs.ne_emptyRun`), as the loops look at a character
before they take it for plain.
-/

namespace Manifest.Command

open Relation (ReflTransGen)

variable {d : Dialect} {begun : Option (List Char)} {c : Char}
variable {done : List (List Char)} {cs word inside rest last missing : List Char}

/-! ## The loops -/

/-- The white space that is skipped between words. There is more of it in Unicode. -/
def isSeparator (c : Char) : Bool := c = ' ' || c = '\t' || c = '\r' || c = '\n'

/-- How the loops may end. -/
inductive Outcome where
  | words (ws : List (List Char))
  | unfinished (missing : List Char)
  | emptyRun (missing : List Char)
deriving DecidableEq, Repr

/-- What is said of the line in the end. A fault is at the text that was left. -/
def Outcome.result (line : String) : Outcome → Except Fault (List String)
  | .words ws => .ok (ws.map String.ofList)
  | .unfinished missing => .error (column line missing)
  | .emptyRun missing => .error (column line missing)
where
  column (line : String) (missing : List Char) : Fault :=
    ⟨line, Text.byteLength line.toList - Text.byteLength missing + 1⟩

/-- What reading says, if these words are done before. -/
def Outcome.of (done : List (List Char)) : Except Unfinished (List (List Char)) → Outcome
  | .ok ws => .words (done ++ ws)
  | .error missing => .unfinished missing

theorem Outcome.of_map (done ws : List (List Char)) (x : Except Unfinished (List (List Char))) :
    of done (x.map (ws ++ ·)) = of (done ++ ws) x := by
  cases x with
  | error => rfl
  | ok more => exact congrArg Outcome.words (List.append_assoc ..).symm

theorem Outcome.result_of (d : Dialect) (line : String) :
    (of [] (wordsAfter d none line.toList)).result line = Command.words d line := by
  simp only [Command.words]
  cases wordsAfter d none line.toList <;> rfl

/-- Where the loops are: at a word, at a piece of a word, at a part of a text in double
quotes, or at their end. -/
inductive State where
  | between (done : List (List Char)) (rest : List Char)
  | inWord (done : List (List Char)) (word rest : List Char)
  | inQuotes (done : List (List Char)) (word inside rest : List Char)
  | ended (o : Outcome)
deriving DecidableEq, Repr

namespace State

/-- Blanks in front of the first word are skipped. -/
def start (cs : List Char) : State := .between [] (cs.dropWhile isSeparator)

/-- A loop goes on with the text that was read and the rest, or all of them end. -/
def goOn (next : List Char → List Char → State) :
    Except Outcome (List Char × List Char) → State
  | .ok (text, rest) => next text rest
  | .error o => .ended o

/-- What reading gives, or the fault of a text that is not finished. -/
def attempt (x : Except Unfinished (Piece cs)) : Except Outcome (List Char × List Char) :=
  (x.map Piece.read).mapError .unfinished

/-- An expression up to its closing delimiter. -/
def untilClosing (d : Delimiters) (body : List Char) : Except Outcome (List Char × List Char) :=
  match d.closing? body with
  | some (inside, rest) => .ok (d.enclose inside, rest)
  | none => .error (.unfinished body)

/-- Plain text, which must not be empty. -/
def plainRun (d : Delimiters) (stop : Char → Bool) (cs : List Char) :
    Except Outcome (List Char × List Char) :=
  match plain d stop cs with
  | ([], rest) => .error (.emptyRun rest)
  | (c :: text, rest) => .ok (c :: text, rest)

/-- A piece of a word. -/
def stepWord (d : Dialect) (done : List (List Char)) (word : List Char) (c : Char)
    (cs : List Char) : State :=
  let next := fun text rest => State.inWord done (word ++ text) rest
  match Text.dropStart? d.delimiters.opening.toList (c :: cs) with
  | some body => goOn next (untilClosing d.delimiters body)
  | none =>
    if c = '\'' then goOn next (attempt (singleQuoted (c := c) cs))
    else if c = '"' then .inQuotes done word [] cs
    else if c = '\\' then goOn next (attempt (escaped (c := c) cs))
    else if c = '$' then goOn next (.ok (dollar (c := c) d.declared cs).read)
    else goOn next (plainRun d.delimiters stopsWord (c :: cs))

/-- A part of a text in double quotes. -/
def stepQuotes (d : Dialect) (done : List (List Char)) (word inside : List Char) (c : Char)
    (cs : List Char) : State :=
  let next := fun text rest => State.inQuotes done word (inside ++ text) rest
  match Text.dropStart? d.delimiters.opening.toList (c :: cs) with
  | some body => goOn next (untilClosing d.delimiters body)
  | none =>
    if c = '\\' then goOn next (attempt (escapedInQuotes (c := c) cs))
    else if c = '$' then goOn next (.ok (dollar (c := c) d.declared cs).read)
    else goOn next (plainRun d.delimiters stopsQuoted (c :: cs))

/-- One round of the loop that is at hand. -/
def step (d : Dialect) : State → Option State
  | .between done [] => some (.ended (.words done))
  | .between done (c :: cs) => some (.inWord done [] (c :: cs))
  | .inWord done word [] => some (.between (done ++ [word]) [])
  | .inWord done word (c :: cs) =>
    if Text.isBlank c then some (.between (done ++ [word]) ((c :: cs).dropWhile isSeparator))
    else some (stepWord d done word c cs)
  | .inQuotes _ _ _ [] => some (.ended (.unfinished []))
  | .inQuotes done word inside (c :: cs) =>
    if c = '"' then some (.inWord done (word ++ inside) cs)
    else some (stepQuotes d done word inside c cs)
  | .ended _ => none

/-- Some rounds of the loops. -/
def Runs (d : Dialect) : State → State → Prop :=
  ReflTransGen fun s s' => s.step d = some s'

theorem Runs.round {s s' : State} (h : s.step d = some s') : Runs d s s' :=
  ReflTransGen.single h

theorem Runs.trans {s s' s'' : State} (h : Runs d s s') (h' : Runs d s' s'') : Runs d s s'' :=
  ReflTransGen.trans h h'

/-! ## What a round reads -/

theorem untilClosing_eq {body : List Char} (hopen : d.delimiters.afterOpening? cs = some body) :
    untilClosing d.delimiters body = attempt (expression d.delimiters hopen) := by
  cases hclose : d.delimiters.closing? body with
  | some found =>
      rw [untilClosing, hclose, attempt, (read_expression_iff hopen).mpr ⟨found.1, hclose, rfl⟩]
      rfl
  | none =>
      rw [untilClosing, hclose, expression_of_unclosed hopen hclose]
      rfl

/-- Plain text is not empty where nothing else comes first. -/
theorem plainRun_eq {stop : Char → Bool} (hstop : stop c = false)
    (hopen : d.delimiters.afterOpening? (c :: cs) = none) :
    plainRun d.delimiters stop (c :: cs) = attempt (.ok (run (c := c) d.delimiters stop cs)) := by
  have hplain : plain d.delimiters stop (c :: cs)
      = (c :: (plain d.delimiters stop cs).1, (plain d.delimiters stop cs).2) := by
    rw [plain, hstop, hopen]
    rfl
  rw [plainRun, hplain]
  rfl

/-- What reading gives is no empty run. -/
theorem goOn_attempt_ne {next : List Char → List Char → State}
    (hnext : ∀ text rest, next text rest ≠ .ended (.emptyRun missing))
    (x : Except Unfinished (Piece cs)) : goOn next (attempt x) ≠ .ended (.emptyRun missing) := by
  cases x with
  | error => simp [attempt, goOn, Except.map, Except.mapError]
  | ok p => exact hnext _ _

section

variable (hopening : d.delimiters.opening ≠ "")
include hopening

theorem dropStart?_opening (cs : List Char) :
    Text.dropStart? d.delimiters.opening.toList cs = d.delimiters.afterOpening? cs := by
  rw [Delimiters.afterOpening?, if_neg (by simpa using hopening)]

/-- A round in double quotes takes a part. -/
theorem stepQuotes_eq (hquote : c ≠ '"') :
    stepQuotes d done word inside c cs
      = goOn (fun text rest => .inQuotes done word (inside ++ text) rest)
          (attempt (quotedPart d c cs)) := by
  rw [stepQuotes, dropStart?_opening hopening]
  cases hopen : d.delimiters.afterOpening? (c :: cs) with
  | some body => rw [quotedPart_of_opened hopen, ← untilClosing_eq hopen]
  | none =>
      rw [quotedPart_of_unopened hopen]
      by_cases hbackslash : c = '\\'
      · simp only [if_pos hbackslash]
      · by_cases hdollar : c = '$'
        · simp only [if_neg hbackslash, if_pos hdollar]
          rfl
        · have hstop : stopsQuoted c = false := by simp [stopsQuoted, hquote, hbackslash, hdollar]
          simp only [if_neg hbackslash, if_neg hdollar, plainRun_eq hstop hopen]

/-- A round in a word takes a piece, or it enters a text in double quotes. -/
theorem stepWord_cases (done : List (List Char)) (word cs : List Char)
    (hblank : Text.isBlank c = false) :
    stepWord d done word c cs
        = goOn (fun text rest => .inWord done (word ++ text) rest) (attempt (piece d c cs))
      ∨ c = '"' ∧ d.delimiters.afterOpening? (c :: cs) = none
        ∧ stepWord d done word c cs = .inQuotes done word [] cs := by
  rw [stepWord, dropStart?_opening hopening]
  cases hopen : d.delimiters.afterOpening? (c :: cs) with
  | some body => exact .inl (by rw [piece_of_opened hopen, ← untilClosing_eq hopen])
  | none =>
      rw [piece_of_unopened hopen]
      by_cases hsingle : c = '\''
      · exact .inl (by simp only [if_pos hsingle])
      · by_cases hdouble : c = '"'
        · exact .inr ⟨hdouble, rfl, by simp only [if_neg hsingle, if_pos hdouble]⟩
        · refine .inl ?_
          by_cases hbackslash : c = '\\'
          · simp only [if_neg hsingle, if_neg hdouble, if_pos hbackslash]
          · by_cases hdollar : c = '$'
            · simp only [if_neg hsingle, if_neg hdouble, if_neg hbackslash, if_pos hdollar]
              rfl
            · have hstop : stopsWord c = false := by
                simp [stopsWord, stopsQuoted, hblank, hsingle, hdouble, hbackslash, hdollar]
              simp only [if_neg hsingle, if_neg hdouble, if_neg hbackslash, if_neg hdollar,
                plainRun_eq hstop hopen]

/-! ## What the loops read -/

/-- The innermost loop reads a text in double quotes to its end. The induction is on what
is left of the line, of which each part takes something. -/
theorem runs_inQuotes (done : List (List Char)) (word inside cs : List Char) :
    Runs d (.inQuotes done word inside cs)
      (goOn (fun text rest => .inWord done (word ++ (inside ++ text)) rest)
        (attempt (quotedRest d cs))) := by
  match cs with
  | [] =>
      rw [quotedRest]
      exact .round rfl
  | c :: rest =>
      by_cases hquote : c = '"'
      · rw [quotedRest, if_pos hquote]
        refine .round ?_
        rw [step, if_pos hquote]
        simp [attempt, goOn, Piece.read, Except.map, Except.mapError]
      · have hround : (State.inQuotes done word inside (c :: rest)).step d
            = some (goOn (fun text rest => .inQuotes done word (inside ++ text) rest)
                (attempt (quotedPart d c rest))) := by
          rw [step, if_neg hquote, stepQuotes_eq hopening hquote]
        rw [quotedRest, if_neg hquote]
        cases hpart : quotedPart d c rest with
        | error missing =>
            rw [hpart] at hround
            exact .round hround
        | ok p =>
            rw [hpart] at hround
            have hrest := runs_inQuotes done word (inside ++ p.text) p.rest
            refine (Runs.round hround).trans (hrest.trans ?_)
            show Runs d _ (goOn _ (attempt ((quotedRest d p.rest).map p.append)))
            cases quotedRest d p.rest with
            | error missing => exact .refl
            | ok q =>
                show Runs d _ (.inWord done (word ++ (inside ++ (p.text ++ q.text))) q.rest)
                rw [← List.append_assoc inside]
                exact .refl
termination_by cs.length
decreasing_by exact p.shorter

/-- The loop over a word reads a piece. -/
theorem runs_inWord (hblank : Text.isBlank c = false) :
    Runs d (.inWord done word (c :: cs))
      (goOn (fun text rest => .inWord done (word ++ text) rest) (attempt (piece d c cs))) := by
  have hround : (State.inWord done word (c :: cs)).step d = some (stepWord d done word c cs) := by
    rw [step, hblank, if_neg Bool.false_ne_true]
  rcases stepWord_cases hopening done word cs hblank with hpiece | ⟨rfl, hopen, hquotes⟩
  · rw [hpiece] at hround
    exact .round hround
  · have hinside := runs_inQuotes hopening done word [] cs
    rw [piece_of_unopened hopen, if_neg (by decide), if_pos rfl, doubleQuoted]
    rw [hquotes] at hround
    refine (Runs.round hround).trans (hinside.trans ?_)
    cases quotedRest d cs <;> exact .refl

end

/-! ## Whole lines -/

/-- The loops are at `cs`, in a word that has begun with `begun` or between words. -/
def reached (done : List (List Char)) (begun : Option (List Char)) (cs : List Char) : State :=
  match begun with
  | none => .between done (cs.dropWhile isSeparator)
  | some word => .inWord done word cs

theorem isSeparator_of_not_blank (h : Text.isBlank c = false) : isSeparator c = false := by
  by_contra hsep
  simp only [Bool.not_eq_false, isSeparator, Bool.or_eq_true, decide_eq_true_eq] at hsep
  rcases hsep with ((rfl | rfl) | rfl) | rfl <;> exact absurd h (by decide)

/-- A word begins where the line has no blank, if none has begun. -/
theorem runs_reached (hblank : Text.isBlank c = false) :
    Runs d (reached done begun (c :: cs)) (.inWord done (begun.getD []) (c :: cs)) := by
  cases begun with
  | none =>
      rw [reached, List.dropWhile_cons_of_neg (by simp [isSeparator_of_not_blank hblank])]
      exact .round rfl
  | some word => exact .refl

/-- A blank that is skipped ends a word. -/
theorem runs_blank (hblank : Text.isBlank c = true) (hsep : isSeparator c = true) :
    Runs d (reached done begun (c :: cs)) (reached (done ++ begun.toList) none cs) := by
  have hskip : (c :: cs).dropWhile isSeparator = cs.dropWhile isSeparator :=
    List.dropWhile_cons_of_pos hsep
  cases begun with
  | none =>
      rw [reached, hskip, Option.toList_none, List.append_nil]
      exact .refl
  | some word =>
      refine .round ?_
      show (State.inWord done word (c :: cs)).step d = some (.between (done ++ [word]) _)
      rw [step, if_pos hblank, hskip]

section

variable (hopening : d.delimiters.opening ≠ "")
include hopening

/-- The loops read a piece, or fail at it. -/
theorem runs_piece (done : List (List Char)) (begun : Option (List Char)) (cs : List Char)
    (hblank : Text.isBlank c = false) :
    Runs d (reached done begun (c :: cs))
      (goOn (fun text rest => reached done (some (begun.getD [] ++ text)) rest)
        (attempt (piece d c cs))) :=
  (runs_reached hblank).trans (runs_inWord hopening hblank)

theorem runs_form {f : Form} (h : f.Leads d cs rest) :
    Runs d (reached done begun cs)
      (reached done (some (begun.getD [] ++ kept (f.marked d))) rest) := by
  obtain ⟨c, cs, rfl⟩ := List.exists_cons_of_ne_nil h.ne_nil
  have hpiece := runs_piece hopening done begun cs h.not_blank
  rwa [attempt, h.read] at hpiece

theorem runs_breaksOff (h : BreaksOff d cs missing) :
    Runs d (reached done begun cs) (.ended (.unfinished missing)) := by
  obtain ⟨c, cs, rfl⟩ := List.exists_cons_of_ne_nil h.ne_nil
  have hpiece := runs_piece hopening done begun cs h.not_blank
  rwa [attempt, h.read] at hpiece

/-- The loops go through a row to its end. -/
theorem runs_row (done : List (List Char)) (begun : Option (List Char)) {items : List Item}
    (h : Row (Item.Leads d) items cs last)
    (hlast : last = [] ∨ ∃ missing, BreaksOff d last missing)
    (hblank : ∀ c, Item.blank c ∈ items → isSeparator c = true) :
    Runs d (reached done begun cs) (.ended (.of done (wordsAfter d begun cs))) := by
  induction h generalizing done begun with
  | nil cs =>
      rcases hlast with rfl | ⟨missing, hbreaks⟩
      · rw [wordsAfter_nil]
        cases begun with
        | none =>
            rw [Option.toList_none, Outcome.of, List.append_nil]
            exact .round rfl
        | some word => exact (Runs.round rfl).trans (.round rfl)
      · rw [wordsAfter_breaksOff (.nil _) hbreaks]
        exact runs_breaksOff hopening hbreaks
  | @cons item items cs mid last hitem _ ih =>
      have hmore : ∀ c, Item.blank c ∈ items → isSeparator c = true :=
        fun c hc => hblank c (List.mem_cons_of_mem _ hc)
      cases hitem with
      | @blank c _ hc =>
          have hsep : isSeparator c = true := hblank c (List.mem_cons_self ..)
          rw [wordsAfter_blank hc, Outcome.of_map]
          exact (runs_blank hc hsep).trans (ih _ _ hlast hmore)
      | piece hpiece =>
          rw [wordsAfter_form hpiece]
          exact (runs_form hopening hpiece).trans (ih _ _ hlast hmore)

/-- No round finds a run of plain text empty. -/
theorem step_ne_emptyRun {s s' : State} (h : s.step d = some s') :
    s' ≠ .ended (.emptyRun missing) := by
  cases s with
  | between done rest => cases rest <;> (obtain rfl := Option.some.inj h; simp)
  | inWord done word rest =>
      cases rest with
      | nil =>
          obtain rfl := Option.some.inj h
          simp
      | cons c rest =>
          rw [step] at h
          split at h
          · obtain rfl := Option.some.inj h
            simp
          · next hblank =>
              obtain rfl := Option.some.inj h
              rw [Bool.not_eq_true] at hblank
              rcases stepWord_cases hopening done word rest hblank with hpiece | ⟨-, -, hquotes⟩
              · rw [hpiece]
                exact goOn_attempt_ne (by simp) _
              · rw [hquotes]
                simp
  | inQuotes done word inside rest =>
      cases rest with
      | nil =>
          obtain rfl := Option.some.inj h
          simp
      | cons c rest =>
          rw [step] at h
          split at h
          · obtain rfl := Option.some.inj h
            simp
          · next hquote =>
              obtain rfl := Option.some.inj h
              rw [stepQuotes_eq hopening hquote]
              exact goOn_attempt_ne (by simp) _
  | ended o => cases h

theorem Runs.ne_emptyRun (cs : List Char) :
    ¬ Runs d (start cs) (.ended (.emptyRun missing)) := by
  intro h
  rcases ReflTransGen.cases_tail h with heq | ⟨s, -, hstep⟩
  · cases heq
  · exact step_ne_emptyRun hopening hstep rfl

end

/-- There is one way to go on, so that all runs are parts of one. -/
theorem Runs.of_ended {s s' : State} {o : Outcome} (hended : Runs d s (.ended o))
    (h : Runs d s s') : Runs d s' (.ended o) := by
  have hunique : Relator.RightUnique fun s s' : State => s.step d = some s' :=
    fun _ _ _ h h' => Option.some.inj (h.symm.trans h')
  rcases ReflTransGen.total_of_right_unique hunique h hended with h | h
  · exact h
  · rcases ReflTransGen.cases_head h with rfl | ⟨next, hstep, -⟩
    · exact .refl
    · cases hstep

/-! ## Blanks that are not skipped -/

/-- The loops are at a blank, having begun a word or not. -/
def AtBlank (c : Char) (cs : List Char) (s : State) : Prop :=
  ∃ done, s = .between done (c :: cs) ∨ s = .inWord done [] (c :: cs)

/-- At a blank that is not skipped, empty words are read for ever. -/
theorem AtBlank.runs {s s' : State} (hblank : Text.isBlank c = true) (hsep : isSeparator c = false)
    (h : AtBlank c cs s) (hruns : Runs d s s') : AtBlank c cs s' := by
  induction hruns with
  | refl => exact h
  | tail _ hstep ih =>
      obtain ⟨done, rfl | rfl⟩ := ih
      · obtain rfl := Option.some.inj hstep
        exact ⟨done, .inr rfl⟩
      · rw [step, if_pos hblank, List.dropWhile_cons_of_neg (by simp [hsep])] at hstep
        obtain rfl := Option.some.inj hstep
        exact ⟨_, .inl rfl⟩

/-- The loops come to the first blank of a row that is not skipped. -/
theorem exists_atBlank (hopening : d.delimiters.opening ≠ "") (done : List (List Char))
    (begun : Option (List Char)) {items : List Item} (h : Row (Item.Leads d) items cs last)
    (hc : Item.blank c ∈ items) (hsep : isSeparator c = false) :
    ∃ e rest s, Text.isBlank e = true ∧ isSeparator e = false ∧ AtBlank e rest s
      ∧ Runs d (reached done begun cs) s := by
  induction h generalizing done begun with
  | nil => cases hc
  | @cons item items cs mid last hitem _ ih =>
      cases hitem with
      | @blank e _ hblank =>
          cases hskip : isSeparator e with
          | true =>
              have hmore : Item.blank c ∈ items := by
                rcases List.mem_cons.mp hc with heq | hmore
                · obtain rfl := Item.blank.inj heq
                  rw [hsep] at hskip
                  cases hskip
                · exact hmore
              obtain ⟨e', rest, s, hblank', hskip', hat, hruns⟩ :=
                ih (done ++ begun.toList) none hmore
              exact ⟨e', rest, s, hblank', hskip', hat, (runs_blank hblank hskip).trans hruns⟩
          | false =>
              have hkeep : (e :: mid).dropWhile isSeparator = e :: mid :=
                List.dropWhile_cons_of_neg (by simp [hskip])
              cases begun with
              | none =>
                  refine ⟨e, mid, _, hblank, hskip, ⟨done, .inl rfl⟩, ?_⟩
                  rw [reached, hkeep]
                  exact .refl
              | some word =>
                  refine ⟨e, mid, _, hblank, hskip, ⟨done ++ [word], .inl rfl⟩, .round ?_⟩
                  show (State.inWord done word (e :: mid)).step d = _
                  rw [step, if_pos hblank, hkeep]
      | @piece f _ _ hpiece =>
          have hmore : Item.blank c ∈ items := by
            rcases List.mem_cons.mp hc with heq | hmore
            · cases heq
            · exact hmore
          obtain ⟨e, rest, s, hblank, hskip, hat, hruns⟩ :=
            ih done (some (begun.getD [] ++ kept (f.marked d))) hmore
          exact ⟨e, rest, s, hblank, hskip, hat, (runs_form hopening hpiece).trans hruns⟩

/-- The loops come to their end exactly where all blanks outside of pieces are skipped. -/
theorem ends_iff (hopening : d.delimiters.opening ≠ "") {items : List Item}
    (h : Reads d items cs last) :
    (∃ o, Runs d (start cs) (.ended o)) ↔ ∀ c, Item.blank c ∈ items → isSeparator c = true := by
  constructor
  · rintro ⟨o, hended⟩ c hc
    by_contra hsep
    rw [Bool.not_eq_true] at hsep
    obtain ⟨e, rest, s, hblank, hskip, hat, hruns⟩ :=
      exists_atBlank hopening [] none h.row hc hsep
    obtain ⟨done, heq | heq⟩ := hat.runs hblank hskip (hended.of_ended hruns) <;> cases heq
  · intro hblank
    exact ⟨_, runs_row hopening [] none h.row h.ends hblank⟩

/-- Where they do, they end with what `words` says. -/
theorem result_of_ended (hopening : d.delimiters.opening ≠ "") {line : String}
    {items : List Item} (h : Reads d items line.toList last) {o : Outcome}
    (hended : Runs d (start line.toList) (.ended o)) : o.result line = words d line := by
  have hblank := (ends_iff hopening h).mp ⟨o, hended⟩
  have hruns := runs_row hopening [] none h.row h.ends hblank
  rcases ReflTransGen.cases_head (hended.of_ended hruns) with heq | ⟨next, hstep, -⟩
  · rw [← State.ended.inj heq]
    exact Outcome.result_of d line
  · cases hstep

end State

/-- A line is read in one way as white space and pieces, up to its end or to a piece that
is not finished. The loops over it end exactly where they skip all white space of that
row, and then with what `words` says; they never meet an empty run of plain text. Splitting
fails for a piece that is not finished, and for nothing else. Otherwise the words hold
all characters of the line in their order, but for those there is a reason to drop: white
space, quote marks, backslashes that escape, and braces around a declared variable. -/
theorem loops_split (d : Dialect) (line : String) (hopening : d.delimiters.opening ≠ "") :
    ∃ items last, Reads d items line.toList last
      ∧ (∀ items' last', Reads d items' line.toList last' → items' = items ∧ last' = last)
      ∧ ((∃ o, State.Runs d (.start line.toList) (.ended o))
          ↔ ∀ c, Item.blank c ∈ items → isSeparator c = true)
      ∧ (∀ o, State.Runs d (.start line.toList) (.ended o) → o.result line = words d line)
      ∧ (∀ missing, ¬ State.Runs d (.start line.toList) (.ended (.emptyRun missing)))
      ∧ (∀ fault, words d line = .error fault ↔ ∃ missing, BreaksOff d last missing
          ∧ fault = ⟨line, Text.byteLength line.toList - Text.byteLength missing + 1⟩)
      ∧ ∀ args, words d line = .ok args →
          args = (gather d none items).map String.ofList
            ∧ line.toList = written (items.flatMap (Item.marked d))
            ∧ args.flatMap String.toList = kept (items.flatMap (Item.marked d))
            ∧ ∀ x ∈ items.flatMap (Item.marked d), x.2.Fits d.declared x.1 := by
  obtain ⟨items, last, hreads⟩ := exists_reads d line.toList
  refine ⟨items, last, hreads, fun items' last' h' => h'.unique hreads,
    State.ends_iff hopening hreads, fun o => State.result_of_ended hopening hreads,
    fun missing => State.Runs.ne_emptyRun hopening line.toList,
    fun fault => hreads.words_eq_error_iff, fun args hwords => ?_⟩
  obtain ⟨rfl, hargs⟩ := hreads.words_eq_ok_iff.mp hwords
  have hwritten := hreads.written
  rw [List.append_nil] at hwritten
  exact ⟨hargs, hwritten, hreads.toList_words hwords, fun x hx => hreads.fits hx⟩

/-- A variable that is declared, and then a text that is not finished. -/
def openLine : String := "$\x7bA\x7d 'b c"

theorem reads_openLine : Reads ⟨{}, ["A"]⟩
    [.piece (.part (.reference ['A'] ['{', 'A', '}'])), .blank ' '] openLine.toList
    ['\'', 'b', ' ', 'c'] where
  row := by
    have hname : IsName ['A'] := ⟨⟨'A', rfl, rfl⟩, List.forall_mem_singleton.mpr rfl⟩
    have hline : openLine.toList = ['$', '{', 'A', '}', ' ', '\'', 'b', ' ', 'c'] := by decide
    rw [hline]
    refine .cons (.piece (.part ?_ (.bare ?_ (.reference hname (.braced _) rfl))))
      (.cons (.blank rfl) (.nil _))
    · rintro c ⟨⟩
      rfl
    · decide
  ends := .inr ⟨[], .single (by decide) (by decide)⟩

/-- The blank between the two is skipped, and the fault is behind the line. -/
theorem loops_split_openLine :
    ({} : Delimiters).opening ≠ ""
      ∧ (∃ o, State.Runs ⟨{}, ["A"]⟩ (.start openLine.toList) (.ended o))
      ∧ words ⟨{}, ["A"]⟩ openLine = .error ⟨openLine, 10⟩ := by
  have hopening : ({} : Delimiters).opening ≠ "" := by decide
  obtain ⟨items, last, -, hunique, hends, -, -, hfails, -⟩ :=
    loops_split ⟨{}, ["A"]⟩ openLine hopening
  obtain ⟨rfl, rfl⟩ := hunique _ _ reads_openLine
  refine ⟨hopening, hends.mpr ?_, (hfails _).mpr ⟨[], .single (by decide) (by decide), rfl⟩⟩
  intro c hc
  obtain rfl : c = ' ' := by simpa using hc
  rfl

end Manifest.Command
