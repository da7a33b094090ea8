import Mathlib.Data.List.Dedup
import Mathlib.Logic.Relation
import Manifest.Proofs.Interpolation.Step
/-!
# Rendering comes to an end

`Scope.evaluate` carries fuel, and by itself says nothing of how deep
evaluations go. Here rendering is a machine that has none: it goes through the
segments of a text one by one, with a stack of the evaluations that wait for
the text at their path, and with the set of the names in progress. These are
the names on the stack after each of its moves, without repetition, and all but
the first of them are written in the context (`Ordered.step`). So the stack gets
hardly deeper than the context has names, and the machine ends with what
`Scope.render` says (`render_terminates`).
-/

namespace Manifest.Interpolation

open Relation (ReflTransGen)
open Template (Expression Segment expressions written)

variable {s : Scope} {e : Expression} {memo : Memo}

/-! ## The machine -/

/-- Two texts in a row. -/
def Rendering.append (r r' : Rendering) : Rendering :=
  ⟨r.text ++ r'.text, r.faults ++ r'.faults⟩

/-- On the way through the segments of a text. -/
structure Loop where
  done : Rendering := ⟨"", []⟩
  rest : List Segment := []

/-- The way through a text begins. A text that is no template is done at
once. -/
def Loop.start (d : Delimiters) (text : String) : Loop :=
  match Template.read d text with
  | .error fault => { done := ⟨text, [(text, .malformed fault)]⟩ }
  | .ok segments => { rest := segments }

/-- What the machine does: it is on its way through a text, or an expression of
the text is evaluated, or has been. -/
inductive Control where
  | loop (l : Loop)
  | call (e : Expression) (l : Loop)
  | back (e : Expression) (outcome : Except Fault String) (l : Loop)

/-- An evaluation that waits for the text at its path, and the way through a
text that it was called on. -/
structure Frame where
  e : Expression
  caller : Loop

def Frame.name (f : Frame) : String := f.e.dotted

/-- All that rendering has at hand. The evaluation that was called last is on top
of the stack. -/
structure Machine where
  control : Control
  stack : List Frame
  memo : Memo
  inProgress : List String

namespace Machine

def start (d : Delimiters) (text : String) (memo : Memo) : Machine where
  control := .loop (.start d text)
  stack := []
  memo := memo
  inProgress := []

/-- An expression is evaluated: at once, or by going through the text at its
path. -/
def enter (s : Scope) (e : Expression) (l : Loop) (m : Machine) : Machine :=
  let name := e.dotted
  match m.memo.lookup name with
  | some known => { m with control := .back e known l }
  | none =>
    if m.inProgress.contains name then
      { m with control := .back e (.error (.circular name)) l }
    else
      match s.context.lookup? e.path with
      | none =>
        let outcome :=
          if s.passesThrough e then .ok (String.ofList e.raw) else .error (.missing name)
        { m with control := .back e outcome l }
      | some value =>
        match s.template? value with
        | none =>
          let outcome := plainValue name value
          { m with control := .back e outcome l, memo := (name, outcome) :: m.memo }
        | some text =>
          { m with
            control := .loop (.start s.delimiters text)
            stack := ⟨e, l⟩ :: m.stack
            inProgress := m.inProgress.insert name }

/-- One move of the machine, if it has not come to its end. -/
def step (s : Scope) (m : Machine) : Option Machine :=
  match m.control with
  | .loop ⟨done, .text cs :: rest⟩ =>
    some { m with control := .loop ⟨done.append ⟨String.ofList cs, []⟩, rest⟩ }
  | .loop ⟨done, .expression e :: rest⟩ => some { m with control := .call e ⟨done, rest⟩ }
  | .loop ⟨done, []⟩ =>
    match m.stack with
    | [] => none
    | f :: below =>
      let outcome := done.settle f.name
      some {
        control := .back f.e outcome f.caller
        stack := below
        memo := (f.name, outcome) :: m.memo
        inProgress := m.inProgress.erase f.name }
  | .call e l => some (m.enter s e l)
  | .back e outcome l =>
    some { m with control := .loop ⟨l.done.append (.after e ⟨"", []⟩ outcome), l.rest⟩ }

/-- Some moves, each of them with `base` at the bottom of the stack. -/
def Runs (s : Scope) (base : List Frame) : Machine → Machine → Prop :=
  ReflTransGen fun m m' => base <:+ m.stack ∧ m.step s = some m'

/-- The number of evaluations that have begun and not ended. -/
def nesting (m : Machine) : Nat :=
  match m.control with
  | .loop _ => m.stack.length
  | .call _ _ => m.stack.length + 1
  | .back _ _ _ => m.stack.length + 1

end Machine

/-! ## The machine does what `evaluate` says -/

namespace Rendering

theorem append_assoc (r r' r'' : Rendering) :
    (r.append r').append r'' = r.append (r'.append r'') := by
  simp only [append, String.append_assoc, List.append_assoc]

theorem append_empty (r : Rendering) : r.append ⟨"", []⟩ = r := by
  simp only [append, String.append_empty, List.append_nil]

theorem empty_append (r : Rendering) : append ⟨"", []⟩ r = r := by
  simp only [append, String.empty_append, List.nil_append]

theorem after_append (e : Expression) (r r' : Rendering) (outcome : Except Fault String) :
    (r.after e outcome).append r' = (r.append r').after e outcome := by
  cases outcome <;> simp only [append, after, String.append_assoc, List.cons_append]

end Rendering

namespace Machine

variable {base stack : List Frame} {m m' m'' : Machine} {evaluate : Evaluate}

/-- A machine that has just the names on the stack in progress. -/
def on (stack : List Frame) (control : Control) (memo : Memo) : Machine :=
  ⟨control, stack, memo, stack.map Frame.name⟩

theorem Runs.trans (h : m.Runs s base m') (h' : m'.Runs s base m'') : m.Runs s base m'' :=
  ReflTransGen.trans h h'

theorem Runs.move {control : Control} (h : (on stack control memo).step s = some m') :
    (on stack control memo).Runs s stack m' :=
  ReflTransGen.single ⟨List.suffix_rfl, h⟩

theorem Runs.mono {base' : List Frame} (h : m.Runs s base m') (hbase : base' <:+ base) :
    m.Runs s base' m' :=
  ReflTransGen.mono (fun _ _ hmove => ⟨hbase.trans hmove.1, hmove.2⟩) _ _ h

/-- On this stack, evaluating the expression goes as `evaluate` says, and ends
where it began. -/
def Simulates (s : Scope) (stack : List Frame) (evaluate : Evaluate) (e : Expression) : Prop :=
  ∀ l memo, (on stack (.call e l) memo).Runs s stack
    (on stack (.back e ((evaluate e).run memo).1 l) ((evaluate e).run memo).2)

theorem runs_segments {segments : List Segment}
    (h : ∀ e ∈ expressions segments, Simulates s stack evaluate e) (done : Rendering)
    (memo : Memo) :
    (on stack (.loop ⟨done, segments⟩) memo).Runs s stack
      (on stack (.loop ⟨done.append ((renderSegments evaluate segments).run memo).1, []⟩)
        ((renderSegments evaluate segments).run memo).2) := by
  induction segments generalizing done memo with
  | nil =>
      show (on stack (.loop ⟨done, []⟩) memo).Runs s stack
        (on stack (.loop ⟨done.append ⟨"", []⟩, []⟩) memo)
      rw [Rendering.append_empty]
      exact .refl
  | cons segment rest ih =>
      cases segment with
      | text cs =>
          have hrest := ih h (done.append ⟨String.ofList cs, []⟩) memo
          rw [Rendering.append_assoc] at hrest
          rw [renderSegments_text]
          exact (Runs.move rfl).trans hrest
      | expression e =>
          have hcall := h e (List.mem_cons_self ..) ⟨done, rest⟩ memo
          rw [renderSegments_expression]
          generalize (evaluate e).run memo = run at hcall ⊢
          have hrest := ih (fun e' he' => h e' (List.mem_cons_of_mem _ he'))
            (done.append (.after e ⟨"", []⟩ run.1)) run.2
          rw [Rendering.append_assoc, Rendering.after_append, Rendering.empty_append] at hrest
          exact (Runs.move rfl).trans (hcall.trans ((Runs.move rfl).trans hrest))

theorem runs_start {d : Delimiters} {text : String}
    (h : ∀ e ∈ written d text, Simulates s stack evaluate e) (memo : Memo) :
    (on stack (.loop (.start d text)) memo).Runs s stack
      (on stack (.loop ⟨((renderWith evaluate d text).run memo).1, []⟩)
        ((renderWith evaluate d text).run memo).2) := by
  unfold renderWith Loop.start
  cases hread : Template.read d text with
  | error fault => exact .refl
  | ok segments =>
      rw [Template.written_of_read hread] at h
      have hsegments := runs_segments h ⟨"", []⟩ memo
      rwa [Rendering.empty_append] at hsegments

/-- Where there is fuel for all names that can still come to be pending, the
machine goes as `evaluate` says. -/
theorem simulates_evaluate {first : String} {fuel : Nat}
    (hpending : Pending s first fuel (stack.map Frame.name)) (hname : e.dotted ∈ first :: s.names) :
    Simulates s stack (s.evaluate fuel (stack.map Frame.name)) e := by
  -- One fuel less goes with one name more, so that the hypothesis is about any stack.
  induction fuel generalizing stack e with
  | zero => exact absurd hpending.fuel_pos (Nat.lt_irrefl 0)
  | succ fuel ih =>
      intro l memo
      have hstep := step_evaluate s fuel (stack.map Frame.name) e memo
      generalize (s.evaluate (fuel + 1) (stack.map Frame.name) e).run memo = run at hstep ⊢
      have henter : (on stack (.call e l) memo).Runs s stack
          ((on stack (.call e l) memo).enter s e l) := .move rfl
      cases hstep with
      | known hknown =>
          simpa only [enter, on, hknown] using henter
      | circular hknown hagain =>
          simpa only [enter, on, hknown, List.contains_eq_mem, hagain, decide_true, if_true]
            using henter
      | raw hknown hagain hmissing hpass =>
          simpa [enter, on, hknown, hagain, hmissing, hpass] using henter
      | missing hknown hagain hmissing hpass =>
          simpa [enter, on, hknown, hagain, hmissing, hpass] using henter
      | plain hknown hagain hfound htemplate =>
          simpa [enter, on, hknown, hagain, hfound, htemplate] using henter
      | @template text r after hknown hagain hfound hrun htemplate =>
          have hbelow : stack <:+ ⟨e, l⟩ :: stack := List.suffix_cons ..
          have hpush : (on stack (.call e l) memo).enter s e l
              = on (⟨e, l⟩ :: stack) (.loop (.start s.delimiters text)) memo := by
            simp [enter, on, hknown, hagain, hfound, htemplate, Frame.name]
          have hinner : ∀ e' ∈ written s.delimiters text, Simulates s (⟨e, l⟩ :: stack)
              (s.evaluate fuel (e.dotted :: stack.map Frame.name)) e' :=
            fun e' hwritten => ih (hpending.push hagain hname)
              (List.mem_cons_of_mem _ (mem_names_of_lookup? hfound hwritten))
          have hloop := (runs_start hinner memo).mono hbelow
          have hpop : (on (⟨e, l⟩ :: stack) (.loop ⟨r, []⟩) after).step s
              = some (on stack (.back e (r.settle e.dotted) l)
                ((e.dotted, r.settle e.dotted) :: after)) := by
            simp [step, on, Frame.name]
          rw [hrun] at hloop
          rw [hpush] at henter
          exact henter.trans (hloop.trans ((Runs.move hpop).mono hbelow))

end Machine

/-! ## What holds at every moment -/

/-- The expressions that are evaluated or still to be on the way through the
text at hand. -/
def Control.expressions : Control → List Expression
  | .loop l => Template.expressions l.rest
  | .call e l => e :: Template.expressions l.rest
  | .back e _ l => e :: Template.expressions l.rest

/-- Within an evaluation, all expressions to be evaluated are written in the context. -/
def Nested (s : Scope) : List Frame → List Expression → Prop
  | [], _ => True
  | f :: below, es =>
    (∀ e ∈ es, e.dotted ∈ s.names) ∧ Nested s below (f.e :: expressions f.caller.rest)

theorem Nested.mono {stack : List Frame} {es es' : List Expression} (h : Nested s stack es)
    (hsubset : es' ⊆ es) : Nested s stack es' := by
  cases stack with
  | nil => trivial
  | cons f below => exact ⟨fun e he => h.1 e (hsubset he), h.2⟩

/-- All names on the stack but the first are written in the context. -/
theorem Nested.mem_names {stack : List Frame} {es : List Expression} (h : Nested s stack es) :
    ∀ name ∈ (stack.map Frame.name).dropLast, name ∈ s.names := by
  induction stack generalizing es with
  | nil => exact fun _ hname => absurd hname List.not_mem_nil
  | cons f below ih =>
      cases below with
      | nil => exact fun _ hname => absurd hname List.not_mem_nil
      | cons g below =>
          have hname : f.name ∈ s.names := h.2.1 f.e (List.mem_cons_self ..)
          exact List.forall_mem_cons.mpr ⟨hname, ih h.2⟩

theorem Nested.exists_first {stack : List Frame} {es : List Expression} (h : Nested s stack es)
    (he : e ∈ es) :
    ∃ first, (∀ name ∈ stack.map Frame.name, name ∈ first :: s.names)
      ∧ e.dotted ∈ first :: s.names := by
  induction stack generalizing e es with
  | nil => exact ⟨e.dotted, fun _ hname => absurd hname List.not_mem_nil, List.mem_cons_self ..⟩
  | cons f below ih =>
      obtain ⟨first, hbelow, hf⟩ := ih h.2 (List.mem_cons_self ..)
      exact ⟨first, List.forall_mem_cons.mpr ⟨hf, hbelow⟩, List.mem_cons_of_mem _ (h.1 e he)⟩

/-- The names in progress are those on the stack, none of them twice, and all
but the first of them come from the context. -/
structure Machine.Ordered (s : Scope) (m : Machine) : Prop where
  inProgress : m.inProgress = m.stack.map Frame.name
  nodup : m.inProgress.Nodup
  nested : Nested s m.stack m.control.expressions

namespace Machine

variable {base : List Frame} {m m' : Machine}

theorem Ordered.start (s : Scope) (text : String) (memo : Memo) :
    (start s.delimiters text memo).Ordered s where
  inProgress := rfl
  nodup := List.nodup_nil
  nested := trivial

/-- What is in progress stays so if only the way through the text at hand goes on. -/
theorem Ordered.proceed {control : Control} (h : m.Ordered s) (memo : Memo)
    (hcontrol : control.expressions ⊆ m.control.expressions) :
    Ordered s { m with control, memo } where
  inProgress := h.inProgress
  nodup := h.nodup
  nested := h.nested.mono hcontrol

theorem expressions_start (d : Delimiters) (text : String) :
    expressions (Loop.start d text).rest = written d text := by
  unfold Loop.start written
  cases Template.read d text <;> rfl

theorem Ordered.enter {l : Loop} (h : m.Ordered s) (hcontrol : m.control = .call e l) :
    (m.enter s e l).Ordered s := by
  have hback (outcome : Except Fault String) (memo : Memo) :
      Ordered s { m with control := .back e outcome l, memo } :=
    h.proceed memo (by rw [hcontrol]; exact List.Subset.refl _)
  unfold Machine.enter
  dsimp only
  split
  · exact hback _ _
  · split
    · exact hback _ _
    · next hnew =>
        split
        · exact hback _ _
        · next value hfound =>
            split
            · exact hback _ _
            · next text htemplate =>
                obtain ⟨rfl, -⟩ := template?_eq_some htemplate
                have hnew : e.dotted ∉ m.inProgress := by simpa using hnew
                have hnested := h.nested
                rw [hcontrol] at hnested
                constructor
                · rw [List.insert_of_not_mem hnew, h.inProgress]
                  rfl
                · rw [List.insert_of_not_mem hnew]
                  exact List.nodup_cons.mpr ⟨hnew, h.nodup⟩
                · refine ⟨fun e' he' => ?_, hnested⟩
                  rw [Control.expressions, expressions_start] at he'
                  exact mem_names_of_lookup? hfound he'

theorem Ordered.step (h : m.Ordered s) (hstep : m.step s = some m') : m'.Ordered s := by
  obtain ⟨control, stack, memo, inProgress⟩ := m
  cases control with
  | loop l =>
      obtain ⟨done, _ | ⟨cs | e, rest⟩⟩ := l
      · cases stack with
        | nil => cases hstep
        | cons f below =>
            -- The evaluation on top of the stack ends, and its name is the last in progress.
            obtain rfl := Option.some.inj hstep
            obtain ⟨hnames, hnodup, -, hbelow⟩ := h
            obtain rfl : inProgress = f.name :: below.map Frame.name := hnames
            constructor
            · exact List.erase_cons_head ..
            · exact hnodup.erase _
            · exact hbelow
      · obtain rfl := Option.some.inj hstep
        exact h.proceed memo (List.Subset.refl _)
      · obtain rfl := Option.some.inj hstep
        exact h.proceed memo (List.Subset.refl _)
  | call e l =>
      obtain rfl := Option.some.inj hstep
      exact h.enter rfl
  | back e outcome l =>
      obtain rfl := Option.some.inj hstep
      exact h.proceed memo (List.subset_cons_self ..)

theorem Ordered.runs (h : m.Ordered s) (hruns : m.Runs s base m') : m'.Ordered s := by
  induction hruns with
  | refl => exact h
  | tail _ hmove ih => exact ih.step hmove.2

theorem Ordered.mem_names (h : m.Ordered s) : ∀ name ∈ m.inProgress.dropLast, name ∈ s.names := by
  rw [h.inProgress]
  exact h.nested.mem_names

/-- Evaluations are nested no deeper than the context has names, but for the first
name, which may come from elsewhere, and for an evaluation of a name in
progress. -/
theorem Ordered.nesting_le (h : m.Ordered s) : m.nesting ≤ s.names.dedup.length + 2 := by
  have hdrop : m.inProgress.dropLast.length ≤ s.names.dedup.length :=
    List.Nodup.length_le_of_subset (h.nodup.sublist (List.dropLast_sublist _))
      fun name hname => List.mem_dedup.mpr (h.mem_names name hname)
  have hstack : m.inProgress.length = m.stack.length := by
    rw [h.inProgress, List.length_map]
  rw [List.length_dropLast] at hdrop
  have hnesting : m.nesting ≤ m.stack.length + 1 := by
    unfold nesting
    split <;> omega
  omega

/-- An evaluation ends, with what was in progress before it. -/
theorem Ordered.returns {l : Loop} (h : m.Ordered s) (hcontrol : m.control = .call e l) :
    ∃ outcome memo, m.Runs s m.stack { m with control := .back e outcome l, memo } := by
  obtain ⟨control, stack, memo, inProgress⟩ := m
  obtain ⟨hnames, hnodup, hnested⟩ := h
  obtain rfl : control = .call e l := hcontrol
  obtain rfl : inProgress = stack.map Frame.name := hnames
  obtain ⟨first, hknown, hname⟩ := hnested.exists_first (List.mem_cons_self ..)
  have hpending : Pending s first s.fuel (stack.map Frame.name) :=
    ⟨hnodup, hknown, Nat.le_add_right ..⟩
  exact ⟨_, _, simulates_evaluate hpending hname l memo⟩

/-! ## Whole runs -/

/-- The machine at its end. -/
def finish (r : Rendering) (memo : Memo) : Machine := on [] (.loop ⟨r, []⟩) memo

theorem runs_finish (s : Scope) (text : String) (memo : Memo) :
    (start s.delimiters text memo).Runs s []
      (finish ((s.render text).run memo).1 ((s.render text).run memo).2) :=
  runs_start (fun e _ => simulates_evaluate (.start s e.dotted) (List.mem_cons_self ..)) memo

/-- The machine makes one move at most, so that all its runs are parts of one. -/
theorem Runs.of_finish {r : Rendering} (hfinish : m.Runs s [] (finish r memo))
    (hruns : m.Runs s [] m') : m'.Runs s [] (finish r memo) := by
  have hunique : Relator.RightUnique fun m m' : Machine => [] <:+ m.stack ∧ m.step s = some m' :=
    fun _ _ _ h h' => Option.some.inj (h.2.symm.trans h'.2)
  rcases ReflTransGen.total_of_right_unique hunique hruns hfinish with h | h
  · exact h
  · rcases ReflTransGen.cases_head h with rfl | ⟨next, hmove, -⟩
    · exact .refl
    · cases hmove.2

end Machine

open Machine in
/-- Rendering comes to an end: the machine has no move left once it has what
`render` says, and gets there from wherever it is on the way. At every moment
the names in progress are different, all but the first of them are written in
the context, and so no more evaluations are within each other than the context
has names, and two. An evaluation that is called comes to its end above the
stack that it was called on, which is then as it was, and so are the names in
progress. -/
theorem render_terminates (s : Scope) (text : String) (memo : Memo) :
    (finish ((s.render text).run memo).1 ((s.render text).run memo).2).step s = none
      ∧ ∀ m, (start s.delimiters text memo).Runs s [] m →
        m.Runs s [] (finish ((s.render text).run memo).1 ((s.render text).run memo).2)
          ∧ m.inProgress.Nodup
          ∧ (∀ name ∈ m.inProgress.dropLast, name ∈ s.names)
          ∧ m.nesting ≤ s.names.dedup.length + 2
          ∧ ∀ e l, m.control = .call e l → ∃ outcome memo',
            m.Runs s m.stack { m with control := .back e outcome l, memo := memo' } := by
  refine ⟨rfl, fun m hruns => ?_⟩
  have hordered : m.Ordered s := (Ordered.start s text memo).runs hruns
  exact ⟨(runs_finish s text memo).of_finish hruns, hordered.nodup, hordered.mem_names,
    hordered.nesting_le, fun e l hcontrol => hordered.returns hcontrol⟩

end Manifest.Interpolation
