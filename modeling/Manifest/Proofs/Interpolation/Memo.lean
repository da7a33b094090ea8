import Manifest.Proofs.Interpolation.Reference
import Manifest.Proofs.Interpolation.Step
/-!
# The memo changes nothing

Evaluation with a memo finds the values of the reference, whatever was
evaluated before and whatever is pending. The delicate case is a failure that
is remembered while other paths are pending, because it may be one of those
that it runs into. But a pending path needs every path evaluated within it, so
that running into one closes a circle through the path at hand, and that is a
failure in any order. The argument is good for any property of outcomes that
holds of a circle and passes from what is written in a text to the text
(`Sustained.evaluate`); the values of the reference are one
(`evaluate_toOption`).

Names are remembered by their written form, and so all of this is about
paths that their written forms tell apart (`ToldApart`).
-/

namespace Manifest.Interpolation

open Template (Expression Segment expressions written fill)

variable {s : Scope}

/-! ## Texts by the reference -/

/-- A text with its expressions replaced where they have a value. -/
def replaced (value : Expression → Option String) (d : Delimiters) (text : String) : String :=
  match Template.read d text with
  | .ok segments => fill (fun e => (value e).getD (String.ofList e.raw)) segments
  | .error _ => text

/-- What is reported of a text: each expression without a value as it is
written, or the whole of a text that is no template. -/
def reported (value : Expression → Option String) (d : Delimiters) (text : String) :
    List String :=
  match Template.read d text with
  | .ok segments =>
    ((expressions segments).filter fun e => (value e).isNone).map fun e => String.ofList e.raw
  | .error _ => [text]

theorem replaced_of_unopened {value : Expression → Option String} {d : Delimiters}
    {text : String} (h : d.opensIn text = false) : replaced value d text = text := by
  obtain ⟨segments, hread, -, hfill⟩ := Template.read_of_unopened h
  simp only [replaced, hread, hfill]

theorem reported_of_unopened {value : Expression → Option String} {d : Delimiters}
    {text : String} (h : d.opensIn text = false) : reported value d text = [] := by
  obtain ⟨segments, hread, hnone, -⟩ := Template.read_of_unopened h
  simp only [reported, hread, hnone, List.filter_nil, List.map_nil]

theorem mem_reported {value : Expression → Option String} {d : Delimiters} {text : String}
    {e : Expression} (he : e ∈ written d text) (hnone : value e = none) :
    String.ofList e.raw ∈ reported value d text := by
  obtain ⟨segments, hread, he⟩ := Template.exists_read_of_mem_written he
  simp only [reported, hread]
  refine List.mem_map.mpr ⟨e, List.mem_filter.mpr ⟨he, ?_⟩, rfl⟩
  rw [hnone]
  rfl

/-- The value of an expression whose path leads to a text. -/
theorem value_of_text {e : Expression} {text : String}
    (hfound : s.context.lookup? e.path = some (.string text)) :
    s.value e =
      if reported s.value s.delimiters text = [] then some (replaced s.value s.delimiters text)
      else none := by
  cases hread : Template.read s.delimiters text with
  | error fault =>
      simp only [reported, hread]
      exact value_eq_none_iff.mpr (.malformed hfound hread)
  | ok segments =>
      simp only [reported, replaced, hread, List.map_eq_nil_iff, List.filter_eq_nil_iff]
      split
      · next hall =>
          refine value_eq_some_iff.mpr (.template hfound hread fun e' he' => ?_)
          obtain ⟨text, htext⟩ : ∃ text, s.value e' = some text := by
            simpa [Option.isNone_iff_eq_none, Option.ne_none_iff_exists'] using hall e' he'
          rw [htext]
          exact value_eq_some_iff.mp htext
      · next hall =>
          push Not at hall
          obtain ⟨e', he', hnone⟩ := hall
          rw [← Template.written_of_read hread] at he'
          exact value_eq_none_iff.mpr (.within hfound he'
            (value_eq_none_iff.mp (Option.isNone_iff_eq_none.mp hnone)))

/-- The value of an expression whose path leads to something else than a text
to be rendered. -/
theorem value_of_plain {e : Expression} {value : Json}
    (hfound : s.context.lookup? e.path = some value) (htemplate : s.template? value = none) :
    s.value e = (plainValue e.dotted value).toOption := by
  cases value with
  | string text =>
      have hopens : s.delimiters.opensIn text = false := by
        simpa [Scope.template?] using htemplate
      rw [value_of_text hfound, reported_of_unopened hopens, replaced_of_unopened hopens]
      rfl
  | bool | int | float => exact value_eq_some_iff.mpr (.plain hfound rfl)
  | null => exact value_eq_none_iff.mpr (.unset hfound)
  | array => exact value_eq_none_iff.mpr (.list hfound)
  | object => exact value_eq_none_iff.mpr (.object hfound)

/-! ## Rendering with an evaluation whose outcomes have a property -/

section

variable {kind : Memo → Prop} {P : Expression → Except Fault String → Prop} {evaluate : Evaluate}

/-- A rendering of segments in which each expression has an outcome with the property. -/
inductive Renders (P : Expression → Except Fault String → Prop) : List Segment → Rendering → Prop
  | nil : Renders P [] ⟨"", []⟩
  | text {cs : List Char} {rest : List Segment} {r : Rendering} (hrest : Renders P rest r) :
    Renders P (.text cs :: rest) ⟨String.ofList cs ++ r.text, r.faults⟩
  | expression {e : Expression} {outcome : Except Fault String} {rest : List Segment}
    {r : Rendering} (he : P e outcome) (hrest : Renders P rest r) :
    Renders P (.expression e :: rest) (r.after e outcome)

/-- The same of a text. -/
inductive RendersText (P : Expression → Except Fault String → Prop) (d : Delimiters)
    (text : String) : Rendering → Prop
  | malformed {fault : Template.Fault} (hread : Template.read d text = .error fault) :
    RendersText P d text ⟨text, [(text, .malformed fault)]⟩
  | template {segments : List Segment} {r : Rendering}
    (hread : Template.read d text = .ok segments) (hrenders : Renders P segments r) :
    RendersText P d text r

/-- On these expressions the evaluation has outcomes with the property, from every memo
of a kind, and leaves one of that kind. -/
def Ensures (kind : Memo → Prop) (P : Expression → Except Fault String → Prop)
    (evaluate : Evaluate) (es : List Expression) : Prop :=
  ∀ e ∈ es, ∀ memo, kind memo → P e ((evaluate e).run memo).1 ∧ kind ((evaluate e).run memo).2

theorem renderSegments_renders {segments : List Segment}
    (h : Ensures kind P evaluate (expressions segments)) : ∀ {memo : Memo}, kind memo →
      Renders P segments ((renderSegments evaluate segments).run memo).1
        ∧ kind ((renderSegments evaluate segments).run memo).2 := by
  induction segments with
  | nil => exact fun hmemo => ⟨.nil, hmemo⟩
  | cons segment rest ih =>
      intro memo hmemo
      cases segment with
      | text cs =>
          obtain ⟨hrest, hafter⟩ := ih h hmemo
          rw [renderSegments_text]
          exact ⟨.text hrest, hafter⟩
      | expression e =>
          obtain ⟨he, hmemo'⟩ := h e (List.mem_cons_self ..) memo hmemo
          obtain ⟨hrest, hafter⟩ := ih (fun e' he' => h e' (List.mem_cons_of_mem _ he')) hmemo'
          rw [renderSegments_expression]
          exact ⟨.expression he hrest, hafter⟩

theorem renderWith_renders {d : Delimiters} {text : String}
    (h : Ensures kind P evaluate (written d text)) {memo : Memo} (hmemo : kind memo) :
    RendersText P d text ((renderWith evaluate d text).run memo).1
      ∧ kind ((renderWith evaluate d text).run memo).2 := by
  unfold renderWith
  cases hread : Template.read d text with
  | error fault => exact ⟨.malformed hread, hmemo⟩
  | ok segments =>
      rw [Template.written_of_read hread] at h
      obtain ⟨hrenders, hafter⟩ := renderSegments_renders h hmemo
      exact ⟨.template hread hrenders, hafter⟩

end

/-! ## Rendering with an evaluation that finds given values -/

/-- On these expressions the evaluation finds the given values, from every
memo of a kind, and leaves one of that kind. -/
def Finds (kind : Memo → Prop) (value : Expression → Option String) (evaluate : Evaluate)
    (es : List Expression) : Prop :=
  ∀ e ∈ es, ∀ memo, kind memo →
    ((evaluate e).run memo).1.toOption = value e ∧ kind ((evaluate e).run memo).2

theorem Renders.values {value : Expression → Option String} {segments : List Segment}
    {r : Rendering} (h : Renders (fun e outcome => outcome.toOption = value e) segments r) :
    r.text = fill (fun e => (value e).getD (String.ofList e.raw)) segments
      ∧ r.faults.map Prod.fst = ((expressions segments).filter fun e => (value e).isNone).map
          (fun e => String.ofList e.raw) := by
  induction h with
  | nil => exact ⟨rfl, rfl⟩
  | text _ ih =>
      obtain ⟨htext, hfaults⟩ := ih
      exact ⟨congrArg (String.ofList _ ++ ·) htext, hfaults⟩
  | expression he _ ih =>
      obtain ⟨htext, hfaults⟩ := ih
      refine ⟨?_, ?_⟩
      · rw [Rendering.after_text, he, htext, fill]
      · rw [Rendering.after_faults, he, hfaults, expressions, List.filter_cons]
        split <;> rfl

theorem RendersText.values {value : Expression → Option String} {d : Delimiters} {text : String}
    {r : Rendering} (h : RendersText (fun e outcome => outcome.toOption = value e) d text r) :
    r.text = replaced value d text ∧ r.faults.map Prod.fst = reported value d text := by
  unfold replaced reported
  cases h with
  | malformed hread =>
      rw [hread]
      exact ⟨rfl, rfl⟩
  | template hread hrenders =>
      rw [hread]
      exact hrenders.values

theorem renderWith_run {kind : Memo → Prop} {value : Expression → Option String}
    {evaluate : Evaluate} {d : Delimiters} {text : String}
    (h : Finds kind value evaluate (written d text)) {memo : Memo} (hmemo : kind memo) :
    ((renderWith evaluate d text).run memo).1.text = replaced value d text
      ∧ ((renderWith evaluate d text).run memo).1.faults.map Prod.fst = reported value d text
      ∧ kind ((renderWith evaluate d text).run memo).2 := by
  have hensures : Ensures kind (fun e outcome => outcome.toOption = value e) evaluate
      (written d text) := h
  obtain ⟨hrenders, hafter⟩ := renderWith_renders hensures hmemo
  obtain ⟨htext, hfaults⟩ := hrenders.values
  exact ⟨htext, hfaults, hafter⟩

theorem toOption_settle (path : String) (r : Rendering) :
    (r.settle path).toOption = if r.faults.map Prod.fst = [] then some r.text else none := by
  rcases r with ⟨text, _ | ⟨⟨raw, fault⟩, rest⟩⟩ <;> rfl

/-! ## Evaluation with a memo -/

/-- No two of the paths have the same written form. -/
def ToldApart (paths : List (List String)) : Prop :=
  ∀ p ∈ paths, ∀ q ∈ paths, ReferencePath.text p = ReferencePath.text q → p = q

instance (paths : List (List String)) : Decidable (ToldApart paths) :=
  inferInstanceAs (Decidable (∀ p ∈ paths, ∀ q ∈ paths,
    ReferencePath.text p = ReferencePath.text q → p = q))

/-- All that is remembered has the property for the expressions of a path. -/
def Remembers (P : Expression → Except Fault String → Prop) (paths : List (List String))
    (memo : Memo) : Prop :=
  ∀ name known, memo.lookup name = some known →
    ∃ p ∈ paths, ReferencePath.text p = name ∧ ∀ e : Expression, e.path = p → P e known

section

variable {P : Expression → Except Fault String → Prop} {paths : List (List String)} {memo : Memo}

theorem Remembers.nil (P : Expression → Except Fault String → Prop) (paths : List (List String)) :
    Remembers P paths [] := by
  intro name known h
  cases h

theorem Remembers.cons {e : Expression} {outcome : Except Fault String}
    (h : Remembers P paths memo) (hpath : e.path ∈ paths)
    (houtcome : ∀ e' : Expression, e'.path = e.path → P e' outcome) :
    Remembers P paths ((e.dotted, outcome) :: memo) := by
  intro name known hknown
  rw [List.lookup_cons] at hknown
  split at hknown
  · next heq =>
      obtain rfl := Option.some.inj hknown
      exact ⟨e.path, hpath, (beq_iff_eq.mp heq).symm, houtcome⟩
  · exact h name known hknown

/-- Each way to end an evaluation has an outcome with the property if what it renders
within has such outcomes. -/
structure Sustained (s : Scope) (P : Expression → Except Fault String → Prop) : Prop where
  circular {e : Expression} (hcircle : Relation.TransGen (Needs s) e.path e.path) :
    P e (.error (.circular e.dotted))
  raw {e : Expression} (hmissing : s.context.lookup? e.path = none)
    (hpass : s.passesThrough e = true) : P e (.ok (String.ofList e.raw))
  missing {e : Expression} (hmissing : s.context.lookup? e.path = none)
    (hpass : s.passesThrough e = false) : P e (.error (.missing e.dotted))
  plain {e : Expression} {value : Json} (hfound : s.context.lookup? e.path = some value)
    (htemplate : s.template? value = none) : P e (plainValue e.dotted value)
  template {e : Expression} {text : String} {r : Rendering}
    (hfound : s.context.lookup? e.path = some (.string text))
    (hrenders : RendersText P s.delimiters text r) : P e (r.settle e.dotted)

/-- The outcome of an evaluation has the property, whatever is remembered and pending.
Each of the pending paths needs the path at hand, so that running into one closes a
circle. -/
theorem Sustained.evaluate (hP : Sustained s P) (hpaths : ToldApart paths)
    (hcontext : writtenPaths s.delimiters s.context.toJson ⊆ paths) {first : String} {fuel : Nat}
    {pending : List (List String)} {e : Expression}
    (hpending : Pending s first fuel (pending.map ReferencePath.text))
    (hneeds : ∀ p ∈ pending, p ∈ paths ∧ Relation.TransGen (Needs s) p e.path)
    (hpath : e.path ∈ paths) (hname : e.dotted ∈ first :: s.names)
    (hmemo : Remembers P paths memo) :
    P e ((s.evaluate fuel (pending.map ReferencePath.text) e).run memo).1
      ∧ Remembers P paths
        ((s.evaluate fuel (pending.map ReferencePath.text) e).run memo).2 := by
  induction fuel generalizing pending e memo with
  | zero => exact absurd hpending.fuel_pos (Nat.lt_irrefl 0)
  | succ fuel ih =>
      have hsame {e' : Expression} (he' : e'.path = e.path) : e'.dotted = e.dotted :=
        congrArg ReferencePath.text he'
      have hstep := step_evaluate s fuel (pending.map ReferencePath.text) e memo
      generalize (s.evaluate (fuel + 1) (pending.map ReferencePath.text) e).run memo = run
        at hstep ⊢
      cases hstep with
      | known hknown =>
          obtain ⟨p, hp, htext, hknown⟩ := hmemo _ _ hknown
          exact ⟨hknown e (hpaths _ hpath _ hp htext.symm), hmemo⟩
      | circular _ hagain =>
          obtain ⟨p, hp, htext⟩ := List.mem_map.mp hagain
          obtain ⟨hp', hcircle⟩ := hneeds p hp
          obtain rfl := hpaths _ hp' _ hpath htext
          exact ⟨hP.circular hcircle, hmemo⟩
      | raw _ _ hmissing hpass => exact ⟨hP.raw hmissing hpass, hmemo⟩
      | missing _ _ hmissing hpass => exact ⟨hP.missing hmissing hpass, hmemo⟩
      | plain _ _ hfound htemplate =>
          refine ⟨hP.plain hfound htemplate, hmemo.cons hpath fun e' he' => ?_⟩
          rw [← hsame he']
          exact hP.plain (he'.symm ▸ hfound) htemplate
      | @template text r after _ hagain hfound hrun =>
          -- Inside of the text the path at hand is pending too, and needs each path there.
          have hinner : Ensures (Remembers P paths) P
              (s.evaluate fuel (e.dotted :: pending.map ReferencePath.text))
              (written s.delimiters text) := by
            intro e' hwritten memo hmemo
            have hneed : Needs s e.path e'.path := .of_written hfound hwritten
            have hneeds' : ∀ p ∈ e.path :: pending,
                p ∈ paths ∧ Relation.TransGen (Needs s) p e'.path :=
              List.forall_mem_cons.mpr ⟨⟨hpath, .single hneed⟩,
                fun p hp => ⟨(hneeds p hp).1, (hneeds p hp).2.tail hneed⟩⟩
            have hpending' : Pending s first fuel ((e.path :: pending).map ReferencePath.text) :=
              hpending.push hagain hname
            exact ih hpending' hneeds' (hcontext hneed.mem_writtenPaths)
              (List.mem_cons_of_mem _ (mem_names_of_lookup? hfound hwritten)) hmemo
          obtain ⟨hrenders, hafter⟩ := renderWith_renders hinner hmemo
          rw [hrun] at hrenders hafter
          refine ⟨hP.template hfound hrenders, hafter.cons hpath fun e' he' => ?_⟩
          rw [← hsame he']
          exact hP.template (he'.symm ▸ hfound) hrenders

/-- With nothing pending. -/
theorem Sustained.ensures (hP : Sustained s P) (hpaths : ToldApart paths)
    (hcontext : writtenPaths s.delimiters s.context.toJson ⊆ paths) {es : List Expression}
    (hes : ∀ e ∈ es, e.path ∈ paths) :
    Ensures (Remembers P paths) P (s.evaluate s.fuel []) es := by
  intro e he memo hmemo
  have hstart : Pending s e.dotted s.fuel (([] : List (List String)).map ReferencePath.text) :=
    .start s e.dotted
  exact hP.evaluate hpaths hcontext hstart (fun _ h => (List.not_mem_nil h).elim) (hes e he)
    (List.mem_cons_self ..) hmemo

end

/-- All that is remembered is the value of a path. -/
def MemoSound (s : Scope) (paths : List (List String)) (memo : Memo) : Prop :=
  ∀ name known, memo.lookup name = some known →
    ∃ p ∈ paths, ReferencePath.text p = name
      ∧ ∀ e : Expression, e.path = p → known.toOption = s.value e

theorem MemoSound.nil (s : Scope) (paths : List (List String)) : MemoSound s paths [] :=
  Remembers.nil _ paths

theorem sustained_value (s : Scope) : Sustained s fun e outcome => outcome.toOption = s.value e where
  circular hcircle := (value_eq_none_iff.mpr (.circular hcircle)).symm
  raw hmissing hpass := (value_eq_some_iff.mpr (.raw hmissing hpass)).symm
  missing hmissing hpass := (value_eq_none_iff.mpr (.missing hmissing hpass)).symm
  plain hfound htemplate := (value_of_plain hfound htemplate).symm
  template hfound hrenders := by
    obtain ⟨htext, hfaults⟩ := hrenders.values
    rw [toOption_settle, htext, hfaults, value_of_text hfound]

/-- Evaluation finds the value of the reference. Each of the pending paths
needs the path at hand. -/
theorem evaluate_toOption {paths : List (List String)} (hpaths : ToldApart paths)
    (hcontext : writtenPaths s.delimiters s.context.toJson ⊆ paths) {first : String} {fuel : Nat}
    {pending : List (List String)} {e : Expression} {memo : Memo}
    (hpending : Pending s first fuel (pending.map ReferencePath.text))
    (hneeds : ∀ p ∈ pending, p ∈ paths ∧ Relation.TransGen (Needs s) p e.path)
    (hpath : e.path ∈ paths) (hname : e.dotted ∈ first :: s.names)
    (hmemo : MemoSound s paths memo) :
    ((s.evaluate fuel (pending.map ReferencePath.text) e).run memo).1.toOption = s.value e
      ∧ MemoSound s paths ((s.evaluate fuel (pending.map ReferencePath.text) e).run memo).2 :=
  (sustained_value s).evaluate hpaths hcontext hpending hneeds hpath hname hmemo

/-! ## Whole values -/

/-- Where a diagnostic stands and what it is about. -/
def site (d : Diagnostic) : String × Option String := (d.path, d.value)

/-- What is reported of texts at property paths, each at the path of its
text. -/
def sites (value : Expression → Option String) (d : Delimiters)
    (leaves : List (String × String)) : List (String × Option String) :=
  leaves.flatMap fun leaf => (reported value d leaf.2).map fun raw => (leaf.1, some raw)

/-- A run of a rendering has this result, reports this, and leaves a memo of
this kind. -/
structure Rendered {α : Type} (kind : Memo → Prop) (run : (α × List Diagnostic) × Memo)
    (result : α) (found : List (String × Option String)) : Prop where
  result : run.1.1 = result
  found : run.1.2.map site = found
  kind : kind run.2

theorem map_site_diagnostics (path : String) (r : Rendering) :
    (r.diagnostics path).map site = (r.faults.map Prod.fst).map fun raw => (path, some raw) := by
  rw [Rendering.diagnostics, List.map_map, List.map_map]
  rfl

variable {kind : Memo → Prop} {value : Expression → Option String}

theorem renderText_run (path : String) {text : String} {memo : Memo}
    (h : Finds kind value (s.evaluate s.fuel []) (written s.delimiters text))
    (hmemo : kind memo) :
    Rendered kind ((s.renderValue path (.string text)).run memo)
      (.string (replaced value s.delimiters text))
      ((reported value s.delimiters text).map fun raw => (path, some raw)) := by
  cases hopens : s.delimiters.opensIn text with
  | false =>
      rw [replaced_of_unopened hopens, reported_of_unopened hopens]
      simp only [Scope.renderValue, hopens]
      exact ⟨rfl, rfl, hmemo⟩
  | true =>
      obtain ⟨htext, hfaults, hafter⟩ := renderWith_run h hmemo
      rw [← htext, ← hfaults, ← map_site_diagnostics]
      simp only [Scope.renderValue, hopens]
      exact ⟨rfl, rfl, hafter⟩

mutual

theorem renderValue_run : ∀ (path : String) (tree : Json) {memo : Memo},
    (∀ text ∈ tree.texts, Finds kind value (s.evaluate s.fuel []) (written s.delimiters text)) →
      kind memo →
      Rendered kind ((s.renderValue path tree).run memo)
        (tree.mapTexts (replaced value s.delimiters)) (sites value s.delimiters (tree.leaves path))
  | path, .string text, memo, h, hmemo => by
      have hrun := renderText_run path (h text (List.mem_singleton.mpr rfl)) hmemo
      exact ⟨hrun.result, by rw [hrun.found, sites, Json.leaves, List.flatMap_singleton], hrun.kind⟩
  | path, .array items, memo, h, hmemo => by
      have hrun := renderItems_run path 0 items h hmemo
      exact ⟨congrArg Json.array hrun.result, hrun.found, hrun.kind⟩
  | path, .object members, memo, h, hmemo => by
      have hrun := renderMembers_run path members h hmemo
      exact ⟨congrArg Json.object hrun.result, hrun.found, hrun.kind⟩
  | _, .null, _, _, hmemo => ⟨rfl, rfl, hmemo⟩
  | _, .bool _, _, _, hmemo => ⟨rfl, rfl, hmemo⟩
  | _, .int _, _, _, hmemo => ⟨rfl, rfl, hmemo⟩
  | _, .float _, _, _, hmemo => ⟨rfl, rfl, hmemo⟩

theorem renderItems_run : ∀ (path : String) (index : Nat) (items : List Json) {memo : Memo},
    (∀ text ∈ Json.itemTexts items,
        Finds kind value (s.evaluate s.fuel []) (written s.delimiters text)) →
      kind memo →
      Rendered kind ((s.renderItems path index items).run memo)
        (Json.mapItemTexts (replaced value s.delimiters) items)
        (sites value s.delimiters (Json.itemLeaves path index items))
  | _, _, [], _, _, hmemo => ⟨rfl, rfl, hmemo⟩
  | path, index, item :: rest, memo, h, hmemo => by
      have hhere := renderValue_run (PropertyPath.item path index) item
        (fun text htext => h text (List.mem_append_left _ htext)) hmemo
      have hlater := renderItems_run path (index + 1) rest
        (fun text htext => h text (List.mem_append_right _ htext)) hhere.kind
      rw [Json.mapItemTexts, Json.itemLeaves, sites, List.flatMap_append, ← sites, ← sites,
        ← hhere.result, ← hhere.found, ← hlater.result, ← hlater.found, ← List.map_append]
      exact ⟨rfl, rfl, hlater.kind⟩

theorem renderMembers_run : ∀ (path : String) (members : Json.Members) {memo : Memo},
    (∀ text ∈ Json.memberTexts members,
        Finds kind value (s.evaluate s.fuel []) (written s.delimiters text)) →
      kind memo →
      Rendered kind ((s.renderMembers path members).run memo)
        (Json.mapMemberTexts (replaced value s.delimiters) members)
        (sites value s.delimiters (Json.memberLeaves path members))
  | _, [], _, _, hmemo => ⟨rfl, rfl, hmemo⟩
  | path, (k, v) :: rest, memo, h, hmemo => by
      have hhere := renderValue_run (PropertyPath.join path k) v
        (fun text htext => h text (List.mem_append_left _ htext)) hmemo
      have hlater := renderMembers_run path rest
        (fun text htext => h text (List.mem_append_right _ htext)) hhere.kind
      rw [Json.mapMemberTexts, Json.memberLeaves, sites, List.flatMap_append, ← sites, ← sites,
        ← hhere.result, ← hhere.found, ← hlater.result, ← hlater.found, ← List.map_append]
      exact ⟨rfl, rfl, hlater.kind⟩

end

/-- Evaluation on its own, with nothing pending, finds the values of the
reference in a text of a value. -/
theorem finds_value {tree : Json} {text : String}
    (hpaths : ToldApart
      (writtenPaths s.delimiters tree ++ writtenPaths s.delimiters s.context.toJson))
    (htext : text ∈ tree.texts) :
    Finds
      (MemoSound s (writtenPaths s.delimiters tree ++ writtenPaths s.delimiters s.context.toJson))
      s.value (s.evaluate s.fuel []) (written s.delimiters text) :=
  (sustained_value s).ensures hpaths (List.subset_append_right _ _) fun _ hwritten =>
    List.mem_append_left _ (mem_writtenPaths htext hwritten)

/-- One run over a whole value gives what the reference says, provided that
the paths in the value and in the context are told apart: every text is
replaced by the reference, and every expression without a value is reported
once, where it stands. -/
theorem renderValue_eq_reference (s : Scope) (path : String) (tree : Json)
    (hpaths : ToldApart
      (writtenPaths s.delimiters tree ++ writtenPaths s.delimiters s.context.toJson)) :
    (∀ e text, s.value e = some text ↔ Denotes s e text)
      ∧ (∀ e, s.value e = none ↔ Fails s e)
      ∧ ((s.renderValue path tree).run []).1.1 = tree.mapTexts (replaced s.value s.delimiters)
      ∧ ((s.renderValue path tree).run []).1.2.map (fun d => (d.path, d.value))
        = (tree.leaves path).flatMap fun (p, text) =>
            (reported s.value s.delimiters text).map fun raw => (p, some raw) := by
  have hrun := renderValue_run path tree (fun text htext => finds_value hpaths htext)
    (MemoSound.nil s _)
  exact ⟨fun e text => value_eq_some_iff, fun e => value_eq_none_iff, hrun.result, hrun.found⟩

/-- Two parameters that need each other, and one that they do not need. -/
def circleScope : Scope where
  context := ⟨[("parameters", .object
    [("a", .string "$\x7b\x7b parameters.b \x7d\x7d-x"),
      ("b", .string "$\x7b\x7b parameters.c \x7d\x7d $\x7b\x7b parameters.a \x7d\x7d"),
      ("c", .string "deep")])]⟩

/-- Two texts of which the first fails while both parameters of the circle are
pending. -/
def circleTexts : Json :=
  .array [.string "$\x7b\x7b parameters.a \x7d\x7d",
    .string "$\x7b\x7b parameters.b \x7d\x7d $\x7b\x7b parameters.c \x7d\x7d"]

theorem renderValue_circleTexts :
    ToldApart (writtenPaths circleScope.delimiters circleTexts
        ++ writtenPaths circleScope.delimiters circleScope.context.toJson)
      ∧ ((circleScope.renderValue "" circleTexts).run []).1.1
        = circleTexts.mapTexts (replaced circleScope.value circleScope.delimiters)
      ∧ ((circleScope.renderValue "" circleTexts).run []).1.2.map (fun d => (d.path, d.value))
        = (circleTexts.leaves "").flatMap fun (p, text) =>
            (reported circleScope.value circleScope.delimiters text).map fun raw => (p, some raw) :=
  have hpaths : ToldApart (writtenPaths circleScope.delimiters circleTexts
      ++ writtenPaths circleScope.delimiters circleScope.context.toJson) := by decide +kernel
  ⟨hpaths, (renderValue_eq_reference circleScope "" circleTexts hpaths).2.2⟩

end Manifest.Interpolation
