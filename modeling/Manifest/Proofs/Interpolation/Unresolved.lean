import Manifest.Proofs.Interpolation.Frame
/-!
# Reporting what leads nowhere

An expression whose path leads nowhere, and may not, is reported where it is written
(`Unresolved.mem_renderValue`). It would be overlooked only if another path with the
same written form led somewhere and was evaluated before: what is missing itself is
never remembered, so that nothing is known of a name that no path which leads somewhere
is written as (`evaluate_unknown`). The first expression of a text needs no such care
(`Unresolved.mem_faults`).
-/

namespace Manifest.Interpolation

open Template (Expression Segment expressions written)

variable {s : Scope} {e : Expression} {fault : Fault}

/-! ## What rendering keeps -/

section

variable {kind : Memo → Prop} {evaluate : Evaluate} {d : Delimiters} {text : String}

theorem renderWith_kept
    (h : ∀ e ∈ written d text, ∀ memo, kind memo → kind ((evaluate e).run memo).2)
    {memo : Memo} (hmemo : kind memo) : kind ((renderWith evaluate d text).run memo).2 := by
  have hensures : Ensures kind (fun _ _ => True) evaluate (written d text) :=
    fun e he memo hmemo => ⟨trivial, h e he memo hmemo⟩
  exact (renderWith_renders hensures hmemo).2

theorem mem_faults_after {r : Rendering} {outcome : Except Fault String}
    {found : String × Fault} (h : found ∈ r.faults) (e : Expression) :
    found ∈ (r.after e outcome).faults := by
  cases outcome with
  | ok value => exact h
  | error fault => exact List.mem_cons_of_mem _ h

/-- An expression that fails from every memo of a kind is among the faults, as long
as what is evaluated before it keeps that kind of memo. -/
theorem renderSegments_fault {segments : List Segment} {before after : List Expression}
    (h : ∀ e' ∈ before, ∀ memo, kind memo → kind ((evaluate e').run memo).2)
    (hfault : ∀ memo, kind memo → ((evaluate e).run memo).1 = .error fault)
    (hsplit : expressions segments = before ++ e :: after) : ∀ {memo : Memo}, kind memo →
      (String.ofList e.raw, fault) ∈ ((renderSegments evaluate segments).run memo).1.faults := by
  induction segments generalizing before with
  | nil => exact absurd hsplit.symm (List.append_ne_nil_of_right_ne_nil _ (List.cons_ne_nil _ _))
  | cons segment rest ih =>
      intro memo hmemo
      cases segment with
      | text cs =>
          rw [renderSegments_text]
          exact ih h hsplit hmemo
      | expression first =>
          rw [renderSegments_expression]
          cases before with
          | nil =>
              obtain ⟨rfl, -⟩ := List.cons.inj hsplit
              dsimp only
              rw [hfault memo hmemo]
              exact List.mem_cons_self ..
          | cons first' before =>
              obtain ⟨rfl, hrest⟩ := List.cons.inj hsplit
              obtain ⟨hhere, hbefore⟩ := List.forall_mem_cons.mp h
              exact mem_faults_after (ih hbefore hrest (hhere memo hmemo)) first

theorem renderWith_fault {before after : List Expression}
    (h : ∀ e' ∈ before, ∀ memo, kind memo → kind ((evaluate e').run memo).2)
    (hfault : ∀ memo, kind memo → ((evaluate e).run memo).1 = .error fault)
    (hsplit : written d text = before ++ e :: after) {memo : Memo} (hmemo : kind memo) :
    (String.ofList e.raw, fault) ∈ ((renderWith evaluate d text).run memo).1.faults := by
  unfold renderWith
  cases hread : Template.read d text with
  | error fault =>
      rw [written, hread] at hsplit
      exact absurd hsplit.symm (List.append_ne_nil_of_right_ne_nil _ (List.cons_ne_nil _ _))
  | ok segments =>
      rw [Template.written_of_read hread] at hsplit
      exact renderSegments_fault h hfault hsplit hmemo

end

/-! ## What is never known -/

/-- None of the paths that are written like this leads anywhere. -/
def LeadsNowhere (s : Scope) (paths : List (List String)) (name : String) : Prop :=
  ∀ path ∈ paths, ReferencePath.text path = name → s.context.lookup? path = none

variable {paths : List (List String)} {name : String}

/-- Nothing gets known of a name if no path that is written like it leads anywhere. -/
theorem evaluate_unknown (hname : LeadsNowhere s paths name)
    (hcontext : writtenPaths s.delimiters s.context.toJson ⊆ paths) {fuel : Nat}
    {pending : List String} {e : Expression} (hpath : e.path ∈ paths) {memo : Memo}
    (hmemo : memo.lookup name = none) :
    ((s.evaluate fuel pending e).run memo).2.lookup name = none := by
  induction fuel generalizing pending e memo with
  | zero => exact hmemo
  | succ fuel ih =>
      have hne {value : Json} (hfound : s.context.lookup? e.path = some value) :
          name ≠ e.dotted := by
        intro heq
        rw [hname e.path hpath heq.symm] at hfound
        cases hfound
      have hstep := step_evaluate s fuel pending e memo
      generalize (s.evaluate (fuel + 1) pending e).run memo = run at hstep ⊢
      cases hstep with
      | known | circular | raw | missing => exact hmemo
      | plain _ _ hfound => rwa [lookup_cons_of_ne (hne hfound)]
      | @template text r after _ _ hfound hrun =>
          have hinner : ∀ e' ∈ written s.delimiters text, ∀ memo : Memo,
              memo.lookup name = none →
                ((s.evaluate fuel (e.dotted :: pending) e').run memo).2.lookup name = none := by
            intro e' he' memo hmemo
            exact ih (hcontext (Needs.of_written hfound he').mem_writtenPaths) hmemo
          have hafter := renderWith_kept hinner hmemo
          rw [hrun] at hafter
          rwa [lookup_cons_of_ne (hne hfound)]

/-! ## Reports -/

/-- What is reported of an expression that leads nowhere. -/
def unresolvedAt (path : String) (e : Expression) : Diagnostic where
  kind := .unresolvedInterpolation
  path := path
  constraint := "interpolation"
  message := "could not resolve \"" ++ e.dotted ++ "\""
  value := String.ofList e.raw

/-- The path of the expression leads nowhere, and it is not let pass. -/
structure Unresolved (s : Scope) (e : Expression) : Prop where
  missing : s.context.lookup? e.path = none
  reported : s.passesThrough e = false

theorem Unresolved.evaluate (h : Unresolved s e) {memo : Memo}
    (hmemo : memo.lookup e.dotted = none) :
    (s.evaluate s.fuel [] e).run memo = (.error (.missing e.dotted), memo) := by
  rw [Scope.fuel, evaluate_missing hmemo List.not_mem_nil h.missing, h.reported]
  rfl

variable {path text : String}

/-- The first expression of a text is reported, and any other one unless some path
that leads somewhere is written like it. -/
theorem Unresolved.mem_faults (h : Unresolved s e) {before after : List Expression}
    (hsplit : written s.delimiters text = before ++ e :: after) {memo : Memo}
    (hmemo : memo.lookup e.dotted = none)
    (hbefore : before = [] ∨ ∃ paths, LeadsNowhere s paths e.dotted
      ∧ writtenPaths s.delimiters s.context.toJson ⊆ paths ∧ ∀ e' ∈ before, e'.path ∈ paths) :
    (String.ofList e.raw, .missing e.dotted) ∈ ((s.render text).run memo).1.faults := by
  have hfault : ∀ memo : Memo, memo.lookup e.dotted = none →
      ((s.evaluate s.fuel [] e).run memo).1 = .error (.missing e.dotted) :=
    fun memo hmemo => by rw [h.evaluate hmemo]
  have hkept : ∀ e' ∈ before, ∀ memo : Memo, memo.lookup e.dotted = none →
      ((s.evaluate s.fuel [] e').run memo).2.lookup e.dotted = none := by
    intro e' he' memo hmemo
    rcases hbefore with rfl | ⟨paths, hname, hcontext, hpaths⟩
    · exact absurd he' List.not_mem_nil
    · exact evaluate_unknown hname hcontext (hpaths e' he') hmemo
  exact renderWith_fault hkept hfault hsplit hmemo

theorem Unresolved.mem_renderAt (h : Unresolved s e) {before after : List Expression}
    (hsplit : written s.delimiters text = before ++ e :: after) {memo : Memo}
    (hmemo : memo.lookup e.dotted = none)
    (hbefore : before = [] ∨ ∃ paths, LeadsNowhere s paths e.dotted
      ∧ writtenPaths s.delimiters s.context.toJson ⊆ paths ∧ ∀ e' ∈ before, e'.path ∈ paths) :
    unresolvedAt path e ∈ ((s.renderAt path text).run memo).1.2 :=
  List.mem_map_of_mem (h.mem_faults hsplit hmemo hbefore)

/-! ## Whole values -/

/-- A run keeps a kind of memo and reports this at all places of the text. -/
structure Reports {α : Type} (kind : Memo → Prop) (report : String → Diagnostic) (text : String)
    (leaves : List (String × String)) (run : (α × List Diagnostic) × Memo) : Prop where
  found : ∀ p, (p, text) ∈ leaves → report p ∈ run.1.2
  kind : kind run.2

section

variable {kind : Memo → Prop} {report : String → Diagnostic}

theorem Reports.append {α β γ : Type} {leaves more : List (String × String)}
    {first : (α × List Diagnostic) × Memo} {second : (β × List Diagnostic) × Memo}
    (hfirst : Reports kind report text leaves first)
    (hsecond : Reports kind report text more second) (result : γ) :
    Reports kind report text (leaves ++ more) ((result, first.1.2 ++ second.1.2), second.2) where
  found p hp := by
    rcases List.mem_append.mp hp with hp | hp
    · exact List.mem_append_left _ (hfirst.found p hp)
    · exact List.mem_append_right _ (hsecond.found p hp)
  kind := hsecond.kind

theorem renderText_reports {other : String} {memo : Memo}
    (hkept : ∀ memo, kind memo → kind ((s.render other).run memo).2)
    (hreport : ∀ path memo, kind memo → report path ∈ ((s.renderAt path text).run memo).1.2)
    (path : String) (hmemo : kind memo) :
    Reports kind report text [(path, other)] ((s.renderValue path (.string other)).run memo) := by
  have hself (p : String) (hp : (p, text) ∈ [(path, other)]) : p = path ∧ text = other :=
    Prod.mk.inj (List.mem_singleton.mp hp)
  cases hopens : s.delimiters.opensIn other with
  | true =>
      simp only [Scope.renderValue, hopens]
      refine ⟨fun p hp => ?_, hkept memo hmemo⟩
      obtain ⟨rfl, rfl⟩ := hself p hp
      exact hreport p memo hmemo
  | false =>
      simp only [Scope.renderValue, hopens]
      refine ⟨fun p hp => ?_, hmemo⟩
      obtain ⟨rfl, rfl⟩ := hself p hp
      have hnone : ((s.renderAt p text).run memo).1.2 = [] := by
        show (((s.render text).run memo).1.diagnostics p) = []
        rw [render_of_unopened hopens]
        rfl
      have hfound := hreport p memo hmemo
      rw [hnone] at hfound
      exact absurd hfound List.not_mem_nil

mutual

theorem renderValue_reports
    (hreport : ∀ path memo, kind memo → report path ∈ ((s.renderAt path text).run memo).1.2) :
    ∀ (path : String) (tree : Json) {memo : Memo},
      (∀ other ∈ tree.texts, ∀ memo, kind memo → kind ((s.render other).run memo).2) →
      kind memo →
      Reports kind report text (tree.leaves path) ((s.renderValue path tree).run memo)
  | path, .string other, _, h, hmemo =>
      renderText_reports (h other (List.mem_singleton_self other)) hreport path hmemo
  | path, .array items, _, h, hmemo =>
      have hitems := renderItems_reports hreport path 0 items h hmemo
      ⟨hitems.found, hitems.kind⟩
  | path, .object members, _, h, hmemo =>
      have hmembers := renderMembers_reports hreport path members h hmemo
      ⟨hmembers.found, hmembers.kind⟩
  | _, .null, _, _, hmemo => ⟨fun _ hp => absurd hp List.not_mem_nil, hmemo⟩
  | _, .bool _, _, _, hmemo => ⟨fun _ hp => absurd hp List.not_mem_nil, hmemo⟩
  | _, .int _, _, _, hmemo => ⟨fun _ hp => absurd hp List.not_mem_nil, hmemo⟩
  | _, .float _, _, _, hmemo => ⟨fun _ hp => absurd hp List.not_mem_nil, hmemo⟩

theorem renderItems_reports
    (hreport : ∀ path memo, kind memo → report path ∈ ((s.renderAt path text).run memo).1.2) :
    ∀ (path : String) (index : Nat) (items : List Json) {memo : Memo},
      (∀ other ∈ Json.itemTexts items, ∀ memo, kind memo →
        kind ((s.render other).run memo).2) →
      kind memo →
      Reports kind report text (Json.itemLeaves path index items)
        ((s.renderItems path index items).run memo)
  | _, _, [], _, _, hmemo => ⟨fun _ hp => absurd hp List.not_mem_nil, hmemo⟩
  | path, index, item :: rest, memo, h, hmemo => by
      have hhere := renderValue_reports hreport (PropertyPath.item path index) item
        (fun other hother => h other (List.mem_append_left _ hother)) hmemo
      have hlater := renderItems_reports hreport path (index + 1) rest
        (fun other hother => h other (List.mem_append_right _ hother)) hhere.kind
      exact hhere.append hlater _

theorem renderMembers_reports
    (hreport : ∀ path memo, kind memo → report path ∈ ((s.renderAt path text).run memo).1.2) :
    ∀ (path : String) (members : Json.Members) {memo : Memo},
      (∀ other ∈ Json.memberTexts members, ∀ memo, kind memo →
        kind ((s.render other).run memo).2) →
      kind memo →
      Reports kind report text (Json.memberLeaves path members)
        ((s.renderMembers path members).run memo)
  | _, [], _, _, hmemo => ⟨fun _ hp => absurd hp List.not_mem_nil, hmemo⟩
  | path, (k, v) :: rest, memo, h, hmemo => by
      have hhere := renderValue_reports hreport (PropertyPath.join path k) v
        (fun other hother => h other (List.mem_append_left _ hother)) hmemo
      have hlater := renderMembers_reports hreport path rest
        (fun other hother => h other (List.mem_append_right _ hother)) hhere.kind
      exact hhere.append hlater _

end

end

/-- A run over a whole value reports an expression at each of its places, unless some
path that leads somewhere is written like it, in the value or in the context. -/
theorem Unresolved.mem_renderValue (h : Unresolved s e) {tree : Json} {p : String}
    (hleaf : (p, text) ∈ tree.leaves path) (he : e ∈ written s.delimiters text)
    (hname : LeadsNowhere s (writtenPaths s.delimiters tree
      ++ writtenPaths s.delimiters s.context.toJson) e.dotted) :
    unresolvedAt p e ∈ ((s.renderValue path tree).run []).1.2 := by
  have hpaths {other : String} (hother : other ∈ tree.texts) :
      ∀ e' ∈ written s.delimiters other, e'.path ∈ writtenPaths s.delimiters tree
        ++ writtenPaths s.delimiters s.context.toJson :=
    fun e' he' => List.mem_append_left _ (mem_writtenPaths hother he')
  have hcontext := List.subset_append_right (writtenPaths s.delimiters tree)
    (writtenPaths s.delimiters s.context.toJson)
  have htext : text ∈ tree.texts := Json.mem_texts_of_mem_leaves hleaf
  have hreport : ∀ path (memo : Memo), memo.lookup e.dotted = none →
      unresolvedAt path e ∈ ((s.renderAt path text).run memo).1.2 := by
    intro path memo hmemo
    obtain ⟨before, after, hsplit⟩ := List.append_of_mem he
    refine h.mem_renderAt hsplit hmemo (Or.inr ⟨_, hname, hcontext, fun e' he' => ?_⟩)
    refine hpaths htext e' ?_
    rw [hsplit]
    exact List.mem_append_left _ he'
  have hkept : ∀ other ∈ tree.texts, ∀ memo : Memo, memo.lookup e.dotted = none →
      ((s.render other).run memo).2.lookup e.dotted = none := by
    intro other hother memo hmemo
    have hevaluate : ∀ e' ∈ written s.delimiters other, ∀ memo : Memo,
        memo.lookup e.dotted = none →
          ((s.evaluate s.fuel [] e').run memo).2.lookup e.dotted = none :=
      fun e' he' memo hmemo => evaluate_unknown hname hcontext (hpaths hother e' he') hmemo
    exact renderWith_kept hevaluate hmemo
  exact (renderValue_reports hreport path tree hkept rfl).found p hleaf

end Manifest.Interpolation
