import Manifest.Proofs.Interpolation.Memo
/-!
# One scope predicts another

Two scopes interpolate the same texts: one in which some paths are only let
pass, and one that has values for them. Expressions are `common`, and then the
scopes see the same at their paths, or `supplied`, and then nothing can go
wrong with them in either scope (`Predicts`). Evaluating in both scopes in
lockstep keeps the two memos alike, so that the same expressions fail in both
(`evaluate_alike`) and the same is reported of every value
(`renderValue_alike`).

Nothing is said here of paths that are told apart: the two runs make the same
mistakes.
-/

namespace Manifest.Interpolation

open Template (Expression Segment expressions written)

variable {s t : Scope} {common supplied : Expression → Prop}

/-! ## What the scopes see -/

/-- Both scopes have nothing at the path and treat that alike, or both have
something that is the same text to be rendered or has a value in both or in
neither. -/
inductive SeesSame (s t : Scope) (e : Expression) : Prop
  | missing (hleft : s.context.lookup? e.path = none) (hright : t.context.lookup? e.path = none)
      (hpass : s.passesThrough e = t.passesThrough e) : SeesSame s t e
  | found {value other : Json} (hleft : s.context.lookup? e.path = some value)
      (hright : t.context.lookup? e.path = some other)
      (htemplate : s.template? value = t.template? other)
      (hplain : (plainValue e.dotted value).isOk = (plainValue e.dotted other).isOk) :
      SeesSame s t e

/-- A path that the first scope lets pass and that has a value in the second
one, which is no text to be rendered. -/
structure SuppliedBy (s t : Scope) (e : Expression) : Prop where
  missing : s.context.lookup? e.path = none
  passes : s.passesThrough e = true
  found : ∃ value, t.context.lookup? e.path = some value ∧ t.template? value = none
    ∧ (plainValue e.dotted value).isOk = true

structure Predicts (s t : Scope) (common supplied : Expression → Prop) : Prop where
  delimiters : t.delimiters = s.delimiters
  same : ∀ e, common e → SeesSame s t e
  passed : ∀ e, supplied e → SuppliedBy s t e
  closed : ∀ e text, common e → s.context.lookup? e.path = some (.string text) →
    ∀ e' ∈ written s.delimiters text, common e' ∨ supplied e'
  apart : ∀ e e', common e → supplied e' → e.dotted ≠ e'.dotted

/-- The memos of both runs: common names are known to both, with a value or
without one, and supplied names to the second one alone, with a value. -/
structure MemosAlike (common supplied : Expression → Prop) (memo memo' : Memo) : Prop where
  same : ∀ e, common e →
    (memo.lookup e.dotted).map Except.isOk = (memo'.lookup e.dotted).map Except.isOk
  unknown : ∀ e, supplied e → memo.lookup e.dotted = none
  fine : ∀ e known, supplied e → memo'.lookup e.dotted = some known → known.isOk = true

namespace MemosAlike

variable {memo memo' : Memo} {e : Expression} {outcome outcome' : Except Fault String}

theorem nil : MemosAlike common supplied [] [] where
  same _ _ := rfl
  unknown _ _ := rfl
  fine _ _ _ h := by cases h

theorem cons (h : MemosAlike common supplied memo memo')
    (hapart : ∀ e', supplied e' → e'.dotted ≠ e.dotted) (hok : outcome.isOk = outcome'.isOk) :
    MemosAlike common supplied ((e.dotted, outcome) :: memo) ((e.dotted, outcome') :: memo') where
  same e' he' := by
    rw [List.lookup_cons, List.lookup_cons]
    cases e'.dotted == e.dotted with
    | true => exact congrArg some hok
    | false => exact h.same e' he'
  unknown e' he' := by
    rw [lookup_cons_of_ne (hapart e' he')]
    exact h.unknown e' he'
  fine e' known he' := by
    rw [lookup_cons_of_ne (hapart e' he')]
    exact h.fine e' known he'

/-- Only the second run remembers the value of a supplied name. -/
theorem cons_supplied (h : MemosAlike common supplied memo memo')
    (hapart : ∀ e', common e' → e'.dotted ≠ e.dotted) (hok : outcome.isOk = true) :
    MemosAlike common supplied memo ((e.dotted, outcome) :: memo') where
  same e' he' := by
    rw [lookup_cons_of_ne (hapart e' he')]
    exact h.same e' he'
  unknown := h.unknown
  fine e' known he' hknown := by
    rw [List.lookup_cons] at hknown
    split at hknown
    · rw [← Option.some.inj hknown]; exact hok
    · exact h.fine e' known he' hknown

end MemosAlike

/-! ## Rendering in lockstep -/

/-- On these expressions both evaluations succeed or both fail, and they keep
the memos related. -/
def Matches (kind : Memo → Memo → Prop) (evaluate evaluate' : Evaluate)
    (es : List Expression) : Prop :=
  ∀ e ∈ es, ∀ memo memo', kind memo memo' →
    ((evaluate e).run memo).1.isOk = ((evaluate' e).run memo').1.isOk
      ∧ kind ((evaluate e).run memo).2 ((evaluate' e).run memo').2

variable {kind : Memo → Memo → Prop} {evaluate evaluate' : Evaluate}

theorem isNone_toOption {outcome : Except Fault String} :
    outcome.toOption.isNone = !outcome.isOk := by
  cases outcome <;> rfl

theorem renderSegments_alike {segments : List Segment}
    (h : Matches kind evaluate evaluate' (expressions segments)) :
    ∀ {memo memo' : Memo}, kind memo memo' →
      ((renderSegments evaluate segments).run memo).1.faults.map Prod.fst
          = ((renderSegments evaluate' segments).run memo').1.faults.map Prod.fst
        ∧ kind ((renderSegments evaluate segments).run memo).2
          ((renderSegments evaluate' segments).run memo').2 := by
  induction segments with
  | nil => exact fun hmemo => ⟨rfl, hmemo⟩
  | cons segment rest ih =>
      intro memo memo' hmemo
      cases segment with
      | text cs =>
          rw [renderSegments_text, renderSegments_text]
          exact ih h hmemo
      | expression e =>
          obtain ⟨hok, hmemos⟩ := h e (List.mem_cons_self ..) memo memo' hmemo
          obtain ⟨hfaults, hafter⟩ := ih (fun e' he' => h e' (List.mem_cons_of_mem _ he')) hmemos
          rw [renderSegments_expression, renderSegments_expression]
          refine ⟨?_, hafter⟩
          rw [Rendering.after_faults, Rendering.after_faults, hfaults, isNone_toOption,
            isNone_toOption, hok]

theorem renderWith_alike {d : Delimiters} {text : String}
    (h : Matches kind evaluate evaluate' (written d text)) {memo memo' : Memo}
    (hmemo : kind memo memo') :
    ((renderWith evaluate d text).run memo).1.faults.map Prod.fst
        = ((renderWith evaluate' d text).run memo').1.faults.map Prod.fst
      ∧ kind ((renderWith evaluate d text).run memo).2
        ((renderWith evaluate' d text).run memo').2 := by
  unfold renderWith
  cases hread : Template.read d text with
  | error fault => exact ⟨rfl, hmemo⟩
  | ok segments =>
      rw [Template.written_of_read hread] at h
      exact renderSegments_alike h hmemo

theorem isOk_settle (path : String) (r : Rendering) :
    (r.settle path).isOk = (r.faults.map Prod.fst).isEmpty := by
  rcases r with ⟨text, _ | ⟨⟨raw, fault⟩, rest⟩⟩ <;> rfl

/-! ## Evaluating in lockstep -/

/-- A supplied expression has a value in both scopes. -/
theorem evaluate_supplied (h : Predicts s t common supplied) {fuel fuel' : Nat}
    {pending : List String} {e : Expression} {memo memo' : Memo} (he : supplied e)
    (hpending : e.dotted ∉ pending) (hmemo : MemosAlike common supplied memo memo') :
    ((s.evaluate (fuel + 1) pending e).run memo).1.isOk
        = ((t.evaluate (fuel' + 1) pending e).run memo').1.isOk
      ∧ MemosAlike common supplied ((s.evaluate (fuel + 1) pending e).run memo).2
        ((t.evaluate (fuel' + 1) pending e).run memo').2 := by
  obtain ⟨hmissing, hpass, value, hfound, htemplate, hplain⟩ := h.passed e he
  rw [evaluate_missing (hmemo.unknown e he) hpending hmissing, hpass]
  cases hknown : memo'.lookup e.dotted with
  | some known =>
      rw [evaluate_known hknown]
      exact ⟨(hmemo.fine e known he hknown).symm, hmemo⟩
  | none =>
      rw [evaluate_plain hknown hpending hfound htemplate]
      exact ⟨hplain.symm, hmemo.cons_supplied (fun e' he' => h.apart e' e he' he) hplain⟩

/-- An expression has a value in both scopes or in neither, whatever was
evaluated before and whatever is pending. -/
theorem evaluate_alike (h : Predicts s t common supplied) {first : String} {fuel fuel' : Nat}
    {pending : List String} {e : Expression} {memo memo' : Memo}
    (hleft : Pending s first fuel pending) (hright : Pending t first fuel' pending)
    (hapart : ∀ e', supplied e' → e'.dotted ∉ pending) (he : common e ∨ supplied e)
    (hname : e.dotted ∈ first :: s.names) (hname' : e.dotted ∈ first :: t.names)
    (hmemo : MemosAlike common supplied memo memo') :
    ((s.evaluate fuel pending e).run memo).1.isOk = ((t.evaluate fuel' pending e).run memo').1.isOk
      ∧ MemosAlike common supplied ((s.evaluate fuel pending e).run memo).2
        ((t.evaluate fuel' pending e).run memo').2 := by
  induction fuel generalizing fuel' pending e memo memo' with
  | zero => exact absurd hleft.fuel_pos (Nat.lt_irrefl 0)
  | succ fuel ih =>
      obtain ⟨fuel', rfl⟩ := Nat.exists_eq_succ_of_ne_zero hright.fuel_pos.ne'
      rcases he with he | he
      swap
      · exact evaluate_supplied h he (hapart e he) hmemo
      have hsame := hmemo.same e he
      cases hknown : memo.lookup e.dotted with
      | some known =>
          rw [hknown] at hsame
          obtain ⟨known', hknown', hok⟩ := Option.map_eq_some_iff.mp hsame.symm
          rw [evaluate_known hknown, evaluate_known hknown']
          exact ⟨hok.symm, hmemo⟩
      | none =>
          have hknown' : memo'.lookup e.dotted = none := by
            rw [hknown] at hsame
            exact Option.map_eq_none_iff.mp hsame.symm
          by_cases hpending : e.dotted ∈ pending
          · rw [evaluate_pending hknown hpending, evaluate_pending hknown' hpending]
            exact ⟨rfl, hmemo⟩
          · cases h.same e he with
            | missing hfound hfound' hpass =>
                rw [evaluate_missing hknown hpending hfound,
                  evaluate_missing hknown' hpending hfound', hpass]
                exact ⟨by split <;> rfl, hmemo⟩
            | @found value other hfound hfound' hsees hplain =>
                have hnew : ∀ e', supplied e' → e'.dotted ≠ e.dotted :=
                  fun e' he' heq => h.apart e e' he he' heq.symm
                cases htemplate : s.template? value with
                | none =>
                    have htemplate' : t.template? other = none := hsees ▸ htemplate
                    rw [evaluate_plain hknown hpending hfound htemplate,
                      evaluate_plain hknown' hpending hfound' htemplate']
                    exact ⟨hplain, hmemo.cons hnew hplain⟩
                | some text =>
                    have htemplate' : t.template? other = some text := hsees ▸ htemplate
                    obtain ⟨rfl, -⟩ := template?_eq_some htemplate
                    obtain ⟨rfl, -⟩ := template?_eq_some htemplate'
                    have hinner : Matches (MemosAlike common supplied)
                        (s.evaluate fuel (e.dotted :: pending))
                        (t.evaluate fuel' (e.dotted :: pending)) (written s.delimiters text) := by
                      intro e' hwritten memo memo' hmemo
                      have hwritten' : e' ∈ written t.delimiters text := by
                        rwa [h.delimiters]
                      have hapart' : ∀ e', supplied e' → e'.dotted ∉ e.dotted :: pending := by
                        intro e'' he'' hmem
                        rcases List.mem_cons.mp hmem with heq | hmem
                        · exact hnew e'' he'' heq
                        · exact hapart e'' he'' hmem
                      exact ih (hleft.push hpending hname) (hright.push hpending hname') hapart'
                        (h.closed e text he hfound e' hwritten)
                        (List.mem_cons_of_mem _ (mem_names_of_lookup? hfound hwritten))
                        (List.mem_cons_of_mem _ (mem_names_of_lookup? hfound' hwritten')) hmemo
                    obtain ⟨hfaults, hafter⟩ := renderWith_alike hinner hmemo
                    rw [evaluate_template hknown hpending hfound htemplate,
                      evaluate_template hknown' hpending hfound' htemplate', h.delimiters]
                    have hok := congrArg List.isEmpty hfaults
                    rw [← isOk_settle e.dotted, ← isOk_settle e.dotted] at hok
                    exact ⟨hok, hafter.cons hnew hok⟩

/-! ## Whole values -/

/-- Two runs report the same and leave related memos. -/
structure ReportSame {α : Type} (kind : Memo → Memo → Prop)
    (run run' : (α × List Diagnostic) × Memo) : Prop where
  found : run.1.2.map site = run'.1.2.map site
  kind : kind run.2 run'.2

theorem renderText_alike (hdelimiters : t.delimiters = s.delimiters) (path : String)
    {text : String} {memo memo' : Memo}
    (h : Matches kind (s.evaluate s.fuel []) (t.evaluate t.fuel []) (written s.delimiters text))
    (hmemo : kind memo memo') :
    ReportSame kind ((s.renderValue path (.string text)).run memo)
      ((t.renderValue path (.string text)).run memo') := by
  cases hopens : s.delimiters.opensIn text with
  | false =>
      simp only [Scope.renderValue, hdelimiters, hopens]
      exact ⟨rfl, hmemo⟩
  | true =>
      obtain ⟨hfaults, hafter⟩ := renderWith_alike h hmemo
      simp only [Scope.renderValue, Scope.renderAt, Scope.render, hdelimiters, hopens]
      refine ⟨?_, hafter⟩
      have hsites := congrArg (List.map fun raw => (path, some raw)) hfaults
      rw [← map_site_diagnostics, ← map_site_diagnostics] at hsites
      exact hsites

mutual

theorem renderValue_alike (hdelimiters : t.delimiters = s.delimiters) :
    ∀ (path : String) (tree : Json) {memo memo' : Memo},
      (∀ text ∈ tree.texts,
        Matches kind (s.evaluate s.fuel []) (t.evaluate t.fuel []) (written s.delimiters text)) →
      kind memo memo' →
      ReportSame kind ((s.renderValue path tree).run memo) ((t.renderValue path tree).run memo')
  | path, .string text, memo, memo', h, hmemo =>
      renderText_alike hdelimiters path (h text (List.mem_singleton.mpr rfl)) hmemo
  | path, .array items, memo, memo', h, hmemo => by
      have hrun := renderItems_alike hdelimiters path 0 items h hmemo
      exact ⟨hrun.found, hrun.kind⟩
  | path, .object members, memo, memo', h, hmemo => by
      have hrun := renderMembers_alike hdelimiters path members h hmemo
      exact ⟨hrun.found, hrun.kind⟩
  | _, .null, _, _, _, hmemo => ⟨rfl, hmemo⟩
  | _, .bool _, _, _, _, hmemo => ⟨rfl, hmemo⟩
  | _, .int _, _, _, _, hmemo => ⟨rfl, hmemo⟩
  | _, .float _, _, _, _, hmemo => ⟨rfl, hmemo⟩

theorem renderItems_alike (hdelimiters : t.delimiters = s.delimiters) :
    ∀ (path : String) (index : Nat) (items : List Json) {memo memo' : Memo},
      (∀ text ∈ Json.itemTexts items,
        Matches kind (s.evaluate s.fuel []) (t.evaluate t.fuel []) (written s.delimiters text)) →
      kind memo memo' →
      ReportSame kind ((s.renderItems path index items).run memo)
        ((t.renderItems path index items).run memo')
  | _, _, [], _, _, _, hmemo => ⟨rfl, hmemo⟩
  | path, index, item :: rest, memo, memo', h, hmemo => by
      have hhere := renderValue_alike hdelimiters (PropertyPath.item path index) item
        (fun text htext => h text (List.mem_append_left _ htext)) hmemo
      have hlater := renderItems_alike hdelimiters path (index + 1) rest
        (fun text htext => h text (List.mem_append_right _ htext)) hhere.kind
      refine ⟨?_, hlater.kind⟩
      have hboth := congrArg₂ (· ++ ·) hhere.found hlater.found
      rw [← List.map_append, ← List.map_append] at hboth
      exact hboth

theorem renderMembers_alike (hdelimiters : t.delimiters = s.delimiters) :
    ∀ (path : String) (members : Json.Members) {memo memo' : Memo},
      (∀ text ∈ Json.memberTexts members,
        Matches kind (s.evaluate s.fuel []) (t.evaluate t.fuel []) (written s.delimiters text)) →
      kind memo memo' →
      ReportSame kind ((s.renderMembers path members).run memo)
        ((t.renderMembers path members).run memo')
  | _, [], _, _, _, hmemo => ⟨rfl, hmemo⟩
  | path, (k, v) :: rest, memo, memo', h, hmemo => by
      have hhere := renderValue_alike hdelimiters (PropertyPath.join path k) v
        (fun text htext => h text (List.mem_append_left _ htext)) hmemo
      have hlater := renderMembers_alike hdelimiters path rest
        (fun text htext => h text (List.mem_append_right _ htext)) hhere.kind
      refine ⟨?_, hlater.kind⟩
      have hboth := congrArg₂ (· ++ ·) hhere.found hlater.found
      rw [← List.map_append, ← List.map_append] at hboth
      exact hboth

end

/-- Of a value whose expressions are common or supplied, one run reports the
same in both scopes. -/
theorem sites_renderValue_eq (h : Predicts s t common supplied) (path : String) {tree : Json}
    (htree : ∀ text ∈ tree.texts, ∀ e ∈ written s.delimiters text, common e ∨ supplied e) :
    ((s.renderValue path tree).run []).1.2.map site
      = ((t.renderValue path tree).run []).1.2.map site := by
  have hmatches : ∀ text ∈ tree.texts, Matches (MemosAlike common supplied)
      (s.evaluate s.fuel []) (t.evaluate t.fuel []) (written s.delimiters text) := by
    intro text htext e hwritten memo memo' hmemo
    exact evaluate_alike h (.start s e.dotted) (.start t e.dotted)
      (fun _ _ hmem => (List.not_mem_nil hmem).elim) (htree text htext e hwritten)
      (List.mem_cons_self ..) (List.mem_cons_self ..) hmemo
  exact (renderValue_alike h.delimiters path tree hmatches .nil).found

/-! ## What any run does -/

/-- A text that is no template is reported. -/
theorem read_of_unreported_text (path : String) {text : String} {memo : Memo}
    (h : ((s.renderValue path (.string text)).run memo).1.2 = []) :
    ∃ segments, Template.read s.delimiters text = .ok segments := by
  cases hopens : s.delimiters.opensIn text with
  | false =>
      obtain ⟨segments, hread, -⟩ := Template.read_of_unopened hopens
      exact ⟨segments, hread⟩
  | true =>
      cases hread : Template.read s.delimiters text with
      | ok segments => exact ⟨segments, rfl⟩
      | error fault =>
          simp only [Scope.renderValue, Scope.renderAt, Scope.render, renderWith, hopens,
            hread] at h
          exact absurd h (List.cons_ne_nil _ _)

mutual

/-- Where nothing is reported, every text is a template. -/
theorem read_of_unreported : ∀ (path : String) (tree : Json) {memo : Memo},
    ((s.renderValue path tree).run memo).1.2 = [] →
      ∀ text ∈ tree.texts, ∃ segments, Template.read s.delimiters text = .ok segments
  | path, .string _, _, h, text, htext => by
      obtain rfl := List.mem_singleton.mp htext
      exact read_of_unreported_text path h
  | path, .array items, _, h, text, htext => read_of_unreported_items path 0 items h text htext
  | path, .object members, _, h, text, htext =>
      read_of_unreported_members path members h text htext
  | _, .null, _, _, _, htext => absurd htext List.not_mem_nil
  | _, .bool _, _, _, _, htext => absurd htext List.not_mem_nil
  | _, .int _, _, _, _, htext => absurd htext List.not_mem_nil
  | _, .float _, _, _, _, htext => absurd htext List.not_mem_nil

theorem read_of_unreported_items : ∀ (path : String) (index : Nat) (items : List Json)
    {memo : Memo}, ((s.renderItems path index items).run memo).1.2 = [] →
      ∀ text ∈ Json.itemTexts items, ∃ segments, Template.read s.delimiters text = .ok segments
  | _, _, [], _, _, _, htext => absurd htext List.not_mem_nil
  | path, index, item :: rest, _, h, text, htext => by
      obtain ⟨hhere, hlater⟩ := List.append_eq_nil_iff.mp h
      rcases List.mem_append.mp htext with htext | htext
      · exact read_of_unreported _ item hhere text htext
      · exact read_of_unreported_items path (index + 1) rest hlater text htext

theorem read_of_unreported_members : ∀ (path : String) (members : Json.Members) {memo : Memo},
    ((s.renderMembers path members).run memo).1.2 = [] →
      ∀ text ∈ Json.memberTexts members,
        ∃ segments, Template.read s.delimiters text = .ok segments
  | _, [], _, _, _, htext => absurd htext List.not_mem_nil
  | path, (k, v) :: rest, _, h, text, htext => by
      obtain ⟨hhere, hlater⟩ := List.append_eq_nil_iff.mp h
      rcases List.mem_append.mp htext with htext | htext
      · exact read_of_unreported _ v hhere text htext
      · exact read_of_unreported_members path rest hlater text htext

end

mutual

/-- Rendering changes texts and nothing else. -/
theorem blank_renderValue : ∀ (path : String) (tree : Json) (memo : Memo),
    ((s.renderValue path tree).run memo).1.1.blank = tree.blank
  | path, .string text, memo => by
      cases hopens : s.delimiters.opensIn text <;>
        (simp only [Scope.renderValue, hopens]; rfl)
  | path, .array items, memo => congrArg Json.array (blank_renderItems path 0 items memo)
  | path, .object members, memo => congrArg Json.object (blank_renderMembers path members memo)
  | _, .null, _ => rfl
  | _, .bool _, _ => rfl
  | _, .int _, _ => rfl
  | _, .float _, _ => rfl

theorem blank_renderItems : ∀ (path : String) (index : Nat) (items : List Json) (memo : Memo),
    Json.mapItemTexts (fun _ => "") ((s.renderItems path index items).run memo).1.1
      = Json.mapItemTexts (fun _ => "") items
  | _, _, [], _ => rfl
  | path, index, item :: rest, memo =>
      congrArg₂ List.cons (blank_renderValue (PropertyPath.item path index) item memo)
        (blank_renderItems path (index + 1) rest _)

theorem blank_renderMembers : ∀ (path : String) (members : Json.Members) (memo : Memo),
    Json.mapMemberTexts (fun _ => "") ((s.renderMembers path members).run memo).1.1
      = Json.mapMemberTexts (fun _ => "") members
  | _, [], _ => rfl
  | path, (k, v) :: rest, memo =>
      congrArg₂ List.cons
        (congrArg (Prod.mk k) (blank_renderValue (PropertyPath.join path k) v memo))
        (blank_renderMembers path rest _)

end

end Manifest.Interpolation
