import Manifest.Proofs.Interpolation.Unresolved
/-!
# Forwarding

Where the text at a path is one expression and nothing else, the path forwards the
value of that expression: both stand for the same text, or both fail
(`Forwards.render`).

While the forwarded value is worked out, the forwarding path is pending in the one run
and not in the other. An expression with the written form of that path is a circle in
the one run. In the other it leads back to the forwarded path and is a circle as well,
unless it has another path; then it has to fail in some other way (`Distinguished`).
So the two runs go on together until both fail (`Forwards.evaluate_together`).
-/

namespace Manifest.Interpolation

open Template (Expression Segment expressions written)

variable {s : Scope} {fuel : Nat} {pending : List String} {e : Expression} {memo : Memo}

/-! ## What is pending stays unknown -/

theorem evaluate_pending_unknown {name : String} (hname : name ∈ pending)
    (hmemo : memo.lookup name = none) :
    ((s.evaluate fuel pending e).run memo).2.lookup name = none := by
  induction fuel generalizing pending e memo with
  | zero => exact hmemo
  | succ fuel ih =>
      have hstep := step_evaluate s fuel pending e memo
      generalize (s.evaluate (fuel + 1) pending e).run memo = run at hstep ⊢
      cases hstep with
      | known | circular | raw | missing => exact hmemo
      | plain _ hpending => rwa [lookup_cons_of_ne (ne_of_mem_of_not_mem hname hpending)]
      | @template text r after _ hpending _ hrun =>
          have hinner : ∀ e' ∈ written s.delimiters text, ∀ memo : Memo,
              memo.lookup name = none →
                ((s.evaluate fuel (e.dotted :: pending) e').run memo).2.lookup name = none :=
            fun e' _ memo hmemo => ih (List.mem_cons_of_mem _ hname) hmemo
          have hafter := renderWith_kept hinner hmemo
          rw [hrun] at hafter
          rwa [lookup_cons_of_ne (ne_of_mem_of_not_mem hname hpending)]

/-! ## Two runs together -/

/-- Two evaluations end in the same way, or both fail. -/
inductive Together (run run' : Except Fault String × Memo) : Prop
  | same (h : run = run')
  | failed (h : run.1.toOption = none) (h' : run'.1.toOption = none)

theorem Together.toOption_eq {run run' : Except Fault String × Memo} (h : Together run run') :
    run.1.toOption = run'.1.toOption := by
  cases h with
  | same h => rw [h]
  | failed h h' => rw [h, h']

/-- Two renderings are the same, or both leave an expression that fails. -/
inductive RenderedTogether (run run' : Rendering × Memo) : Prop
  | same (h : run = run')
  | failed (h : run.1.faults ≠ []) (h' : run'.1.faults ≠ [])

theorem after_faults_ne {r : Rendering} {outcome : Except Fault String}
    (h : outcome.toOption = none ∨ r.faults ≠ []) : (r.after e outcome).faults ≠ [] := by
  cases outcome with
  | error fault => exact List.cons_ne_nil _ _
  | ok value =>
      rcases h with h | h
      · cases h
      · exact h

theorem settle_faults {path : String} {r : Rendering} (h : r.faults ≠ []) :
    (r.settle path).toOption = none := by
  rw [toOption_settle, if_neg (by simpa using h)]

section

variable {kind : Memo → Prop} {f g : Evaluate} {d : Delimiters} {text : String}

theorem renderSegments_together {segments : List Segment}
    (h : ∀ e ∈ expressions segments, ∀ memo, kind memo →
      Together ((f e).run memo) ((g e).run memo))
    (hkept : ∀ e ∈ expressions segments, ∀ memo, kind memo → kind ((f e).run memo).2) :
    ∀ {memo : Memo}, kind memo →
      RenderedTogether ((renderSegments f segments).run memo)
        ((renderSegments g segments).run memo) := by
  induction segments with
  | nil => exact fun _ => .same rfl
  | cons segment rest ih =>
      intro memo hmemo
      cases segment with
      | text cs =>
          rw [renderSegments_text, renderSegments_text]
          cases ih h hkept hmemo with
          | same heq => exact .same (by rw [heq])
          | failed hf hg => exact .failed hf hg
      | expression e =>
          obtain ⟨hhere, hrest⟩ := List.forall_mem_cons.mp h
          obtain ⟨hkeptHere, hkeptRest⟩ := List.forall_mem_cons.mp hkept
          rw [renderSegments_expression, renderSegments_expression]
          cases hhere memo hmemo with
          | failed hf hg =>
              exact .failed (after_faults_ne (Or.inl hf)) (after_faults_ne (Or.inl hg))
          | same heq =>
              rw [← heq]
              cases ih hrest hkeptRest (hkeptHere memo hmemo) with
              | same heq => exact .same (by dsimp only; rw [heq])
              | failed hf hg =>
                  exact .failed (after_faults_ne (Or.inr hf)) (after_faults_ne (Or.inr hg))

theorem renderWith_together
    (h : ∀ e ∈ written d text, ∀ memo, kind memo →
      Together ((f e).run memo) ((g e).run memo))
    (hkept : ∀ e ∈ written d text, ∀ memo, kind memo → kind ((f e).run memo).2)
    (hmemo : kind memo) :
    RenderedTogether ((renderWith f d text).run memo) ((renderWith g d text).run memo) := by
  unfold renderWith
  cases hread : Template.read d text with
  | error fault => exact .same rfl
  | ok segments =>
      rw [Template.written_of_read hread] at h hkept
      exact renderSegments_together h hkept hmemo

end

/-- What is rendered together settles together. -/
theorem RenderedTogether.settle {run run' : Rendering × Memo} (h : RenderedTogether run run')
    (path : String) :
    Together (run.1.settle path, (path, run.1.settle path) :: run.2)
      (run'.1.settle path, (path, run'.1.settle path) :: run'.2) := by
  cases h with
  | same h => exact .same (by rw [h])
  | failed h h' => exact .failed (settle_faults h) (settle_faults h')

/-! ## A text that is one expression -/

/-- The text at `p` is an expression with the path `q` and nothing else. -/
def Forwards (s : Scope) (p q : List String) : Prop :=
  ∃ text e, s.context.lookup? p = some (.string text)
    ∧ Template.read s.delimiters text = .ok [.expression e] ∧ e.path = q

/-- The path of the expression leads nowhere, or to an object. -/
inductive Hopeless (s : Scope) (e : Expression) : Prop
  | missing (hmissing : s.context.lookup? e.path = none) (hpass : s.passesThrough e = false)
  | object {members : Json.Members} (hfound : s.context.lookup? e.path = some (.object members))

/-- All expressions of the context with the written form of `p` have that path, or are
hopeless. -/
def Distinguished (s : Scope) (p : List String) : Prop :=
  ∀ text ∈ s.context.toJson.texts, ∀ e ∈ written s.delimiters text,
    e.dotted = ReferencePath.text p → e.path = p ∨ Hopeless s e

theorem opensIn_of_read {d : Delimiters} {text : String} {e : Expression} {rest : List Segment}
    (h : Template.read d text = .ok (.expression e :: rest)) : d.opensIn text = true := by
  by_contra hunopened
  obtain ⟨segments, hread, hnone, -⟩ :=
    Template.read_of_unopened (Bool.eq_false_iff.mpr hunopened)
  rw [h] at hread
  obtain rfl := Except.ok.inj hread
  cases hnone

theorem renderWith_single {evaluate : Evaluate} {d : Delimiters} {text : String}
    (h : Template.read d text = .ok [.expression e]) (memo : Memo) :
    (renderWith evaluate d text).run memo
      = ((⟨"", []⟩ : Rendering).after e ((evaluate e).run memo).1, ((evaluate e).run memo).2) := by
  rw [renderWith, h]
  exact renderSegments_expression evaluate e [] memo

theorem settle_single (path : String) (outcome : Except Fault String) :
    (((⟨"", []⟩ : Rendering).after e outcome).settle path).toOption = outcome.toOption := by
  cases outcome with
  | error fault => rfl
  | ok value => exact congrArg some (String.append_empty ..)

/-- An evaluation of a hopeless expression fails. -/
theorem Hopeless.evaluate (h : Hopeless s e) (hmemo : memo.lookup e.dotted = none) :
    ((s.evaluate fuel pending e).run memo).1.toOption = none := by
  cases fuel with
  | zero => rfl
  | succ fuel =>
      have hstep := step_evaluate s fuel pending e memo
      generalize (s.evaluate (fuel + 1) pending e).run memo = run at hstep ⊢
      cases hstep with
      | known hknown => rw [hmemo] at hknown; cases hknown
      | circular => rfl
      | missing => rfl
      | raw _ _ hmissing hpass =>
          cases h with
          | missing _ hnot => rw [hpass] at hnot; cases hnot
          | object hfound => rw [hmissing] at hfound; cases hfound
      | plain _ _ hfound =>
          cases h with
          | missing hmissing => rw [hmissing] at hfound; cases hfound
          | object hobject =>
              rw [hobject] at hfound
              obtain rfl := Option.some.inj hfound
              rfl
      | template _ _ hfound =>
          cases h with
          | missing hmissing => rw [hmissing] at hfound; cases hfound
          | object hobject => rw [hobject] at hfound; cases hfound

section

variable {p q : List String} {fuel' : Nat} {pending' : List String}

/-- A run with the forwarding path pending and one without it. -/
structure Beside (s : Scope) (p q : List String) (fuel fuel' : Nat)
    (pending pending' : List String) : Prop where
  first : Pending s (ReferencePath.text p) fuel pending
  second : Pending s (ReferencePath.text q) fuel' pending'
  pending : ∀ name, name ∈ pending ↔ name = ReferencePath.text p ∨ name ∈ pending'
  fresh : ReferencePath.text p ∉ pending'
  forwarded : ReferencePath.text q ∈ pending'

theorem Beside.push (h : Beside s p q (fuel + 1) (fuel' + 1) pending pending') {name : String}
    (hnew : name ∉ pending) (hname : name ∈ s.names) :
    Beside s p q fuel fuel' (name :: pending) (name :: pending') where
  first := h.first.push hnew (List.mem_cons_of_mem _ hname)
  second := h.second.push (fun hmem => hnew ((h.pending name).mpr (Or.inr hmem)))
    (List.mem_cons_of_mem _ hname)
  pending other := by
    rw [List.mem_cons, List.mem_cons, h.pending]
    exact or_left_comm
  fresh := by
    rw [List.mem_cons, not_or]
    refine ⟨fun heq => hnew ?_, h.fresh⟩
    exact heq ▸ (h.pending _).mpr (Or.inl rfl)
  forwarded := List.mem_cons_of_mem _ h.forwarded

/-- Nothing is known of either path. -/
structure Unknown (p q : List String) (memo : Memo) : Prop where
  forwarding : memo.lookup (ReferencePath.text p) = none
  forwarded : memo.lookup (ReferencePath.text q) = none

/-- What is pending in the first run stays unknown in it. -/
theorem Beside.unknown (h : Beside s p q fuel fuel' pending pending') (hmemo : Unknown p q memo) :
    Unknown p q ((s.evaluate fuel pending e).run memo).2 where
  forwarding := evaluate_pending_unknown ((h.pending _).mpr (Or.inl rfl)) hmemo.forwarding
  forwarded := evaluate_pending_unknown ((h.pending _).mpr (Or.inr h.forwarded)) hmemo.forwarded

/-- What is pending in neither run ends in both in the same way if its text does. -/
theorem evaluate_neither (hknown : memo.lookup e.dotted = none) (hpending : e.dotted ∉ pending)
    (hpending' : e.dotted ∉ pending')
    (hinner : ∀ text, s.context.lookup? e.path = some (.string text) →
      RenderedTogether
        ((renderWith (s.evaluate fuel (e.dotted :: pending)) s.delimiters text).run memo)
        ((renderWith (s.evaluate fuel' (e.dotted :: pending')) s.delimiters text).run memo)) :
    Together ((s.evaluate (fuel + 1) pending e).run memo)
      ((s.evaluate (fuel' + 1) pending' e).run memo) := by
  cases hfound : s.context.lookup? e.path with
  | none =>
      rw [evaluate_missing hknown hpending hfound, evaluate_missing hknown hpending' hfound]
      exact .same rfl
  | some value =>
      cases htemplate : s.template? value with
      | none =>
          rw [evaluate_plain hknown hpending hfound htemplate,
            evaluate_plain hknown hpending' hfound htemplate]
          exact .same rfl
      | some text =>
          rw [evaluate_template hknown hpending hfound htemplate,
            evaluate_template hknown hpending' hfound htemplate]
          obtain ⟨rfl, -⟩ := template?_eq_some htemplate
          exact (hinner text hfound).settle e.dotted

/-- Where only the second run may look up the forwarding path, it comes back to the
forwarded one. -/
theorem Forwards.evaluate_back (h : Forwards s p q) (hpath : e.path = p)
    (hknown : memo.lookup e.dotted = none) (hnew : e.dotted ∉ pending)
    (hforwarded : ReferencePath.text q ∈ pending)
    (hmemo : memo.lookup (ReferencePath.text q) = none) :
    ((s.evaluate (fuel + 1) pending e).run memo).1.toOption = none := by
  obtain ⟨text, inner, hfound, hread, rfl⟩ := h
  have htemplate : s.template? (.string text) = some text := if_pos (opensIn_of_read hread)
  rw [evaluate_template hknown hnew (hpath ▸ hfound) htemplate, renderWith_single hread]
  refine settle_faults (after_faults_ne (Or.inl ?_))
  cases fuel with
  | zero => rfl
  | succ fuel =>
      rw [evaluate_pending hmemo (List.mem_cons_of_mem _ hforwarded)]
      rfl

/-- The two runs go on together. -/
theorem Forwards.evaluate_together (h : Forwards s p q) (hp : Distinguished s p)
    (hbeside : Beside s p q fuel fuel' pending pending') (hmemo : Unknown p q memo)
    {text : String} (htext : text ∈ s.context.toJson.texts) (he : e ∈ written s.delimiters text) :
    Together ((s.evaluate fuel pending e).run memo) ((s.evaluate fuel' pending' e).run memo) := by
  induction fuel generalizing fuel' pending pending' memo text e with
  | zero => exact absurd hbeside.first.fuel_pos (Nat.lt_irrefl 0)
  | succ fuel ih =>
      obtain ⟨fuel', rfl⟩ := Nat.exists_eq_succ_of_ne_zero hbeside.second.fuel_pos.ne'
      cases hknown : memo.lookup e.dotted with
      | some outcome =>
          rw [evaluate_known hknown, evaluate_known hknown]
          exact .same rfl
      | none =>
          by_cases hpending' : e.dotted ∈ pending'
          · have hpending := (hbeside.pending _).mpr (Or.inr hpending')
            rw [evaluate_pending hknown hpending, evaluate_pending hknown hpending']
            exact .same rfl
          · by_cases hself : e.dotted = ReferencePath.text p
            · -- a circle in the first run
              have hpending := (hbeside.pending _).mpr (Or.inl hself)
              rw [evaluate_pending hknown hpending]
              refine .failed rfl ?_
              rcases hp text htext e he hself with hpath | hhopeless
              · exact h.evaluate_back hpath hknown hpending' hbeside.forwarded hmemo.forwarded
              · exact hhopeless.evaluate hknown
            · have hpending : e.dotted ∉ pending :=
                fun hmem => ((hbeside.pending _).mp hmem).elim hself hpending'
              refine evaluate_neither hknown hpending hpending' fun inner hfound => ?_
              have hinner := Json.mem_texts_of_lookup? hfound
              have hname : e.dotted ∈ s.names :=
                List.mem_flatMap.mpr ⟨text, htext, List.mem_map_of_mem he⟩
              have hnext := hbeside.push hpending hname
              exact renderWith_together (fun e' he' memo hmemo => ih hnext hmemo hinner he')
                (fun e' he' memo hmemo => hnext.unknown hmemo) hmemo

/-- The runs part where the one has come from the forwarding path to the forwarded one, and
the other has started there. -/
theorem Forwards.beside (h : Forwards s p q)
    (hne : ReferencePath.text p ≠ ReferencePath.text q) :
    Beside s p q (textSize s.context.toJson) (textSize s.context.toJson + 1)
      [ReferencePath.text q, ReferencePath.text p] [ReferencePath.text q] := by
  obtain ⟨text, inner, hfound, hread, rfl⟩ := h
  have hname : inner.dotted ∈ s.names := by
    refine mem_names_of_lookup? hfound ?_
    rw [Template.written_of_read hread]
    exact List.mem_singleton_self inner
  have hforwarding : Pending s (ReferencePath.text p) (textSize s.context.toJson + 1)
      [ReferencePath.text p] :=
    (Pending.start s _).push List.not_mem_nil (List.mem_cons_self ..)
  constructor
  case first =>
    refine hforwarding.push (fun hmem => hne (List.mem_singleton.mp hmem).symm) ?_
    exact List.mem_cons_of_mem _ hname
  case second => exact (Pending.start s _).push List.not_mem_nil (List.mem_cons_self ..)
  case pending =>
    intro name
    rw [List.mem_cons, List.mem_singleton, List.mem_singleton, or_comm]
  case fresh => exact fun hmem => hne (List.mem_singleton.mp hmem)
  case forwarded => exact List.mem_singleton_self _

/-- In the end both paths have the same value, or neither has one. -/
theorem Forwards.evaluate (h : Forwards s p q) (hp : Distinguished s p)
    (hne : ReferencePath.text p ≠ ReferencePath.text q) {value : Json}
    (hq : s.context.lookup? q = some value) {e' : Expression} (hpath : e.path = p)
    (hpath' : e'.path = q) :
    ((s.evaluate s.fuel [] e).run []).1.toOption
      = ((s.evaluate s.fuel [] e').run []).1.toOption := by
  have hbeside := h.beside hne
  have ⟨text, inner, hfound, hread, hinner⟩ := h
  subst hpath hinner
  have hsame : e'.dotted = inner.dotted := congrArg ReferencePath.text hpath'
  have htemplate : s.template? (.string text) = some text := if_pos (opensIn_of_read hread)
  have hnew : inner.dotted ∉ [e.dotted] := fun hmem => hne (List.mem_singleton.mp hmem).symm
  rw [Scope.fuel, evaluate_template rfl List.not_mem_nil hfound htemplate, renderWith_single hread]
  dsimp only
  rw [settle_single]
  cases hplain : s.template? value with
  | none =>
      rw [evaluate_plain rfl hnew hq hplain,
        evaluate_plain rfl List.not_mem_nil (hpath' ▸ hq) hplain, hsame]
  | some found =>
      rw [evaluate_template rfl hnew hq hplain,
        evaluate_template rfl List.not_mem_nil (hpath' ▸ hq) hplain, hsame]
      obtain ⟨rfl, -⟩ := template?_eq_some hplain
      have htexts := Json.mem_texts_of_lookup? hq
      have hrendered := renderWith_together
        (fun e' he' memo hmemo => h.evaluate_together hp hbeside hmemo htexts he')
        (fun e' he' memo hmemo => hbeside.unknown hmemo) (⟨rfl, rfl⟩ : Unknown e.path inner.path [])
      exact (hrendered.settle inner.dotted).toOption_eq

/-- Both renderings come to the same text, or both fail. -/
def Rendering.Agree (r r' : Rendering) : Prop :=
  r.faults = [] ∧ r'.faults = [] ∧ r.text = r'.text ∨ r.faults ≠ [] ∧ r'.faults ≠ []

theorem after_agree {e' : Expression} {outcome outcome' : Except Fault String}
    (h : outcome.toOption = outcome'.toOption) :
    Rendering.Agree ((⟨"", []⟩ : Rendering).after e outcome)
      ((⟨"", []⟩ : Rendering).after e' outcome') := by
  cases outcome with
  | error fault =>
      exact Or.inr ⟨after_faults_ne (Or.inl rfl), after_faults_ne (Or.inl h.symm)⟩
  | ok value =>
      cases outcome' with
      | error fault => cases h
      | ok value' => exact Or.inl ⟨rfl, rfl, congrArg (· ++ "") (Option.some.inj h)⟩

/-- An expression with the forwarding path is rendered like one with the forwarded path. -/
theorem Forwards.render (h : Forwards s p q) (hp : Distinguished s p)
    (hne : ReferencePath.text p ≠ ReferencePath.text q) {value : Json}
    (hq : s.context.lookup? q = some value) {text text' : String} {e' : Expression}
    (hread : Template.read s.delimiters text = .ok [.expression e]) (hpath : e.path = p)
    (hread' : Template.read s.delimiters text' = .ok [.expression e']) (hpath' : e'.path = q) :
    Rendering.Agree ((s.render text).run []).1 ((s.render text').run []).1 := by
  rw [Scope.render, Scope.render, renderWith_single hread, renderWith_single hread']
  exact after_agree (h.evaluate hp hne hq hpath hpath')

end

end Manifest.Interpolation
