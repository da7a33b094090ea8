import Mathlib.Data.List.Nodup
import Manifest.Interpolation
import Manifest.Proofs.Json
import Manifest.Proofs.Template
/-!
# Steps of an evaluation

What one call of `evaluate` does, case by case and in all cases together
(`step_evaluate`), and what rendering does to a list of segments, each as an
equation between runs on a memo. The last part shows that an evaluation never
ends for want of fuel: what is pending stays without repetition among finitely
many names (`Pending`), so that there is fuel wherever an expression is
evaluated (`Pending.fuel_pos`).
-/

namespace Manifest.Interpolation

open Template (Expression Segment expressions written)

variable {s : Scope} {fuel : Nat} {pending : List String} {e : Expression} {memo : Memo}

/-! ## One evaluation -/

theorem template?_eq_some {value : Json} {text : String} (h : s.template? value = some text) :
    value = .string text ∧ s.delimiters.opensIn text = true := by
  cases value with
  | string other =>
      rw [Scope.template?] at h
      split at h
      · next hopens => obtain rfl := Option.some.inj h; exact ⟨rfl, hopens⟩
      · cases h
  | null | bool | int | float | array | object => cases h

theorem evaluate_known {known : Except Fault String} (h : memo.lookup e.dotted = some known) :
    (s.evaluate (fuel + 1) pending e).run memo = (known, memo) := by
  simp only [Scope.evaluate, StateT.run_bind, StateT.run_get, pure_bind, h]
  rfl

theorem evaluate_pending (h : memo.lookup e.dotted = none) (hpending : e.dotted ∈ pending) :
    (s.evaluate (fuel + 1) pending e).run memo = (.error (.circular e.dotted), memo) := by
  simp only [Scope.evaluate, List.contains_eq_mem, hpending, decide_true, ↓reduceIte,
    StateT.run_bind, StateT.run_get, pure_bind, h, StateT.run_pure]
  rfl

theorem evaluate_missing (h : memo.lookup e.dotted = none) (hpending : e.dotted ∉ pending)
    (hfound : s.context.lookup? e.path = none) :
    (s.evaluate (fuel + 1) pending e).run memo =
      (if s.passesThrough e then .ok (String.ofList e.raw) else .error (.missing e.dotted),
        memo) := by
  simp only [Scope.evaluate, List.contains_eq_mem, hpending, decide_false, Bool.false_eq_true,
    ↓reduceIte, hfound, StateT.run_bind, StateT.run_get, pure_bind, h, StateT.run_pure]
  rfl

theorem evaluate_plain {value : Json} (h : memo.lookup e.dotted = none)
    (hpending : e.dotted ∉ pending) (hfound : s.context.lookup? e.path = some value)
    (htemplate : s.template? value = none) :
    (s.evaluate (fuel + 1) pending e).run memo =
      (plainValue e.dotted value, (e.dotted, plainValue e.dotted value) :: memo) := by
  simp only [Scope.evaluate, List.contains_eq_mem, hpending, decide_false, Bool.false_eq_true,
    ↓reduceIte, hfound, htemplate, bind_pure_comp, pure_bind, StateT.run_bind, StateT.run_get, h,
    StateT.run_map, StateT.run_modify, map_pure]
  rfl

theorem evaluate_template {value : Json} {text : String} (h : memo.lookup e.dotted = none)
    (hpending : e.dotted ∉ pending) (hfound : s.context.lookup? e.path = some value)
    (htemplate : s.template? value = some text) :
    (s.evaluate (fuel + 1) pending e).run memo =
      let r := (renderWith (s.evaluate fuel (e.dotted :: pending)) s.delimiters text).run memo
      (r.1.settle e.dotted, (e.dotted, r.1.settle e.dotted) :: r.2) := by
  simp only [Scope.evaluate, List.contains_eq_mem, hpending, decide_false, Bool.false_eq_true,
    ↓reduceIte, hfound, htemplate, bind_pure_comp, pure_bind, StateT.run_bind, StateT.run_get, h,
    StateT.run_map, StateT.run_modify, map_pure]
  rfl

/-- The ways in which an evaluation ends, each with what decides on it: the
memo first, then what is pending, then the context. -/
inductive Step (s : Scope) (fuel : Nat) (pending : List String) (e : Expression) (memo : Memo) :
    Except Fault String × Memo → Prop
  | known {outcome : Except Fault String} (hknown : memo.lookup e.dotted = some outcome) :
    Step s fuel pending e memo (outcome, memo)
  | circular (hknown : memo.lookup e.dotted = none) (hpending : e.dotted ∈ pending) :
    Step s fuel pending e memo (.error (.circular e.dotted), memo)
  | raw (hknown : memo.lookup e.dotted = none) (hpending : e.dotted ∉ pending)
    (hmissing : s.context.lookup? e.path = none) (hpass : s.passesThrough e = true) :
    Step s fuel pending e memo (.ok (String.ofList e.raw), memo)
  | missing (hknown : memo.lookup e.dotted = none) (hpending : e.dotted ∉ pending)
    (hmissing : s.context.lookup? e.path = none) (hpass : s.passesThrough e = false) :
    Step s fuel pending e memo (.error (.missing e.dotted), memo)
  | plain {value : Json} (hknown : memo.lookup e.dotted = none) (hpending : e.dotted ∉ pending)
    (hfound : s.context.lookup? e.path = some value) (htemplate : s.template? value = none) :
    Step s fuel pending e memo
      (plainValue e.dotted value, (e.dotted, plainValue e.dotted value) :: memo)
  | template {text : String} {r : Rendering} {after : Memo}
    (hknown : memo.lookup e.dotted = none) (hpending : e.dotted ∉ pending)
    (hfound : s.context.lookup? e.path = some (.string text))
    (hrun : (renderWith (s.evaluate fuel (e.dotted :: pending)) s.delimiters text).run memo
      = (r, after)) (htemplate : s.template? (.string text) = some text) :
    Step s fuel pending e memo (r.settle e.dotted, (e.dotted, r.settle e.dotted) :: after)

theorem step_evaluate (s : Scope) (fuel : Nat) (pending : List String) (e : Expression)
    (memo : Memo) : Step s fuel pending e memo ((s.evaluate (fuel + 1) pending e).run memo) := by
  cases hknown : memo.lookup e.dotted with
  | some outcome =>
      rw [evaluate_known hknown]
      exact .known hknown
  | none =>
      by_cases hpending : e.dotted ∈ pending
      · rw [evaluate_pending hknown hpending]
        exact .circular hknown hpending
      · cases hfound : s.context.lookup? e.path with
        | none =>
            rw [evaluate_missing hknown hpending hfound]
            cases hpass : s.passesThrough e with
            | true => exact .raw hknown hpending hfound hpass
            | false => exact .missing hknown hpending hfound hpass
        | some value =>
            cases htemplate : s.template? value with
            | none =>
                rw [evaluate_plain hknown hpending hfound htemplate]
                exact .plain hknown hpending hfound htemplate
            | some text =>
                rw [evaluate_template hknown hpending hfound htemplate]
                obtain ⟨rfl, -⟩ := template?_eq_some htemplate
                exact .template hknown hpending hfound rfl htemplate

theorem lookup_cons_of_ne {name other : String} (h : other ≠ name) (memo : Memo)
    (outcome : Except Fault String) :
    List.lookup other ((name, outcome) :: memo) = memo.lookup other := by
  rw [List.lookup_cons, beq_eq_false_iff_ne.mpr h]

/-! ## Segments -/

/-- A rendering behind an expression with the given outcome. -/
def Rendering.after (e : Expression) (r : Rendering) : Except Fault String → Rendering
  | .ok value => ⟨value ++ r.text, r.faults⟩
  | .error fault => ⟨String.ofList e.raw ++ r.text, (String.ofList e.raw, fault) :: r.faults⟩

theorem Rendering.after_text (e : Expression) (r : Rendering) (outcome : Except Fault String) :
    (r.after e outcome).text = outcome.toOption.getD (String.ofList e.raw) ++ r.text := by
  cases outcome <;> rfl

theorem Rendering.after_faults (e : Expression) (r : Rendering) (outcome : Except Fault String) :
    (r.after e outcome).faults.map Prod.fst =
      if outcome.toOption.isNone then String.ofList e.raw :: r.faults.map Prod.fst
      else r.faults.map Prod.fst := by
  cases outcome <;> rfl

theorem renderSegments_text (evaluate : Evaluate) (cs : List Char) (rest : List Segment)
    (memo : Memo) :
    (renderSegments evaluate (.text cs :: rest)).run memo =
      let r := (renderSegments evaluate rest).run memo
      (⟨String.ofList cs ++ r.1.text, r.1.faults⟩, r.2) := by
  simp only [renderSegments, bind_pure_comp, StateT.run_map]
  rfl

theorem renderSegments_expression (evaluate : Evaluate) (e : Expression) (rest : List Segment)
    (memo : Memo) :
    (renderSegments evaluate (.expression e :: rest)).run memo =
      let outcome := (evaluate e).run memo
      let r := (renderSegments evaluate rest).run outcome.2
      (r.1.after e outcome.1, r.2) := by
  rcases houtcome : (evaluate e).run memo with ⟨outcome, memo'⟩
  cases outcome <;>
    (simp only [renderSegments, StateT.run_bind, houtcome, Rendering.after]; rfl)

/-! ## Fuel -/

/-- The written forms of the paths in the texts of the context. -/
def Scope.names (s : Scope) : List String :=
  s.context.toJson.texts.flatMap fun text => (written s.delimiters text).map Expression.dotted

theorem mem_names_of_lookup? {path : List String} {text : String}
    (hfound : s.context.lookup? path = some (.string text))
    (hwritten : e ∈ written s.delimiters text) : e.dotted ∈ s.names :=
  List.mem_flatMap.mpr
    ⟨text, Json.mem_texts_of_lookup? hfound, List.mem_map_of_mem hwritten⟩

mutual

theorem flatMap_texts_length_le {f : String → List String}
    (hf : ∀ text, (f text).length ≤ text.length) :
    ∀ value : Json, (value.texts.flatMap f).length ≤ textSize value
  | .string text => by
      rw [Json.texts, List.flatMap_singleton, textSize]
      exact hf text
  | .array items => flatMap_itemTexts_length_le hf items
  | .object members => flatMap_memberTexts_length_le hf members
  | .null => Nat.le_refl 0
  | .bool _ => Nat.le_refl 0
  | .int _ => Nat.le_refl 0
  | .float _ => Nat.le_refl 0

theorem flatMap_itemTexts_length_le {f : String → List String}
    (hf : ∀ text, (f text).length ≤ text.length) :
    ∀ items : List Json, ((Json.itemTexts items).flatMap f).length ≤ textSizeItems items
  | [] => Nat.le_refl 0
  | item :: rest => by
      have hitem := flatMap_texts_length_le hf item
      have hrest := flatMap_itemTexts_length_le hf rest
      rw [Json.itemTexts, List.flatMap_append, List.length_append, textSizeItems]
      omega

theorem flatMap_memberTexts_length_le {f : String → List String}
    (hf : ∀ text, (f text).length ≤ text.length) :
    ∀ members : Json.Members,
      ((Json.memberTexts members).flatMap f).length ≤ textSizeMembers members
  | [] => Nat.le_refl 0
  | (k, v) :: rest => by
      have hvalue := flatMap_texts_length_le hf v
      have hrest := flatMap_memberTexts_length_le hf rest
      rw [Json.memberTexts, List.flatMap_append, List.length_append, textSizeMembers]
      omega

end

theorem names_length_le (s : Scope) : s.names.length ≤ textSize s.context.toJson := by
  refine flatMap_texts_length_le (fun text => ?_) s.context.toJson
  rw [List.length_map]
  exact Template.written_length_le s.delimiters text

/-- What holds of the pending names wherever an expression is evaluated: none
is there twice, all but the `first` are written in the context, and the fuel
left makes up for their number. -/
structure Pending (s : Scope) (first : String) (fuel : Nat) (pending : List String) : Prop where
  nodup : pending.Nodup
  known : ∀ name ∈ pending, name ∈ first :: s.names
  enough : s.fuel ≤ fuel + pending.length

theorem Pending.start (s : Scope) (first : String) : Pending s first s.fuel [] :=
  ⟨List.nodup_nil, fun _ h => (List.not_mem_nil h).elim, Nat.le_refl _⟩

theorem Pending.fuel_pos {first : String} (h : Pending s first fuel pending) : 0 < fuel := by
  have hlength : pending.length ≤ (first :: s.names).length :=
    List.Nodup.length_le_of_subset h.nodup h.known
  have hnames := names_length_le s
  have henough := h.enough
  rw [Scope.fuel] at henough
  rw [List.length_cons] at hlength
  omega

/-- Another name of the context may become pending if it is not yet. -/
theorem Pending.push {first name : String} (h : Pending s first (fuel + 1) pending)
    (hnew : name ∉ pending) (hname : name ∈ first :: s.names) :
    Pending s first fuel (name :: pending) where
  nodup := List.nodup_cons.mpr ⟨hnew, h.nodup⟩
  known := List.forall_mem_cons.mpr ⟨hname, h.known⟩
  enough := by
    have henough := h.enough
    rw [List.length_cons]
    omega

end Manifest.Interpolation
