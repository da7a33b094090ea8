import Mathlib.Data.Fintype.Card
import Mathlib.Data.Set.Finite.List
import Mathlib.Logic.Relation
import Mathlib.Tactic.Choose
import Manifest.Interpolation
import Manifest.Proofs.Json
import Manifest.Proofs.Template
/-!
# What an expression stands for

The values of expressions without a memo and without an order of evaluation.
`Denotes` derives the value of an expression from the values of the
expressions in the text that its path leads to; `Fails` derives that it has
none. The two exclude each other (`not_fails_of_denotes`), an expression has
at most one value (`Denotes.unique`), and every expression has one or fails
(`denotes_or_fails`): only finitely many paths are written in a context, so a
chain of needs that never fails ends. Hence `Scope.value`, the value if there
is one.
-/

namespace Manifest.Interpolation

open Template (Expression expressions written fill)

/-! ## Values and failures -/

/-- The text of a truth value or a number. -/
def plainText? : Json → Option String
  | .bool b => some (toString b)
  | .int i => some (toString i)
  | .float f => some (Json.floatText f)
  | _ => none

/-- An expression stands for a text: itself where its path may be missing and
is, or else the scalar that its path leads to, with the expressions in that
replaced by what they stand for. -/
inductive Denotes (s : Scope) : Expression → String → Prop
  | raw {e : Expression} (hmissing : s.context.lookup? e.path = none)
      (hpass : s.passesThrough e = true) : Denotes s e (String.ofList e.raw)
  | plain {e : Expression} {value : Json} {text : String}
      (hfound : s.context.lookup? e.path = some value) (hplain : plainText? value = some text) :
      Denotes s e text
  | template {e : Expression} {text : String} {segments : List Template.Segment}
      {value : Expression → String} (hfound : s.context.lookup? e.path = some (.string text))
      (hread : Template.read s.delimiters text = .ok segments)
      (hvalues : ∀ e' ∈ expressions segments, Denotes s e' (value e')) :
      Denotes s e (fill value segments)

/-- The text that the path `p` leads to holds an expression with the path
`q`. -/
def Needs (s : Scope) (p q : List String) : Prop :=
  ∃ text, s.context.lookup? p = some (.string text)
    ∧ ∃ e ∈ written s.delimiters text, e.path = q

/-- An expression stands for nothing. -/
inductive Fails (s : Scope) : Expression → Prop
  | missing {e : Expression} (hmissing : s.context.lookup? e.path = none)
      (hpass : s.passesThrough e = false) : Fails s e
  | unset {e : Expression} (hfound : s.context.lookup? e.path = some .null) : Fails s e
  | list {e : Expression} {items : List Json}
      (hfound : s.context.lookup? e.path = some (.array items)) : Fails s e
  | object {e : Expression} {members : Json.Members}
      (hfound : s.context.lookup? e.path = some (.object members)) : Fails s e
  | malformed {e : Expression} {text : String} {fault : Template.Fault}
      (hfound : s.context.lookup? e.path = some (.string text))
      (hread : Template.read s.delimiters text = .error fault) : Fails s e
  | within {e e' : Expression} {text : String}
      (hfound : s.context.lookup? e.path = some (.string text))
      (hwritten : e' ∈ written s.delimiters text) (hfails : Fails s e') : Fails s e
  | circular {e : Expression} (hcircle : Relation.TransGen (Needs s) e.path e.path) : Fails s e

variable {s : Scope}

theorem Needs.of_written {p : List String} {text : String} {e : Expression}
    (hfound : s.context.lookup? p = some (.string text))
    (hwritten : e ∈ written s.delimiters text) : Needs s p e.path :=
  ⟨text, hfound, e, hwritten, rfl⟩

/-- What is needed on the way round a circle is itself on it. -/
theorem circle_of_needs {p q : List String} (hneeds : Needs s p q)
    (hback : Relation.ReflTransGen (Needs s) q p) : Relation.TransGen (Needs s) q q :=
  Relation.TransGen.tail' hback hneeds

/-! ## A value and a failure exclude each other -/

/-- A path that leads to no text is on no circle. -/
theorem not_circular_of_no_text {p : List String}
    (h : ∀ text, s.context.lookup? p ≠ some (.string text)) :
    ¬ Relation.TransGen (Needs s) p p := by
  intro hcircle
  obtain ⟨q, ⟨text, hfound, -⟩, -⟩ := Relation.TransGen.head'_iff.mp hcircle
  exact h text hfound

theorem Fails.not_passesThrough {e : Expression} (h : Fails s e)
    (hmissing : s.context.lookup? e.path = none) : s.passesThrough e = false := by
  cases h with
  | missing _ hpass => exact hpass
  | circular hcircle =>
      exact absurd hcircle (not_circular_of_no_text fun text => by rw [hmissing]; simp)
  | unset hfound | list hfound | object hfound | malformed hfound | within hfound =>
      rw [hmissing] at hfound; cases hfound

/-- Truth values and numbers never fail. -/
theorem Fails.plainText?_eq_none {e : Expression} {value : Json} (h : Fails s e)
    (hfound : s.context.lookup? e.path = some value) : plainText? value = none := by
  cases h with
  | missing hmissing => rw [hmissing] at hfound; cases hfound
  | circular hcircle =>
      by_contra hplain
      refine not_circular_of_no_text (fun text htext => hplain ?_) hcircle
      rw [hfound] at htext
      rw [Option.some.inj htext]; rfl
  | unset hfound' | list hfound' | object hfound' | malformed hfound' | within hfound' =>
      rw [hfound'] at hfound
      rw [← Option.some.inj hfound]; rfl

/-- A text fails because it is no template or because an expression in it
fails, also where the failure is a circle. -/
theorem Fails.of_text {e : Expression} {text : String} (h : Fails s e)
    (hfound : s.context.lookup? e.path = some (.string text)) :
    (∃ fault, Template.read s.delimiters text = .error fault)
      ∨ ∃ e' ∈ written s.delimiters text, Fails s e' := by
  have same {other : String} (h : s.context.lookup? e.path = some (.string other)) :
      other = text := by
    rw [hfound] at h
    exact (Json.string.inj (Option.some.inj h)).symm
  cases h with
  | missing hmissing => rw [hmissing] at hfound; cases hfound
  | unset hfound' | list hfound' | object hfound' => rw [hfound'] at hfound; cases hfound
  | malformed hfound' hread =>
      obtain rfl := same hfound'
      exact Or.inl ⟨_, hread⟩
  | within hfound' hwritten hfails =>
      obtain rfl := same hfound'
      exact Or.inr ⟨_, hwritten, hfails⟩
  | circular hcircle =>
      obtain ⟨q, hneeds, hback⟩ := Relation.TransGen.head'_iff.mp hcircle
      have hcircle' := circle_of_needs hneeds hback
      obtain ⟨other, hfound', e', hwritten, rfl⟩ := hneeds
      obtain rfl := same hfound'
      exact Or.inr ⟨e', hwritten, .circular hcircle'⟩

theorem not_fails_of_denotes {e : Expression} {text : String} (h : Denotes s e text) :
    ¬ Fails s e := by
  induction h with
  | raw hmissing hpass =>
      intro hfails
      rw [hfails.not_passesThrough hmissing] at hpass
      cases hpass
  | plain hfound hplain =>
      intro hfails
      rw [hfails.plainText?_eq_none hfound] at hplain
      cases hplain
  | template hfound hread _ ih =>
      intro hfails
      rcases hfails.of_text hfound with ⟨fault, hread'⟩ | ⟨e', hwritten, hfails'⟩
      · rw [hread] at hread'; cases hread'
      · rw [Template.written_of_read hread] at hwritten
        exact ih e' hwritten hfails'

/-! ## An expression has at most one value -/

theorem Denotes.unique {e : Expression} {text : String} (h : Denotes s e text) :
    ∀ {other : String}, Denotes s e other → text = other := by
  induction h with
  | raw hmissing _ =>
      intro other h'
      cases h' with
      | raw => rfl
      | plain hfound' | template hfound' => rw [hmissing] at hfound'; cases hfound'
  | plain hfound hplain =>
      intro other h'
      cases h' with
      | raw hmissing => rw [hmissing] at hfound; cases hfound
      | plain hfound' hplain' =>
          rw [hfound] at hfound'
          rw [Option.some.inj hfound', hplain'] at hplain
          exact (Option.some.inj hplain).symm
      | template hfound' =>
          rw [hfound] at hfound'
          rw [Option.some.inj hfound'] at hplain
          cases hplain
  | template hfound hread hvalues ih =>
      intro other h'
      cases h' with
      | raw hmissing => rw [hmissing] at hfound; cases hfound
      | plain hfound' hplain' =>
          rw [hfound] at hfound'
          rw [← Option.some.inj hfound'] at hplain'
          cases hplain'
      | template hfound' hread' hvalues' =>
          rw [hfound] at hfound'
          rw [← Json.string.inj (Option.some.inj hfound'), hread] at hread'
          obtain rfl := Except.ok.inj hread'
          exact Template.fill_congr fun e' he' => ih e' he' (hvalues' e' he')

/-! ## Every expression has a value or fails -/

/-- The paths of the expressions in the texts of a value. -/
def writtenPaths (d : Delimiters) (value : Json) : List (List String) :=
  value.texts.flatMap fun text => (written d text).map Expression.path

theorem mem_writtenPaths {d : Delimiters} {value : Json} {text : String} {e : Expression}
    (htext : text ∈ value.texts) (hwritten : e ∈ written d text) :
    e.path ∈ writtenPaths d value :=
  List.mem_flatMap.mpr ⟨text, htext, List.mem_map_of_mem hwritten⟩

theorem Needs.mem_writtenPaths {p q : List String} (h : Needs s p q) :
    q ∈ writtenPaths s.delimiters s.context.toJson := by
  obtain ⟨text, hfound, e, hwritten, rfl⟩ := h
  exact Interpolation.mem_writtenPaths (Json.mem_texts_of_lookup? hfound) hwritten

/-- An expression that does not fail has a value once all that it needs
have. -/
theorem exists_denotes_of_needs {e : Expression} (h : ¬ Fails s e)
    (hneeds : ∀ e', Needs s e.path e'.path → ¬ Fails s e' → ∃ text, Denotes s e' text) :
    ∃ text, Denotes s e text := by
  cases hfound : s.context.lookup? e.path with
  | none =>
      cases hpass : s.passesThrough e with
      | true => exact ⟨_, .raw hfound hpass⟩
      | false => exact absurd (.missing hfound hpass) h
  | some value =>
      cases value with
      | null => exact absurd (.unset hfound) h
      | array => exact absurd (.list hfound) h
      | object => exact absurd (.object hfound) h
      | bool | int | float => exact ⟨_, .plain hfound rfl⟩
      | string text =>
          cases hread : Template.read s.delimiters text with
          | error fault => exact absurd (.malformed hfound hread) h
          | ok segments =>
              have hvalue : ∀ e' ∈ expressions segments, ∃ text, Denotes s e' text := by
                intro e' he'
                rw [← Template.written_of_read hread] at he'
                exact hneeds e' (.of_written hfound he') fun hfails =>
                  h (.within hfound he' hfails)
              choose! value hvalue using hvalue
              exact ⟨_, .template hfound hread hvalue⟩

/-- Walking from paths that are on no circle to what they need comes to an
end, since the context holds only so many paths. -/
theorem wellFounded_needs (s : Scope) :
    WellFounded fun q p : {p // p ∈ writtenPaths s.delimiters s.context.toJson} =>
      Relation.TransGen (Needs s) p q ∧ ¬ Relation.TransGen (Needs s) p p := by
  have : Finite {p // p ∈ writtenPaths s.delimiters s.context.toJson} :=
    (List.finite_toSet _).to_subtype
  have : IsTrans _ fun q p : {p // p ∈ writtenPaths s.delimiters s.context.toJson} =>
      Relation.TransGen (Needs s) p q ∧ ¬ Relation.TransGen (Needs s) p p :=
    ⟨fun _ _ _ hcb hba => ⟨hba.1.trans hcb.1, hba.2⟩⟩
  have : Std.Irrefl fun q p : {p // p ∈ writtenPaths s.delimiters s.context.toJson} =>
      Relation.TransGen (Needs s) p q ∧ ¬ Relation.TransGen (Needs s) p p :=
    ⟨fun _ h => h.2 h.1⟩
  exact Finite.wellFounded_of_trans_of_irrefl _

theorem denotes_or_fails (s : Scope) (e : Expression) :
    (∃ text, Denotes s e text) ∨ Fails s e := by
  rw [or_iff_not_imp_right]
  -- First what is written in the context, from what needs nothing upwards.
  have hcontext : ∀ p : {p // p ∈ writtenPaths s.delimiters s.context.toJson},
      ∀ e : Expression, e.path = p → ¬ Fails s e → ∃ text, Denotes s e text := by
    intro p
    induction p using (wellFounded_needs s).induction with
    | _ p ih =>
        rintro e he hfails
        refine exists_denotes_of_needs hfails fun e' hneeds hfails' => ?_
        have hacyclic : ¬ Relation.TransGen (Needs s) p p := by
          rw [← he]
          exact fun hcircle => hfails (.circular hcircle)
        exact ih ⟨e'.path, hneeds.mem_writtenPaths⟩
          ⟨.single (he ▸ hneeds), hacyclic⟩ e' rfl hfails'
  exact fun hfails => exists_denotes_of_needs hfails fun e' hneeds hfails' =>
    hcontext ⟨e'.path, hneeds.mem_writtenPaths⟩ e' rfl hfails'

/-! ## The value of an expression -/

open Classical in
/-- What an expression stands for, if it stands for anything. -/
noncomputable def Scope.value (s : Scope) (e : Expression) : Option String :=
  if h : ∃ text, Denotes s e text then some h.choose else none

theorem value_eq_some_iff {e : Expression} {text : String} :
    s.value e = some text ↔ Denotes s e text := by
  unfold Scope.value
  constructor
  · intro h
    split at h
    · next hvalue => rw [← Option.some.inj h]; exact hvalue.choose_spec
    · cases h
  · intro h
    have hvalue : ∃ text, Denotes s e text := ⟨text, h⟩
    rw [dif_pos hvalue, hvalue.choose_spec.unique h]

theorem value_eq_none_iff {e : Expression} : s.value e = none ↔ Fails s e := by
  constructor
  · intro h
    rcases denotes_or_fails s e with ⟨text, hvalue⟩ | hfails
    · rw [value_eq_some_iff.mpr hvalue] at h; cases h
    · exact hfails
  · intro hfails
    cases h : s.value e with
    | none => rfl
    | some text => exact absurd hfails (not_fails_of_denotes (value_eq_some_iff.mp h))

end Manifest.Interpolation
