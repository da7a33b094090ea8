import Manifest.Proofs.Interpolation.History
/-!
# Circles are reported exactly

An evaluation runs into a circle wherever it happens to be, hands the failure
up to what needs it, and remembers it along the way. Whatever was rendered
before, an expression is reported as circular only if what it needs leads to a
path that needs itself (`LeadsToCircle`). If a circle is all that could keep it
from a value (`ResolvableFrom`), it is reported as circular exactly then, and has a
value otherwise.
-/

namespace Manifest.Interpolation

open Template (Expression Segment expressions written)

variable {s : Scope} {p q : List String} {e : Expression}

/-! ## Paths that lead to a circle -/

/-- Following what the texts need, from the path `p` on, reaches a path that
leads back to itself. -/
def LeadsToCircle (s : Scope) (p : List String) : Prop :=
  ∃ q, Relation.ReflTransGen (Needs s) p q ∧ Relation.TransGen (Needs s) q q

theorem LeadsToCircle.of_needs (hneeds : Needs s p q) (h : LeadsToCircle s q) :
    LeadsToCircle s p := by
  obtain ⟨on, hreach, hcircle⟩ := h
  exact ⟨on, .head hneeds hreach, hcircle⟩

/-- An expression whose path leads to a circle has no value. -/
theorem LeadsToCircle.fails (h : LeadsToCircle s e.path) : Fails s e := by
  obtain ⟨q, hreach, hcircle⟩ := h
  generalize hp : e.path = p at hreach
  induction hreach using Relation.ReflTransGen.head_induction_on generalizing e with
  | refl =>
      obtain rfl := hp
      exact .circular hcircle
  | head hneeds _ ih =>
      obtain ⟨text, hfound, e', hwritten, rfl⟩ := hneeds
      obtain rfl := hp
      exact .within hfound hwritten (ih rfl)

/-! ## Paths that only a circle keeps from a value -/

/-- The path of an expression is missing and may be, or it leads to a scalar
that is set and, if it is a text, is a template. -/
inductive Resolvable (s : Scope) (e : Expression) : Prop
  | raw (hmissing : s.context.lookup? e.path = none) (hpass : s.passesThrough e = true)
  | plain {value : Json} {text : String} (hfound : s.context.lookup? e.path = some value)
    (hplain : plainText? value = some text)
  | template {text : String} {segments : List Segment}
    (hfound : s.context.lookup? e.path = some (.string text))
    (hread : Template.read s.delimiters text = .ok segments)

theorem Resolvable.passesThrough (h : Resolvable s e) (hmissing : s.context.lookup? e.path = none) :
    s.passesThrough e = true := by
  cases h with
  | raw _ hpass => exact hpass
  | plain hfound | template hfound => rw [hmissing] at hfound; cases hfound

theorem Resolvable.exists_read {text : String} (h : Resolvable s e)
    (hfound : s.context.lookup? e.path = some (.string text)) :
    ∃ segments, Template.read s.delimiters text = .ok segments := by
  cases h with
  | raw hmissing => rw [hfound] at hmissing; cases hmissing
  | plain hfound' hplain =>
      rw [hfound] at hfound'
      rw [← Option.some.inj hfound'] at hplain
      cases hplain
  | template hfound' hread =>
      rw [hfound] at hfound'
      obtain rfl := Json.string.inj (Option.some.inj hfound')
      exact ⟨_, hread⟩

theorem Resolvable.plainValue {value : Json} (h : Resolvable s e)
    (hfound : s.context.lookup? e.path = some value) :
    ∃ text, plainValue e.dotted value = .ok text := by
  cases h with
  | raw hmissing => rw [hfound] at hmissing; cases hmissing
  | plain hfound' hplain =>
      rw [hfound] at hfound'
      obtain rfl := Option.some.inj hfound'
      cases value with
      | bool | int | float => exact ⟨_, rfl⟩
      | null | string | array | object => cases hplain
  | template hfound' =>
      rw [hfound] at hfound'
      obtain rfl := Option.some.inj hfound'
      exact ⟨_, rfl⟩

/-- What needs something is a template. -/
theorem Resolvable.of_needs (h : Needs s e.path q) : Resolvable s e := by
  obtain ⟨text, hfound, e', hwritten, -⟩ := h
  obtain ⟨segments, hread, -⟩ := Template.exists_read_of_mem_written hwritten
  exact .template hfound hread

/-- The same of all that is needed from the path on. -/
def ResolvableFrom (s : Scope) (p : List String) : Prop :=
  ∀ e : Expression, Relation.ReflTransGen (Needs s) p e.path → Resolvable s e

theorem ResolvableFrom.of_needs (h : ResolvableFrom s p) (hneeds : Needs s p q) :
    ResolvableFrom s q :=
  fun e hreach => h e (.head hneeds hreach)

theorem Fails.leadsToCircle (h : Fails s e) (hresolvable : ResolvableFrom s e.path) :
    LeadsToCircle s e.path := by
  induction h with
  | missing hmissing hpass =>
      rw [(hresolvable _ .refl).passesThrough hmissing] at hpass
      cases hpass
  | unset hfound | list hfound | object hfound =>
      obtain ⟨text, hplain⟩ := (hresolvable _ .refl).plainValue hfound
      cases hplain
  | malformed hfound hread =>
      obtain ⟨segments, hread'⟩ := (hresolvable _ .refl).exists_read hfound
      rw [hread] at hread'
      cases hread'
  | within hfound hwritten _ ih =>
      have hneeds := Needs.of_written hfound hwritten
      exact .of_needs hneeds (ih (hresolvable.of_needs hneeds))
  | circular hcircle => exact ⟨_, .refl, hcircle⟩

/-- What is needed at a path, by computation. -/
def Scope.needed (s : Scope) (p : List String) : List (List String) :=
  match s.context.lookup? p with
  | some (.string text) => (written s.delimiters text).map Expression.path
  | _ => []

theorem mem_needed_iff : q ∈ s.needed p ↔ Needs s p q := by
  unfold Scope.needed
  constructor
  · intro h
    split at h
    · next text hfound =>
        obtain ⟨e, hwritten, rfl⟩ := List.mem_map.mp h
        exact .of_written hfound hwritten
    · cases h
  · rintro ⟨text, hfound, e, hwritten, rfl⟩
    rw [hfound]
    exact List.mem_map_of_mem hwritten

/-- What is needed from a path on stays within paths that need only each other. -/
theorem mem_of_closed {paths : List (List String)}
    (hclosed : ∀ p ∈ paths, ∀ q ∈ s.needed p, q ∈ paths) (hp : p ∈ paths)
    (hreach : Relation.ReflTransGen (Needs s) p q) : q ∈ paths := by
  induction hreach with
  | refl => exact hp
  | tail _ hneeds ih => exact hclosed _ ih _ (mem_needed_iff.mpr hneeds)

/-! ## The faults of a rendering -/

variable {P : Expression → Except Fault String → Prop} {d : Delimiters} {text : String}
  {r : Rendering}

theorem Fault.kind_behind (f : Fault) (path raw : String) : (f.behind path raw).kind = f.kind := by
  cases f <;> rfl

theorem kind_of_plainValue {path : String} {value : Json} {fault : Fault}
    (h : plainValue path value = .error fault) : fault.kind ≠ .circularReference := by
  cases value with
  | null | array | object =>
      obtain rfl := Except.error.inj h
      exact Diagnostic.Kind.noConfusion
  | string | bool | int | float => cases h

theorem Rendering.exists_of_settle {path : String} {fault : Fault}
    (h : r.settle path = .error fault) :
    ∃ raw cause, (raw, cause) ∈ r.faults ∧ fault.kind = cause.kind := by
  obtain ⟨text, _ | ⟨⟨raw, cause⟩, rest⟩⟩ := r
  · cases h
  · obtain rfl := Except.error.inj h
    exact ⟨raw, cause, List.mem_cons_self .., cause.kind_behind path raw⟩

theorem Renders.exists_of_mem_faults {segments : List Segment} (h : Renders P segments r)
    {raw : String} {fault : Fault} (hmem : (raw, fault) ∈ r.faults) :
    ∃ e ∈ expressions segments, P e (.error fault) := by
  induction h with
  | nil => cases hmem
  | text _ ih => exact ih hmem
  | @expression e outcome rest r he _ ih =>
      have hlater (h : (raw, fault) ∈ r.faults) :
          ∃ e' ∈ e :: expressions rest, P e' (.error fault) := by
        obtain ⟨e', he', hP⟩ := ih h
        exact ⟨e', List.mem_cons_of_mem _ he', hP⟩
      cases outcome with
      | ok value => exact hlater hmem
      | error here =>
          rcases List.mem_cons.mp hmem with heq | hmem
          · obtain ⟨-, rfl⟩ := Prod.mk.inj heq
            exact ⟨e, List.mem_cons_self .., he⟩
          · exact hlater hmem

/-- A text fails because it is no template or because of an expression in it. -/
theorem RendersText.exists_of_mem_faults (h : RendersText P d text r) {raw : String}
    {fault : Fault} (hmem : (raw, fault) ∈ r.faults) :
    (∃ cause, Template.read d text = .error cause ∧ fault = .malformed cause)
      ∨ ∃ e ∈ written d text, P e (.error fault) := by
  cases h with
  | malformed hread =>
      obtain ⟨-, rfl⟩ := Prod.mk.inj (List.mem_singleton.mp hmem)
      exact .inl ⟨_, hread, rfl⟩
  | template hread hrenders =>
      rw [Template.written_of_read hread]
      exact .inr (hrenders.exists_of_mem_faults hmem)

/-! ## What evaluations report about circles -/

/-- An outcome is a circular failure only where a circle is, and is no other
failure where nothing else could go wrong. -/
structure ReportsCircles (s : Scope) (e : Expression) (outcome : Except Fault String) : Prop where
  sound : ∀ fault, outcome = .error fault → fault.kind = .circularReference →
    LeadsToCircle s e.path
  complete : ResolvableFrom s e.path → ∀ fault, outcome = .error fault →
    fault.kind = .circularReference

theorem reportsCircles_ok (s : Scope) (e : Expression) (text : String) :
    ReportsCircles s e (.ok text) where
  sound := fun _ h => by cases h
  complete := fun _ _ h => by cases h

theorem sustained_reportsCircles (s : Scope) : Sustained s (ReportsCircles s) where
  circular hcircle := {
    sound := fun _ _ _ => ⟨_, .refl, hcircle⟩
    complete := by
      rintro - fault ⟨⟩
      rfl }
  raw _ _ := reportsCircles_ok s _ _
  missing hmissing hpass := {
    sound := by
      rintro fault ⟨⟩ hkind
      cases hkind
    complete := by
      intro hresolvable
      rw [(hresolvable _ .refl).passesThrough hmissing] at hpass
      cases hpass }
  plain hfound _ := {
    sound := fun fault hfault hkind => absurd hkind (kind_of_plainValue hfault)
    complete := by
      intro hresolvable fault hfault
      obtain ⟨text, hplain⟩ := (hresolvable _ .refl).plainValue hfound
      rw [hplain] at hfault
      cases hfault }
  template hfound hrenders := {
    sound := by
      intro fault hfault hkind
      obtain ⟨raw, cause, hmem, hsame⟩ := Rendering.exists_of_settle hfault
      rw [hsame] at hkind
      rcases hrenders.exists_of_mem_faults hmem with ⟨_, -, rfl⟩ | ⟨e', hwritten, he'⟩
      · cases hkind
      · exact .of_needs (.of_written hfound hwritten) (he'.sound cause rfl hkind)
    complete := by
      intro hresolvable fault hfault
      obtain ⟨raw, cause, hmem, hsame⟩ := Rendering.exists_of_settle hfault
      rw [hsame]
      rcases hrenders.exists_of_mem_faults hmem with ⟨_, hread, -⟩ | ⟨e', hwritten, he'⟩
      · obtain ⟨segments, hread'⟩ := (hresolvable _ .refl).exists_read hfound
        rw [hread] at hread'
        cases hread'
      · exact he'.complete (hresolvable.of_needs (.of_written hfound hwritten)) cause rfl }

/-! ## After other texts -/

/-- The outcome of an expression by itself, after some texts. -/
def Scope.evaluateAfter (s : Scope) (earlier : List String) (e : Expression) :
    Except Fault String :=
  ((s.evaluate s.fuel [] e).run (s.memoAfter earlier)).1

theorem Sustained.evaluateAfter {earlier : List String} (hP : Sustained s P)
    (hpaths : ToldApart (e.path :: s.pathsWith earlier)) : P e (s.evaluateAfter earlier e) := by
  have hcontext : writtenPaths s.delimiters s.context.toJson ⊆ e.path :: s.pathsWith earlier :=
    List.Subset.trans (List.subset_append_right _ _) (List.subset_cons_self ..)
  have hmemo : Remembers P (e.path :: s.pathsWith earlier) (s.memoAfter earlier) := by
    refine memoAfter_kept (.nil P _) fun text htext memo hmemo => ?_
    refine (renderWith_renders (hP.ensures hpaths hcontext fun e' hwritten => ?_) hmemo).2
    rw [← texts_map_string earlier] at htext
    exact List.mem_cons_of_mem _ (List.mem_append_left _ (mem_writtenPaths htext hwritten))
  have hself : ∀ e' ∈ [e], e'.path ∈ e.path :: s.pathsWith earlier :=
    List.forall_mem_singleton.mpr (List.mem_cons_self ..)
  exact (hP.ensures hpaths hcontext hself e (List.mem_singleton_self e) _ hmemo).1

/-- Circles are reported exactly, whatever was rendered before, as long as no two
different paths, of the expression, the texts or the context, have the same
written form. A circular failure means that what the expression needs leads to
a path that leads back to itself. And if every path needed on the way is
missing and may be, or leads to a scalar that is set and is a template if it is
a text, then the expression fails as circular exactly if it leads to such a
path, and has a value otherwise. -/
theorem circular_iff_leadsToCircle (s : Scope) (earlier : List String) (e : Expression)
    (hpaths : ToldApart (e.path :: s.pathsWith earlier)) :
    (∀ fault, s.evaluateAfter earlier e = .error fault → fault.kind = .circularReference →
        LeadsToCircle s e.path)
      ∧ (ResolvableFrom s e.path →
        ((∃ fault, s.evaluateAfter earlier e = .error fault
            ∧ fault.kind = .circularReference) ↔ LeadsToCircle s e.path)
          ∧ (¬ LeadsToCircle s e.path → ∃ text, s.evaluateAfter earlier e = .ok text)) := by
  have hcircles := (sustained_reportsCircles s).evaluateAfter hpaths
  have hvalue := (sustained_value s).evaluateAfter hpaths
  cases houtcome : s.evaluateAfter earlier e with
  | ok text =>
      rw [houtcome] at hvalue
      have hnone : ¬ LeadsToCircle s e.path := by
        intro hcircle
        rw [value_eq_none_iff.mpr hcircle.fails] at hvalue
        cases hvalue
      have hok : ∀ fault, (.ok text : Except Fault String) ≠ .error fault := by
        rintro fault ⟨⟩
      refine ⟨fun fault h => absurd h (hok fault), fun _ =>
        ⟨iff_of_false ?_ hnone, fun _ => ⟨text, rfl⟩⟩⟩
      rintro ⟨fault, h, -⟩
      exact hok fault h
  | error fault =>
      rw [houtcome] at hvalue hcircles
      refine ⟨hcircles.sound, fun hresolvable => ?_⟩
      have hcircle : LeadsToCircle s e.path :=
        (value_eq_none_iff.mp hvalue.symm).leadsToCircle hresolvable
      have hkind := hcircles.complete hresolvable fault rfl
      exact ⟨iff_of_true ⟨fault, rfl, hkind⟩ hcircle, fun hnone => absurd hcircle hnone⟩

/-- Of the circle of two parameters, the one that was not rendered before. -/
def circleStart : Expression where
  raw := "$\x7b\x7b parameters.a \x7d\x7d".toList
  path := ["parameters", "a"]

theorem circular_circleStart :
    ToldApart (circleStart.path :: circleScope.pathsWith ["$\x7b\x7b parameters.b \x7d\x7d"])
      ∧ ResolvableFrom circleScope circleStart.path
      ∧ LeadsToCircle circleScope circleStart.path
      ∧ ∃ fault, circleScope.evaluateAfter ["$\x7b\x7b parameters.b \x7d\x7d"] circleStart
          = .error fault ∧ fault.kind = .circularReference := by
  have hpaths : ToldApart
      (circleStart.path :: circleScope.pathsWith ["$\x7b\x7b parameters.b \x7d\x7d"]) := by
    decide +kernel
  have hneeded : circleScope.needed ["parameters", "a"] = [["parameters", "b"]]
      ∧ circleScope.needed ["parameters", "b"] = [["parameters", "c"], ["parameters", "a"]]
      ∧ circleScope.needed ["parameters", "c"] = [] := by
    decide +kernel
  have ha : Needs circleScope ["parameters", "a"] ["parameters", "b"] := by
    rw [← mem_needed_iff, hneeded.1]
    decide
  have hb : Needs circleScope ["parameters", "b"] ["parameters", "a"] := by
    rw [← mem_needed_iff, hneeded.2.1]
    decide
  have hresolvable : ResolvableFrom circleScope circleStart.path := by
    intro e hreach
    have hmem : e.path ∈ [["parameters", "a"], ["parameters", "b"], ["parameters", "c"]] := by
      refine mem_of_closed ?_ (by decide) hreach
      simp only [List.forall_mem_cons, hneeded]
      decide
    simp only [List.mem_cons, List.not_mem_nil, or_false] at hmem
    rcases hmem with heq | heq | heq
    · exact .of_needs (heq ▸ ha)
    · exact .of_needs (heq ▸ hb)
    · have hunopened : circleScope.delimiters.opensIn "deep" = false := rfl
      obtain ⟨segments, hread, -⟩ := Template.read_of_unopened hunopened
      exact .template (by rw [heq]; rfl) hread
  have hcircle : LeadsToCircle circleScope circleStart.path :=
    ⟨_, .refl, .tail (.single ha) hb⟩
  exact ⟨hpaths, hresolvable, hcircle,
    ((circular_iff_leadsToCircle circleScope _ circleStart hpaths).2 hresolvable).1.mpr hcircle⟩

end Manifest.Interpolation
