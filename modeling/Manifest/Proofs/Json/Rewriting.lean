import Manifest.Proofs.Json.Sorted
import Manifest.Proofs.Outcome
import Mathlib.Logic.Basic
import Mathlib.Tactic.ByContra
/-!
# Values with other texts

One value is another one rewritten if the two differ in their texts alone,
and those are related one by one. What an object has under a name is then
rewritten too, and so is what a sorted object has, whose names come in byte
order.
-/

namespace Manifest.Json

variable {R S : String → String → Prop} {members members' : Members}

mutual

/-- The values are the same but for their texts, which are related. -/
inductive Rewritten (R : String → String → Prop) : Json → Json → Prop
  | null : Rewritten R .null .null
  | bool (value : Bool) : Rewritten R (.bool value) (.bool value)
  | int (value : Int) : Rewritten R (.int value) (.int value)
  | float (value : Binary64) : Rewritten R (.float value) (.float value)
  | string {old new : String} (h : R old new) : Rewritten R (.string old) (.string new)
  | array {items items' : List Json} (h : ItemsRewritten R items items') :
      Rewritten R (.array items) (.array items')
  | object {members members' : Members} (h : MembersRewritten R members members') :
      Rewritten R (.object members) (.object members')

inductive ItemsRewritten (R : String → String → Prop) : List Json → List Json → Prop
  | nil : ItemsRewritten R [] []
  | cons {item item' : Json} {rest rest' : List Json} (h : Rewritten R item item')
      (hrest : ItemsRewritten R rest rest') : ItemsRewritten R (item :: rest) (item' :: rest')

inductive MembersRewritten (R : String → String → Prop) : Members → Members → Prop
  | nil : MembersRewritten R [] []
  | cons (name : String) {value value' : Json} {rest rest' : Members}
      (h : Rewritten R value value') (hrest : MembersRewritten R rest rest') :
      MembersRewritten R ((name, value) :: rest) ((name, value') :: rest')

end

/-! ## Members -/

theorem MembersRewritten.names (h : MembersRewritten R members members') :
    members'.map Prod.fst = members.map Prod.fst := by
  induction members generalizing members' with
  | nil =>
      cases h
      rfl
  | cons member rest ih =>
      cases h with
      | cons name hvalue hrest =>
          rw [List.map_cons, List.map_cons, ih hrest]

theorem MembersRewritten.member? (h : MembersRewritten R members members') (name : String) :
    Option.Rel (Rewritten R) (Json.member? name members) (Json.member? name members') := by
  induction members generalizing members' with
  | nil =>
      cases h
      exact .none
  | cons member rest ih =>
      cases h with
      | cons k hvalue hrest =>
          rw [Json.member?, Json.member?]
          split
          · exact .some hvalue
          · exact ih hrest

/-! ## The order of sorted objects -/

theorem mem_names_setMember {name k : String} {value : Json} :
    k ∈ (setMember name value members).map Prod.fst ↔ k = name ∨ k ∈ members.map Prod.fst := by
  rw [← not_iff_not, not_or, ← member?_eq_none_iff, ← member?_eq_none_iff]
  by_cases hk : k = name
  · rw [hk, member?_setMember_self]
    simp
  · rw [member?_setMember_of_ne hk]
    simp [hk]

theorem pairwise_setMember (name : String) (value : Json)
    (h : (members.map Prod.fst).Pairwise (· < ·)) :
    ((setMember name value members).map Prod.fst).Pairwise (· < ·) := by
  induction members with
  | nil => exact List.pairwise_singleton _ name
  | cons member rest ih =>
      obtain ⟨k, v⟩ := member
      obtain ⟨hfirst, hrest⟩ := List.pairwise_cons.mp h
      rw [setMember]
      split
      · next hless =>
          refine List.pairwise_cons.mpr ⟨fun other hother => ?_, h⟩
          rcases List.mem_cons.mp hother with rfl | hother
          · exact hless
          · exact String.lt_trans hless (hfirst other hother)
      · next hnot =>
          split
          · next heq => exact List.pairwise_cons.mpr ⟨heq ▸ hfirst, hrest⟩
          · next hne =>
              have hmore : k < name := by
                by_contra hnot'
                exact hne (String.le_antisymm (String.not_lt.mp hnot') (String.not_lt.mp hnot))
              refine List.pairwise_cons.mpr ⟨fun other hother => ?_, ih hrest⟩
              rcases mem_names_setMember.mp hother with rfl | hother
              · exact hmore
              · exact hfirst other hother

theorem pairwise_sortedMembers : ∀ (members done : Members),
    (done.map Prod.fst).Pairwise (· < ·) →
      ((sortedMembers done members).map Prod.fst).Pairwise (· < ·)
  | [], _, h => h
  | (k, v) :: rest, done, h => by
      rw [sortedMembers]
      exact pairwise_sortedMembers rest _ (pairwise_setMember k v.sorted h)

theorem nodup_of_pairwise {names : List String} (h : names.Pairwise (· < ·)) : names.Nodup := by
  refine h.imp ?_
  rintro name _ hless rfl
  exact String.lt_irrefl name hless

theorem membersDistinct_setMember {name : String} {value : Json} (hvalue : Distinct value) :
    ∀ {members : Members}, MembersDistinct members → MembersDistinct (setMember name value members)
  | [], _ => ⟨hvalue, trivial⟩
  | (k, v) :: rest, h => by
      rw [setMember]
      split
      · exact ⟨hvalue, h⟩
      · split
        · exact ⟨hvalue, h.2⟩
        · exact ⟨h.1, membersDistinct_setMember hvalue h.2⟩

mutual

/-- Sorting leaves one member of each name. -/
theorem distinct_sorted : ∀ value : Json, Distinct value.sorted
  | .array items => itemsDistinct_sorted items
  | .object members =>
      ⟨nodup_of_pairwise (pairwise_sortedMembers members [] List.Pairwise.nil),
        membersDistinct_sorted members [] trivial⟩
  | .float f => by
      rw [sorted]
      split <;> trivial
  | .null | .bool _ | .int _ | .string _ => trivial

theorem itemsDistinct_sorted : ∀ items : List Json, ItemsDistinct (sortedItems items)
  | [] => trivial
  | item :: rest => ⟨distinct_sorted item, itemsDistinct_sorted rest⟩

theorem membersDistinct_sorted : ∀ members done : Members, MembersDistinct done →
    MembersDistinct (sortedMembers done members)
  | [], _, h => h
  | (_, v) :: rest, _, h =>
      membersDistinct_sorted rest _ (membersDistinct_setMember (distinct_sorted v) h)

end

/-! ## Sorted objects that are rewritten -/

/-- The members of an object that was sorted and then rewritten. -/
structure Rewrites (R : String → String → Prop) (value : Json) (fs : Members) : Prop where
  sorted : (fs.map Prod.fst).Pairwise (· < ·)
  field? : ∀ name,
    Option.Rel (Rewritten R) ((value.field? name).map Json.sorted) (Json.member? name fs)

theorem rewrites_of_rewritten {value : Json} (hnodup : (members.map Prod.fst).Nodup)
    (h : Rewritten R (Json.object members).sorted value) :
    ∃ fs, value = .object fs ∧ Rewrites R (.object members) fs := by
  cases h with
  | object h =>
      refine ⟨_, rfl, ?_, fun name => ?_⟩
      · rw [h.names]
        exact pairwise_sortedMembers members [] List.Pairwise.nil
      · rw [show Json.field? name (.object members) = Json.member? name members from rfl,
          ← member?_sorted hnodup]
        exact h.member? name

namespace Rewrites

variable {value v : Json} {fs : Members} {name : String}

theorem nodup (h : Rewrites R value fs) : (fs.map Prod.fst).Nodup := nodup_of_pairwise h.sorted

theorem found (h : Rewrites R value fs) (hv : value.field? name = some v) :
    ∃ v', Json.member? name fs = some v' ∧ Rewritten R v.sorted v' := by
  have hrel := h.field? name
  rw [hv] at hrel
  exact exists_of_rel hrel

theorem missing (h : Rewrites R value fs) (hnone : value.field? name = none) :
    Json.member? name fs = none := by
  have hrel := h.field? name
  rw [hnone] at hrel
  exact eq_none_of_rel hrel

theorem exists_field? (h : Rewrites R value fs) (hname : name ∈ fs.map Prod.fst) :
    ∃ v, value.field? name = some v := by
  cases hv : value.field? name with
  | none => exact absurd hname (member?_eq_none_iff.mp (h.missing hv))
  | some v => exact ⟨v, rfl⟩

end Rewrites

end Manifest.Json
