import Manifest.Proofs.Json
/-!
# Members of sorted objects

What is found in an object whose members are put in order: setting a member
changes that member alone, and sorting keeps every member of an object
without repeated names. The values of the members are sorted in turn, so that
a sorted value has the texts of the value, and no others, as long as no object
in it has a name twice (`Distinct`).
-/

namespace Manifest.Json

/-! ## Looking up members -/

theorem member?_setMember_self (name : String) (value : Json) (members : Members) :
    member? name (setMember name value members) = some value := by
  induction members with
  | nil => rw [setMember, member?, if_pos rfl]
  | cons member rest ih =>
      obtain ⟨k, v⟩ := member
      rw [setMember]
      split
      · rw [member?, if_pos rfl]
      · split
        · rw [member?, if_pos rfl]
        · next hne =>
            rw [member?, if_neg (Ne.symm hne)]
            exact ih

theorem member?_setMember_of_ne {name other : String} (h : other ≠ name) (value : Json)
    (members : Members) : member? other (setMember name value members) = member? other members := by
  induction members with
  | nil => exact if_neg h.symm
  | cons member rest ih =>
      obtain ⟨k, v⟩ := member
      rw [setMember]
      split
      · rw [member?, if_neg h.symm]
      · split
        · next heq => rw [member?, member?, if_neg h.symm, if_neg (heq ▸ h.symm)]
        · rw [member?, member?, ih]

theorem member?_eq_none_iff {name : String} {members : Members} :
    member? name members = none ↔ name ∉ members.map Prod.fst := by
  induction members with
  | nil => simp [member?]
  | cons member rest ih =>
      obtain ⟨k, v⟩ := member
      rw [member?, List.map_cons, List.mem_cons, not_or]
      split
      · next heq => simp [heq]
      · next hne =>
          rw [ih]
          exact ⟨fun h => ⟨Ne.symm hne, h⟩, And.right⟩

theorem member?_of_mem {name : String} {value : Json} {members : Members}
    (hnodup : (members.map Prod.fst).Nodup) (hmem : (name, value) ∈ members) :
    member? name members = some value := by
  induction members with
  | nil => cases hmem
  | cons member rest ih =>
      obtain ⟨k, v⟩ := member
      rw [List.map_cons, List.nodup_cons] at hnodup
      rw [member?]
      rcases List.mem_cons.mp hmem with heq | hmem
      · obtain ⟨rfl, rfl⟩ := Prod.mk.inj heq
        rw [if_pos rfl]
      · have hne : k ≠ name := fun heq =>
          hnodup.1 (List.mem_map.mpr ⟨(name, value), hmem, heq.symm⟩)
        rw [if_neg hne]
        exact ih hnodup.2 hmem

theorem member?_removeMember_of_ne {name other : String} (h : other ≠ name)
    (members : Members) : member? other (removeMember name members) = member? other members := by
  induction members with
  | nil => rfl
  | cons member rest ih =>
      obtain ⟨k, v⟩ := member
      rw [removeMember] at ih ⊢
      by_cases hk : k = name
      · rw [List.filter_cons_of_neg (by simpa using hk), ih]
        exact (if_neg (hk ▸ h.symm)).symm
      · rw [List.filter_cons_of_pos (by simpa using hk), member?, member?, ih]

theorem member?_removeMember_self (name : String) (members : Members) :
    member? name (removeMember name members) = none := by
  rw [member?_eq_none_iff]
  intro hmem
  obtain ⟨member, hmember, hname⟩ := List.mem_map.mp hmem
  exact of_decide_eq_true (List.mem_filter.mp hmember).2 hname

theorem mem_setMember {name : String} {value : Json} {member : String × Json} {members : Members}
    (h : member ∈ setMember name value members) : member = (name, value) ∨ member ∈ members := by
  induction members with
  | nil => exact Or.inl (List.mem_singleton.mp h)
  | cons first rest ih =>
      obtain ⟨k, v⟩ := first
      rw [setMember] at h
      split at h
      · exact List.mem_cons.mp h
      · split at h
        · exact (List.mem_cons.mp h).imp_right (List.mem_cons_of_mem _)
        · rcases List.mem_cons.mp h with h | h
          · exact Or.inr (h ▸ List.mem_cons_self ..)
          · exact (ih h).imp_right (List.mem_cons_of_mem _)

/-- Each member of an object that is put in order is one of its members, put in order. -/
theorem mem_sortedMembers {member : String × Json} {members done : Members}
    (h : member ∈ sortedMembers done members) :
    member ∈ done ∨ ∃ given ∈ members, member = (given.1, given.2.sorted) := by
  induction members generalizing done with
  | nil => exact Or.inl h
  | cons first rest ih =>
      obtain ⟨k, v⟩ := first
      rw [sortedMembers] at h
      rcases ih h with h | ⟨given, hgiven, heq⟩
      · rcases mem_setMember h with rfl | h
        · exact Or.inr ⟨(k, v), List.mem_cons_self .., rfl⟩
        · exact Or.inl h
      · exact Or.inr ⟨given, List.mem_cons_of_mem _ hgiven, heq⟩

/-- Of members that are put in order, those not there yet are all found. -/
theorem member?_sortedMembers {name : String} {members done : Members}
    (h : (members.map Prod.fst).Nodup) :
    member? name (sortedMembers done members)
      = ((member? name members).map sorted).or (member? name done) := by
  induction members generalizing done with
  | nil => rfl
  | cons member rest ih =>
      obtain ⟨k, v⟩ := member
      rw [List.map_cons, List.nodup_cons] at h
      rw [sortedMembers, ih h.2, member?]
      split
      · next heq =>
          subst heq
          rw [member?_eq_none_iff.mpr h.1, member?_setMember_self]
          rfl
      · next hne => rw [member?_setMember_of_ne (Ne.symm hne)]

theorem member?_sorted {name : String} {members : Members} (h : (members.map Prod.fst).Nodup) :
    member? name (sortedMembers [] members) = (member? name members).map sorted := by
  rw [member?_sortedMembers h, member?]
  cases member? name members <;> rfl

theorem member?_sorted_eq_none {name : String} {members done : Members}
    (h : member? name members = none) (hdone : member? name done = none) :
    member? name (sortedMembers done members) = none := by
  induction members generalizing done with
  | nil => exact hdone
  | cons member rest ih =>
      obtain ⟨k, v⟩ := member
      rw [member?] at h
      split at h
      · cases h
      · next hne =>
          rw [sortedMembers]
          refine ih h ?_
          rw [member?_setMember_of_ne (Ne.symm hne), hdone]

/-! ## Texts of sorted values -/

theorem memberTexts_append (members more : Members) :
    memberTexts (members ++ more) = memberTexts members ++ memberTexts more := by
  induction members with
  | nil => rfl
  | cons member rest ih =>
      rw [List.cons_append, memberTexts, memberTexts, ih, List.append_assoc]

theorem mem_memberTexts {text : String} {members : Members} :
    text ∈ memberTexts members ↔ ∃ k v, (k, v) ∈ members ∧ text ∈ v.texts := by
  induction members with
  | nil => simp [memberTexts]
  | cons member rest ih =>
      obtain ⟨k, v⟩ := member
      rw [memberTexts, List.mem_append, ih]
      constructor
      · rintro (htext | ⟨k', v', hmem, htext⟩)
        · exact ⟨k, v, List.mem_cons_self .., htext⟩
        · exact ⟨k', v', List.mem_cons_of_mem _ hmem, htext⟩
      · rintro ⟨k', v', hmem, htext⟩
        rcases List.mem_cons.mp hmem with heq | hmem
        · obtain ⟨rfl, rfl⟩ := Prod.mk.inj heq
          exact Or.inl htext
        · exact Or.inr ⟨k', v', hmem, htext⟩

theorem memberTexts_setMember_subset {name : String} {value : Json} {members : Members} :
    memberTexts (setMember name value members) ⊆ value.texts ++ memberTexts members := by
  intro text htext
  induction members with
  | nil => exact htext
  | cons member rest ih =>
      obtain ⟨k, v⟩ := member
      rw [setMember] at htext
      split at htext
      · exact htext
      · split at htext
        · rw [memberTexts, List.mem_append] at htext ⊢
          exact htext.imp_right fun h => List.mem_append_right _ h
        · rw [memberTexts, List.mem_append] at htext
          rw [memberTexts, List.mem_append, List.mem_append]
          rcases htext with htext | htext
          · exact Or.inr (Or.inl htext)
          · exact (List.mem_append.mp (ih htext)).imp_right Or.inr

mutual

theorem texts_sorted_subset : ∀ value : Json, value.sorted.texts ⊆ value.texts
  | .array items => itemTexts_sorted_subset items
  | .object members => fun text htext => by
      rcases List.mem_append.mp (memberTexts_sorted_subset members [] htext) with hmem | hmem
      · exact hmem
      · exact (List.not_mem_nil hmem).elim
  | .float value => by
      rw [sorted]
      split <;> exact List.Subset.refl _
  | .null => List.Subset.refl _
  | .bool _ => List.Subset.refl _
  | .int _ => List.Subset.refl _
  | .string _ => List.Subset.refl _

theorem itemTexts_sorted_subset : ∀ items : List Json,
    itemTexts (sortedItems items) ⊆ itemTexts items
  | [] => List.Subset.refl _
  | item :: rest => fun text htext => by
      rw [sortedItems, itemTexts, List.mem_append] at htext
      rw [itemTexts, List.mem_append]
      exact htext.imp (texts_sorted_subset item ·) (itemTexts_sorted_subset rest ·)

theorem memberTexts_sorted_subset : ∀ members done : Members,
    memberTexts (sortedMembers done members) ⊆ memberTexts members ++ memberTexts done
  | [], _ => List.Subset.refl _
  | (k, v) :: rest, done => fun text htext => by
      rw [memberTexts, List.append_assoc, List.mem_append, List.mem_append]
      rw [sortedMembers] at htext
      rcases List.mem_append.mp (memberTexts_sorted_subset rest _ htext) with htext | htext
      · exact Or.inr (Or.inl htext)
      · rcases List.mem_append.mp (memberTexts_setMember_subset htext) with htext | htext
        · exact Or.inl (texts_sorted_subset v htext)
        · exact Or.inr (Or.inr htext)

end

/-! ## Values without repeated names -/

mutual

/-- No object in the value has two members of one name. -/
def Distinct : Json → Prop
  | .array items => ItemsDistinct items
  | .object members => (members.map Prod.fst).Nodup ∧ MembersDistinct members
  | _ => True

def ItemsDistinct : List Json → Prop
  | [] => True
  | item :: rest => Distinct item ∧ ItemsDistinct rest

def MembersDistinct : Members → Prop
  | [] => True
  | (_, v) :: rest => Distinct v ∧ MembersDistinct rest

end

theorem distinct_string (text : String) : Distinct (.string text) := trivial

theorem distinct_bool (value : Bool) : Distinct (.bool value) := trivial

theorem membersDistinct_iff {members : Members} :
    MembersDistinct members ↔ ∀ member ∈ members, Distinct member.2 := by
  induction members with
  | nil => simp [MembersDistinct]
  | cons member rest ih => rw [MembersDistinct, ih, List.forall_mem_cons]

mutual

theorem texts_subset_sorted : ∀ {value : Json}, Distinct value → value.texts ⊆ value.sorted.texts
  | .array items, h => itemTexts_subset_sorted h
  | .object members, h => by
      obtain ⟨hnodup, hmembers⟩ := h
      intro text htext
      obtain ⟨k, v, hmem, htext⟩ := mem_memberTexts.mp htext
      have hfound : member? k (sortedMembers [] members) = some v.sorted := by
        rw [member?_sorted hnodup, member?_of_mem hnodup hmem]
        rfl
      exact texts_subset_memberTexts hfound (texts_subset_sorted_of_mem hmembers hmem htext)
  | .float _, _ => fun _ h => (List.not_mem_nil h).elim
  | .null, _ => List.Subset.refl _
  | .bool _, _ => List.Subset.refl _
  | .int _, _ => List.Subset.refl _
  | .string _, _ => List.Subset.refl _

theorem itemTexts_subset_sorted : ∀ {items : List Json}, ItemsDistinct items →
    itemTexts items ⊆ itemTexts (sortedItems items)
  | [], _ => List.Subset.refl _
  | item :: rest, h => fun text htext => by
      rw [itemTexts, List.mem_append] at htext
      rw [sortedItems, itemTexts, List.mem_append]
      exact htext.imp (texts_subset_sorted h.1 ·) (itemTexts_subset_sorted h.2 ·)

theorem texts_subset_sorted_of_mem : ∀ {members : Members}, MembersDistinct members →
    ∀ {k : String} {v : Json}, (k, v) ∈ members → v.texts ⊆ v.sorted.texts
  | (k', v') :: rest, h, k, v, hmem => by
      rcases List.mem_cons.mp hmem with heq | hmem
      · rw [(Prod.mk.inj heq).2]
        exact texts_subset_sorted h.1
      · exact texts_subset_sorted_of_mem h.2 hmem

end

end Manifest.Json
