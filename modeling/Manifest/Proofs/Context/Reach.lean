import Manifest.Proofs.Context
import Manifest.Proofs.Json.Rewriting
/-!
# Texts at the ends of paths

The texts of a context, as they are listed with their paths, are those that a
path through objects alone leads to (`mem_texts_iff`). Replacing one changes
what its own path leads to and nothing else at the end of a path
(`reach_replaceIn`), nor which paths lead somewhere (`walk_replaceIn_eq_none`).
-/

namespace Manifest.Context

open Json (Members member? updateMember Distinct MembersDistinct)

/-! ## Paths through objects -/

/-- What a path through objects alone leads to. -/
def reach : Json → List String → Option Json
  | value, [] => some value
  | .object members, key :: path => (member? key members).bind fun value => reach value path
  | _, _ :: _ => none

/-- The value is no object, so that no path through objects goes on in it. -/
def IsLeaf (value : Json) : Prop := ∀ members, value ≠ .object members

theorem isLeaf_string (text : String) : IsLeaf (.string text) := fun _ => Json.noConfusion

theorem walk_of_reach {value found : Json} {path : List String}
    (h : reach value path = some found) : walk value path = some found := by
  induction path generalizing value with
  | nil => exact h
  | cons key path ih =>
      cases value with
      | object members =>
          obtain ⟨child, hchild, hrest⟩ := Option.bind_eq_some_iff.mp h
          rw [walk_cons, show child? key (.object members) = some child from hchild]
          exact ih hrest
      | null | bool | int | float | string | array => cases h

theorem lookup?_of_reach {c : Context} {path : List String} {found : Json} (hne : path ≠ [])
    (h : reach c.toJson path = some found) : c.lookup? path = some found := by
  cases path with
  | nil => exact absurd rfl hne
  | cons key path => exact walk_of_reach h

theorem mem_of_member? {name : String} {value : Json} {members : Members}
    (h : member? name members = some value) : (name, value) ∈ members := by
  induction members with
  | nil => cases h
  | cons member rest ih =>
      obtain ⟨k, v⟩ := member
      rw [member?] at h
      split at h
      · next heq =>
          obtain rfl := heq
          obtain rfl := Option.some.inj h
          exact List.mem_cons_self ..
      · exact List.mem_cons_of_mem _ (ih h)

theorem reach_sorted : ∀ {path : List String} {value : Json}, Distinct value →
    reach value.sorted path = (reach value path).map Json.sorted
  | [], _, _ => rfl
  | key :: path, .object members, h => by
      show (member? key (Json.sortedMembers [] members)).bind (fun value => reach value path) = _
      rw [Json.member?_sorted h.1, reach]
      cases hchild : member? key members with
      | none => rfl
      | some child =>
          exact reach_sorted (Json.membersDistinct_iff.mp h.2 _ (mem_of_member? hchild))
  | _ :: _, .float f, _ => by
      rw [Json.sorted]
      split <;> rfl
  | _ :: _, .null, _ | _ :: _, .bool _, _ | _ :: _, .int _, _ | _ :: _, .string _, _
  | _ :: _, .array _, _ => rfl

/-! ## The texts of a context -/

theorem mem_textsOfMembers {base path : List String} {text : String} {members : Members} :
    (path, text) ∈ textsOfMembers base members ↔
      ∃ k v, (k, v) ∈ members ∧ (path, text) ∈ textsOf (base ++ [k]) v := by
  induction members with
  | nil => simp [textsOfMembers]
  | cons member rest ih =>
      obtain ⟨k, v⟩ := member
      rw [textsOfMembers, List.mem_append, ih]
      constructor
      · rintro (htext | ⟨k', v', hmem, htext⟩)
        · exact ⟨k, v, List.mem_cons_self .., htext⟩
        · exact ⟨k', v', List.mem_cons_of_mem _ hmem, htext⟩
      · rintro ⟨k', v', hmem, htext⟩
        rcases List.mem_cons.mp hmem with heq | hmem
        · obtain ⟨rfl, rfl⟩ := Prod.mk.inj heq
          exact Or.inl htext
        · exact Or.inr ⟨k', v', hmem, htext⟩

mutual

theorem mem_textsOf_iff : ∀ {value : Json}, Distinct value → ∀ {base path : List String}
    {text : String}, (path, text) ∈ textsOf base value ↔
      ∃ more, path = base ++ more ∧ reach value more = some (.string text)
  | .string own, _, base, path, text => by
      rw [textsOf, List.mem_singleton, Prod.mk.injEq]
      constructor
      · rintro ⟨rfl, rfl⟩
        exact ⟨[], (List.append_nil _).symm, rfl⟩
      · rintro ⟨more, rfl, hreach⟩
        cases more with
        | nil => exact ⟨List.append_nil _, (Json.string.inj (Option.some.inj hreach)).symm⟩
        | cons => cases hreach
  | .object members, h, base, path, text => by
      obtain ⟨hnodup, hmembers⟩ := h
      rw [textsOf, mem_textsOfMembers]
      constructor
      · rintro ⟨k, v, hmem, htext⟩
        obtain ⟨more, rfl, hreach⟩ := (mem_textsOf_member hmembers hmem).mp htext
        refine ⟨k :: more, by rw [List.append_assoc, List.singleton_append], ?_⟩
        rw [reach, Json.member?_of_mem hnodup hmem]
        exact hreach
      · rintro ⟨more, rfl, hreach⟩
        cases more with
        | nil => cases hreach
        | cons k more =>
            obtain ⟨v, hv, hreach⟩ := Option.bind_eq_some_iff.mp hreach
            have hmem := mem_of_member? hv
            refine ⟨k, v, hmem, (mem_textsOf_member hmembers hmem).mpr ⟨more, ?_, hreach⟩⟩
            rw [List.append_assoc, List.singleton_append]
  | .null, _, _, _, _ | .bool _, _, _, _, _ | .int _, _, _, _, _ | .float _, _, _, _, _
  | .array _, _, _, _, _ => by
      refine iff_of_false List.not_mem_nil ?_
      rintro ⟨_ | ⟨key, more⟩, -, hreach⟩ <;> cases hreach

theorem mem_textsOf_member : ∀ {members : Members}, MembersDistinct members →
    ∀ {k : String} {v : Json}, (k, v) ∈ members → ∀ {base path : List String} {text : String},
      (path, text) ∈ textsOf base v ↔
        ∃ more, path = base ++ more ∧ reach v more = some (.string text)
  | (k', v') :: rest, h, k, v, hmem => by
      rcases List.mem_cons.mp hmem with heq | hmem
      · rw [(Prod.mk.inj heq).2]
        exact mem_textsOf_iff h.1
      · exact mem_textsOf_member h.2 hmem

end

theorem mem_texts_iff {c : Context} (h : Distinct c.toJson) {path : List String} {text : String} :
    (path, text) ∈ c.texts ↔ reach c.toJson path = some (.string text) := by
  rw [show c.texts = textsOf [] c.toJson from rfl, mem_textsOf_iff h]
  constructor
  · rintro ⟨more, rfl, hreach⟩
    exact hreach
  · intro hreach
    exact ⟨path, rfl, hreach⟩

mutual

theorem prefix_of_mem_textsOf : ∀ {value : Json} {base path : List String} {text : String},
    (path, text) ∈ textsOf base value → base <+: path
  | .string own, base, path, text, h => by
      obtain ⟨rfl, -⟩ := Prod.mk.inj (List.mem_singleton.mp h)
      exact List.prefix_rfl
  | .object members, base, path, text, h => prefix_of_mem_textsOfMembers h

theorem prefix_of_mem_textsOfMembers : ∀ {members : Members} {base path : List String}
    {text : String}, (path, text) ∈ textsOfMembers base members → base <+: path
  | (k, v) :: rest, base, path, text, h => by
      rcases List.mem_append.mp h with h | h
      · exact (List.prefix_append base [k]).trans (prefix_of_mem_textsOf h)
      · exact prefix_of_mem_textsOfMembers h

end

theorem ne_nil_of_mem_texts {c : Context} {path : List String} {text : String}
    (h : (path, text) ∈ c.texts) : path ≠ [] := by
  obtain ⟨k, v, -, htext⟩ := mem_textsOfMembers.mp h
  rintro rfl
  exact absurd (List.prefix_nil.mp (prefix_of_mem_textsOf htext)) (List.cons_ne_nil k [])

/-! ## Changing a member -/

section UpdateMember

variable {key name : String} {f : Json → Json} {members : Members}

theorem member?_updateMember_self :
    member? key (updateMember key f members) = (member? key members).map f := by
  induction members with
  | nil => rfl
  | cons member rest ih =>
      obtain ⟨k, v⟩ := member
      rw [updateMember, member?]
      split
      · next heq =>
          rw [member?, if_pos heq]
          rfl
      · next hne => rw [member?, if_neg hne, ih]

theorem member?_updateMember_of_ne (h : name ≠ key) :
    member? name (updateMember key f members) = member? name members := by
  induction members with
  | nil => rfl
  | cons member rest ih =>
      obtain ⟨k, v⟩ := member
      rw [updateMember]
      split
      · next heq => rw [member?, member?, if_neg (heq ▸ h.symm), if_neg (heq ▸ h.symm)]
      · rw [member?, member?, ih]

theorem names_updateMember :
    (updateMember key f members).map Prod.fst = members.map Prod.fst := by
  induction members with
  | nil => rfl
  | cons member rest ih =>
      obtain ⟨k, v⟩ := member
      rw [updateMember]
      split
      · rfl
      · rw [List.map_cons, List.map_cons, ih]

theorem updateMember_eq_self {child : Json} (hf : f child = child)
    (h : member? key members = some child) : updateMember key f members = members := by
  induction members with
  | nil => rfl
  | cons member rest ih =>
      obtain ⟨k, v⟩ := member
      rw [member?] at h
      rw [updateMember]
      split at h
      · next heq =>
          obtain rfl := Option.some.inj h
          rw [if_pos heq, hf]
      · next hne => rw [if_neg hne, ih h]

theorem membersDistinct_updateMember (hf : ∀ child, Distinct child → Distinct (f child))
    (h : MembersDistinct members) : MembersDistinct (updateMember key f members) := by
  induction members with
  | nil => exact h
  | cons member rest ih =>
      obtain ⟨k, v⟩ := member
      rw [updateMember]
      split
      · exact ⟨hf v h.1, h.2⟩
      · exact ⟨h.1, ih h.2⟩

end UpdateMember

/-! ## Replacing texts -/

variable {value : Json} {path other : List String} {old new : String}

theorem exists_object_of_reach {key : String} {found : Json}
    (h : reach value (key :: path) = some found) :
    ∃ members child, value = .object members ∧ member? key members = some child
      ∧ reach child path = some found := by
  cases value with
  | object members =>
      obtain ⟨child, hchild, hrest⟩ := Option.bind_eq_some_iff.mp h
      exact ⟨members, child, rfl, hchild, hrest⟩
  | null | bool | int | float | string | array => cases h

/-- Only the path of a text leads to what it is replaced by. -/
theorem reach_replaceIn (h : reach value path = some (.string old)) {found : Json}
    (hfound : IsLeaf found) :
    reach (replaceIn (.string new) path value) other = some found ↔
      (other = path ∧ found = .string new) ∨ (other ≠ path ∧ reach value other = some found) := by
  induction path generalizing value other with
  | nil =>
      obtain rfl := Option.some.inj h
      cases other with
      | nil => simp [replaceIn, reach, eq_comm]
      | cons key more => simp [replaceIn, reach]
  | cons key path ih =>
      obtain ⟨members, child, rfl, hchild, hrest⟩ := exists_object_of_reach h
      cases other with
      | nil =>
          have hleaf : ∀ members, Json.object members ≠ found := fun members heq =>
            hfound members heq.symm
          simp [replaceIn, reach, hleaf]
      | cons k more =>
          rw [replaceIn, reach, reach]
          by_cases hk : k = key
          · subst hk
            rw [member?_updateMember_self, hchild, Option.map_some, Option.bind_some,
              Option.bind_some, ih hrest]
            simp
          · rw [member?_updateMember_of_ne hk]
            simp [hk]

theorem walk_string_eq_none {key : String} (text : String) :
    walk (.string text) (key :: path) = none := rfl

theorem walk_replaceIn_eq_none (h : reach value path = some (.string old)) :
    walk (replaceIn (.string new) path value) other = none ↔ walk value other = none := by
  induction path generalizing value other with
  | nil =>
      obtain rfl := Option.some.inj h
      cases other with
      | nil => simp
      | cons key more => exact iff_of_true (walk_string_eq_none new) (walk_string_eq_none old)
  | cons key path ih =>
      obtain ⟨members, child, rfl, hchild, hrest⟩ := exists_object_of_reach h
      cases other with
      | nil => simp
      | cons k more =>
          rw [replaceIn, walk_cons, walk_cons]
          by_cases hk : k = key
          · subst hk
            simp only [child?, member?_updateMember_self, hchild, Option.map_some, Option.bind_some]
            exact ih hrest
          · simp only [child?, member?_updateMember_of_ne hk]

theorem distinct_replaceIn (h : Distinct value) :
    Distinct (replaceIn (.string new) path value) := by
  induction path generalizing value with
  | nil => exact Json.distinct_string new
  | cons key path ih =>
      cases value with
      | object members =>
          rw [replaceIn]
          exact ⟨names_updateMember.symm ▸ h.1,
            membersDistinct_updateMember (fun _ hchild => ih hchild) h.2⟩
      | null | bool | int | float | string | array => exact h

/-- A text may be replaced by itself. -/
theorem replaceIn_eq_self (h : reach value path = some (.string old)) :
    replaceIn (.string old) path value = value := by
  induction path generalizing value with
  | nil => exact (Option.some.inj h).symm
  | cons key path ih =>
      obtain ⟨members, child, rfl, hchild, hrest⟩ := exists_object_of_reach h
      rw [replaceIn, updateMember_eq_self (ih hrest) hchild]

/-! ## Replacing texts of a context -/

/-- The context with texts replaced, in order. -/
def replaceTexts (c : Context) (texts : List (List String × String)) : Context :=
  texts.foldl (fun c (path, text) => c.replace path (.string text)) c

theorem toJson_replace (c : Context) (hne : path ≠ []) (value : Json) :
    (c.replace path value).toJson = replaceIn value path c.toJson := by
  cases path with
  | nil => exact absurd rfl hne
  | cons key path => rfl

theorem eq_of_toJson {c c' : Context} (h : c.toJson = c'.toJson) : c = c' := by
  obtain ⟨members⟩ := c
  obtain rfl := Json.object.inj h
  rfl

/-- Each of the paths leads to a text of the context. -/
def LeadToTexts (c : Context) (paths : List (List String)) : Prop :=
  ∀ path ∈ paths, path ≠ [] ∧ ∃ text, reach c.toJson path = some (.string text)

variable {c : Context} {paths : List (List String)} {texts : List (List String × String)}

theorem LeadToTexts.replace (h : LeadToTexts c (path :: paths)) (new : String) :
    LeadToTexts (c.replace path (.string new)) paths := by
  intro other hother
  obtain ⟨hne, old, hold⟩ := h path (List.mem_cons_self ..)
  obtain ⟨hne', text, htext⟩ := h other (List.mem_cons_of_mem _ hother)
  rw [toJson_replace c hne]
  by_cases heq : other = path
  · exact ⟨hne', new,
      (reach_replaceIn hold (isLeaf_string new)).mpr (Or.inl ⟨heq, rfl⟩)⟩
  · exact ⟨hne', text,
      (reach_replaceIn hold (isLeaf_string text)).mpr (Or.inr ⟨heq, htext⟩)⟩

/-- What is not replaced stays at the end of its path. -/
theorem reach_replaceTexts_of_not_mem (h : LeadToTexts c (texts.map Prod.fst))
    (hother : other ∉ texts.map Prod.fst) {found : Json} (hfound : IsLeaf found) :
    reach (c.replaceTexts texts).toJson other = some found
      ↔ reach c.toJson other = some found := by
  induction texts generalizing c with
  | nil => exact Iff.rfl
  | cons first rest ih =>
      obtain ⟨path, new⟩ := first
      obtain ⟨hne, old, hold⟩ := h path (List.mem_cons_self ..)
      rw [List.map_cons, List.mem_cons, not_or] at hother
      have hrest := ih (h.replace new) hother.2
      rw [toJson_replace c hne, reach_replaceIn hold hfound] at hrest
      exact hrest.trans (by simp [hother.1])

/-- What is replaced is one of the new texts of its path. -/
theorem exists_of_mem_replaceTexts (h : LeadToTexts c (texts.map Prod.fst))
    (hother : other ∈ texts.map Prod.fst) :
    ∃ new, (other, new) ∈ texts
      ∧ reach (c.replaceTexts texts).toJson other = some (.string new) := by
  induction texts generalizing c with
  | nil => cases hother
  | cons first rest ih =>
      obtain ⟨path, new⟩ := first
      obtain ⟨hne, old, hold⟩ := h path (List.mem_cons_self ..)
      by_cases hrest : other ∈ rest.map Prod.fst
      · obtain ⟨found, hmem, hfound⟩ := ih (h.replace new) hrest
        exact ⟨found, List.mem_cons_of_mem _ hmem, hfound⟩
      · obtain rfl := (List.mem_cons.mp hother).resolve_right hrest
        refine ⟨new, List.mem_cons_self .., ?_⟩
        refine (reach_replaceTexts_of_not_mem (h.replace new) hrest (isLeaf_string new)).mpr ?_
        rw [toJson_replace c hne]
        exact (reach_replaceIn hold (isLeaf_string new)).mpr (Or.inl ⟨rfl, rfl⟩)

theorem lookup?_replaceTexts_eq_none (h : LeadToTexts c (texts.map Prod.fst)) :
    (c.replaceTexts texts).lookup? other = none ↔ c.lookup? other = none := by
  induction texts generalizing c with
  | nil => exact Iff.rfl
  | cons first rest ih =>
      obtain ⟨path, new⟩ := first
      obtain ⟨hne, old, hold⟩ := h path (List.mem_cons_self ..)
      refine (ih (h.replace new)).trans ?_
      cases other with
      | nil => exact Iff.rfl
      | cons key more =>
          show walk (c.replace path (.string new)).toJson (key :: more) = none
            ↔ walk c.toJson (key :: more) = none
          rw [toJson_replace c hne, walk_replaceIn_eq_none hold]

theorem distinct_replaceTexts (h : Distinct c.toJson)
    (hne : ∀ path ∈ texts.map Prod.fst, path ≠ []) :
    Distinct (c.replaceTexts texts).toJson := by
  induction texts generalizing c with
  | nil => exact h
  | cons first rest ih =>
      obtain ⟨path, new⟩ := first
      refine ih ?_ fun other hother => hne other (List.mem_cons_of_mem _ hother)
      rw [toJson_replace c (hne path (List.mem_cons_self ..))]
      exact distinct_replaceIn h

theorem replaceTexts_eq_self (h : ∀ path text, (path, text) ∈ texts →
    path ≠ [] ∧ reach c.toJson path = some (.string text)) : c.replaceTexts texts = c := by
  induction texts with
  | nil => rfl
  | cons first rest ih =>
      obtain ⟨path, text⟩ := first
      obtain ⟨hne, hreach⟩ := h path text (List.mem_cons_self ..)
      have hself : c.replace path (.string text) = c :=
        eq_of_toJson ((toJson_replace c hne _).trans (replaceIn_eq_self hreach))
      show (c.replace path (.string text)).replaceTexts rest = c
      rw [hself]
      exact ih fun other text hmem => h other text (List.mem_cons_of_mem _ hmem)

/-! ## Contexts of components -/

/-- No object in the context of a component has two members of one name. -/
theorem distinct_of_ofComponent {c : Config.Component} {dependencies : Dependencies}
    {maxRefLength : Nat} {mode : Mode} {context : Context}
    (h : ofComponent c dependencies maxRefLength mode = .ok context) : Distinct context.toJson := by
  obtain ⟨services, -, rfl⟩ := exists_of_ofComponent h
  have hsorted (members : Members) : Distinct (membersOf members) := Json.distinct_sorted _
  exact ⟨by simp [namespaces], hsorted _, hsorted _, hsorted _, hsorted _, hsorted _, hsorted _,
    trivial⟩

end Manifest.Context
