import Manifest.Context
/-!
# The texts in a value

A JSON value seen as what it is around its texts: `texts` lists them in the
order of a walk through the value, `leaves` with the property path of each,
and `mapTexts` changes each text and leaves everything else as it is. What a
path through a context leads to is one of the context's texts whenever it is
a text at all.
-/

namespace Manifest.Json

/-! ## Walking through a value -/

mutual

/-- The texts in a value. -/
def texts : Json → List String
  | .string s => [s]
  | .array items => itemTexts items
  | .object members => memberTexts members
  | _ => []

def itemTexts : List Json → List String
  | [] => []
  | item :: rest => texts item ++ itemTexts rest

def memberTexts : Members → List String
  | [] => []
  | (_, v) :: rest => texts v ++ memberTexts rest

end

mutual

/-- The texts in a value that stands at a property path, each with its own
path. -/
def leaves (path : String) : Json → List (String × String)
  | .string s => [(path, s)]
  | .array items => itemLeaves path 0 items
  | .object members => memberLeaves path members
  | _ => []

def itemLeaves (path : String) (index : Nat) : List Json → List (String × String)
  | [] => []
  | item :: rest => leaves (PropertyPath.item path index) item ++ itemLeaves path (index + 1) rest

def memberLeaves (path : String) : Members → List (String × String)
  | [] => []
  | (k, v) :: rest => leaves (PropertyPath.join path k) v ++ memberLeaves path rest

end

mutual

/-- The value with each of its texts changed. -/
def mapTexts (f : String → String) : Json → Json
  | .string s => .string (f s)
  | .array items => .array (mapItemTexts f items)
  | .object members => .object (mapMemberTexts f members)
  | value => value

def mapItemTexts (f : String → String) : List Json → List Json
  | [] => []
  | item :: rest => mapTexts f item :: mapItemTexts f rest

def mapMemberTexts (f : String → String) : Members → Members
  | [] => []
  | (k, v) :: rest => (k, mapTexts f v) :: mapMemberTexts f rest

end

/-- The value with its texts left out. -/
def blank (value : Json) : Json := value.mapTexts fun _ => ""

mutual

/-- The leaves of a value are its texts, at their places. -/
theorem map_snd_leaves : ∀ (path : String) (value : Json),
    (value.leaves path).map Prod.snd = value.texts
  | _, .string _ => rfl
  | path, .array items => map_snd_itemLeaves path 0 items
  | path, .object members => map_snd_memberLeaves path members
  | _, .null => rfl
  | _, .bool _ => rfl
  | _, .int _ => rfl
  | _, .float _ => rfl

theorem map_snd_itemLeaves : ∀ (path : String) (index : Nat) (items : List Json),
    (itemLeaves path index items).map Prod.snd = itemTexts items
  | _, _, [] => rfl
  | path, index, item :: rest => by
      rw [itemLeaves, itemTexts, List.map_append, map_snd_leaves, map_snd_itemLeaves]

theorem map_snd_memberLeaves : ∀ (path : String) (members : Members),
    (memberLeaves path members).map Prod.snd = memberTexts members
  | _, [] => rfl
  | path, (k, v) :: rest => by
      rw [memberLeaves, memberTexts, List.map_append, map_snd_leaves, map_snd_memberLeaves]

end

theorem mem_texts_of_mem_leaves {path p text : String} {value : Json}
    (h : (p, text) ∈ value.leaves path) : text ∈ value.texts := by
  rw [← map_snd_leaves path value]
  exact List.mem_map_of_mem h

/-! ## What a path leads to -/

theorem texts_subset_itemTexts {item : Json} :
    ∀ {items : List Json}, item ∈ items → texts item ⊆ itemTexts items
  | first :: rest, h, text, htext => by
      rw [itemTexts, List.mem_append]
      rcases List.mem_cons.mp h with rfl | hrest
      · exact Or.inl htext
      · exact Or.inr (texts_subset_itemTexts hrest htext)

theorem texts_subset_memberTexts {name : String} {value : Json} :
    ∀ {members : Members}, member? name members = some value →
      texts value ⊆ memberTexts members
  | (k, v) :: rest, h, text, htext => by
      rw [memberTexts, List.mem_append]
      rw [member?] at h
      split at h
      · obtain rfl := Option.some.inj h
        exact Or.inl htext
      · exact Or.inr (texts_subset_memberTexts h htext)

theorem texts_subset_of_child? {key : String} {value child : Json}
    (h : Context.child? key value = some child) : texts child ⊆ texts value := by
  unfold Context.child? at h
  split at h
  · exact texts_subset_memberTexts h
  · obtain ⟨i, -, hitem⟩ := Option.bind_eq_some_iff.mp h
    exact texts_subset_itemTexts (List.mem_of_getElem? hitem)
  · cases h

theorem texts_subset_of_walk {value found : Json} {path : List String}
    (h : path.foldlM (fun value key => Context.child? key value) value = some found) :
    texts found ⊆ texts value := by
  induction path generalizing value with
  | nil =>
      obtain rfl : value = found := by simpa using h
      exact List.Subset.refl _
  | cons key path ih =>
      rw [List.foldlM_cons] at h
      obtain ⟨child, hchild, hrest⟩ := Option.bind_eq_some_iff.mp h
      exact List.Subset.trans (ih hrest) (texts_subset_of_child? hchild)

/-- A text that a path leads to is one of the texts of the context. -/
theorem mem_texts_of_lookup? {c : Context} {path : List String} {text : String}
    (h : c.lookup? path = some (.string text)) : text ∈ texts c.toJson := by
  have hwalk : path.foldlM (fun value key => Context.child? key value) c.toJson
      = some (.string text) := by
    cases path with
    | nil => cases h
    | cons key path => exact h
  exact texts_subset_of_walk hwalk (List.mem_singleton.mpr rfl)

end Manifest.Json
