import Manifest.Layering
import Mathlib.Data.List.Nodup
/-!
# What a dictionary holds

An insertion is seen at its own key only. A dictionary is known by what it
has at each key, and that of an overlay is combined, key by key, from what the
two layers have there.
-/

namespace Manifest.Dict

variable {α β : Type} {key name : String} {value : α}

/-! ## Association lists -/

theorem find?_put_self (key : String) (value : α) : ∀ l : List (String × α),
    find? key (put key value l) = some value
  | [] => by rw [put, find?, if_pos rfl]
  | (k, v) :: rest => by
      rw [put]
      split
      · rename_i hk
        rw [find?, if_pos hk]
      · rename_i hk
        rw [find?, if_neg hk, find?_put_self key value rest]

theorem find?_put_of_ne (value : α) (h : key ≠ name) : ∀ l : List (String × α),
    find? name (put key value l) = find? name l
  | [] => if_neg h
  | (k, v) :: rest => by
      rw [put]
      split
      · rename_i hk
        rw [find?, find?, if_neg (hk ▸ h), if_neg (hk ▸ h)]
      · rw [find?, find?, find?_put_of_ne value h rest]

theorem find?_eq_none_iff {l : List (String × α)} :
    find? key l = none ↔ key ∉ l.map Prod.fst := by
  induction l with
  | nil => simp [find?]
  | cons e l ih =>
      obtain ⟨k, v⟩ := e
      rw [find?, List.map_cons, List.mem_cons, not_or]
      split
      · rename_i hk
        simp [hk]
      · rename_i hk
        rw [ih, and_iff_right (Ne.symm hk)]

theorem mem_of_find? : ∀ {l : List (String × α)}, find? key l = some value → (key, value) ∈ l
  | (k, v) :: rest, h => by
      rw [find?] at h
      split at h
      · rename_i hk
        obtain rfl := hk
        obtain rfl := Option.some.inj h
        exact List.mem_cons_self ..
      · exact List.mem_cons_of_mem _ (mem_of_find? h)

theorem find?_of_mem : ∀ {l : List (String × α)}, (l.map Prod.fst).Nodup → (key, value) ∈ l →
    find? key l = some value
  | (k, v) :: rest, hnodup, h => by
      rw [List.map_cons, List.nodup_cons] at hnodup
      rw [find?]
      rcases List.mem_cons.mp h with heq | h
      · obtain ⟨rfl, rfl⟩ := Prod.mk.inj heq
        rw [if_pos rfl]
      · have hmem : key ∈ rest.map Prod.fst := List.mem_map_of_mem h
        have hne : k ≠ key := fun heq => hnodup.1 (heq ▸ hmem)
        rw [if_neg hne, find?_of_mem hnodup.2 h]

/-! ## Dictionaries -/

theorem get?_eq_some_iff {d : Dict α} : d.get? key = some value ↔ (key, value) ∈ d.entries :=
  ⟨mem_of_find?, find?_of_mem d.nodup⟩

theorem get?_eq_none_iff {d : Dict α} : d.get? key = none ↔ key ∉ d.keys := find?_eq_none_iff

theorem mem_keys_iff {d : Dict α} : key ∈ d.keys ↔ ∃ value, d.get? key = some value := by
  rw [← Option.isSome_iff_exists, Option.isSome_iff_ne_none, Ne, get?_eq_none_iff, not_not]

theorem contains_iff {d : Dict α} : d.contains key ↔ key ∈ d.keys := by
  rw [mem_keys_iff, contains, Option.isSome_iff_exists]

theorem get?_insert_self (d : Dict α) (key : String) (value : α) :
    (d.insert key value).get? key = some value :=
  find?_put_self key value d.entries

theorem get?_insert_of_ne (d : Dict α) (value : α) (h : key ≠ name) :
    (d.insert key value).get? name = d.get? name :=
  find?_put_of_ne value h d.entries

theorem get?_mapValues (f : String → α → β) (d : Dict α) (key : String) :
    (d.mapValues f).get? key = (d.get? key).map (f key) := by
  unfold get? mapValues
  dsimp only
  induction d.entries with
  | nil => rfl
  | cons e l ih =>
      obtain ⟨k, v⟩ := e
      rw [List.map_cons, find?, find?]
      split
      · rename_i hk
        rw [hk, Option.map_some]
      · exact ih

/-! ## Lists of entries -/

theorem put_of_not_mem : ∀ {l : List (String × α)}, key ∉ l.map Prod.fst →
    put key value l = l ++ [(key, value)]
  | [], _ => rfl
  | (k, v) :: rest, h => by
      rw [List.map_cons, List.mem_cons, not_or] at h
      rw [put, if_neg (Ne.symm h.1), put_of_not_mem h.2, List.cons_append]

theorem entries_foldl_insert : ∀ {l : List (String × α)} {d : Dict α},
    ((d.entries ++ l).map Prod.fst).Nodup →
      (l.foldl (fun d e => d.insert e.1 e.2) d).entries = d.entries ++ l
  | [], d, _ => (List.append_nil d.entries).symm
  | (k, v) :: rest, d, h => by
      have hnew : k ∉ d.entries.map Prod.fst := by
        intro hmem
        rw [List.map_append] at h
        exact (List.nodup_append.mp h).2.2 k hmem k (List.mem_cons_self ..) rfl
      have hentries : (d.insert k v).entries = d.entries ++ [(k, v)] := put_of_not_mem hnew
      have hnodup : (((d.insert k v).entries ++ rest).map Prod.fst).Nodup := by
        rwa [hentries, List.append_assoc]
      rw [List.foldl_cons, entries_foldl_insert hnodup, hentries, List.append_assoc]
      rfl

/-- Entries without repeated keys make up the dictionary as they are. -/
theorem entries_ofList {l : List (String × α)} (h : (l.map Prod.fst).Nodup) :
    (ofList l).entries = l := entries_foldl_insert (d := empty) h

/-! ## Overlays -/

theorem eq_some_of_combine {f : α → α → α} {base upper : Option α}
    (h : Config.combine f base upper = some value) : base = some value ∨ upper = some value ∨
      ∃ b u, base = some b ∧ upper = some u ∧ f b u = value := by
  cases base with
  | none =>
      cases upper with
      | none => cases h
      | some u => exact Or.inr (Or.inl h)
  | some b =>
      cases upper with
      | none => exact Or.inl h
      | some u => exact Or.inr (Or.inr ⟨b, u, rfl, rfl, Option.some.inj h⟩)

/-- One entry of the upper layer, laid over what is there. -/
def layOne (f : α → α → α) (d : Dict α) (entry : String × α) : Dict α :=
  d.insert entry.1 (match d.get? entry.1 with
    | some existing => f existing entry.2
    | none => entry.2)

theorem get?_foldl_layOne (f : α → α → α) : ∀ {l : List (String × α)} (d : Dict α) (key : String),
    (l.map Prod.fst).Nodup →
      (l.foldl (layOne f) d).get? key = Config.combine f (d.get? key) (find? key l)
  | [], d, key, _ => by
      rw [List.foldl_nil, find?]
      cases d.get? key <;> rfl
  | (k, v) :: rest, d, key, hnodup => by
      rw [List.map_cons, List.nodup_cons] at hnodup
      rw [List.foldl_cons, get?_foldl_layOne f _ key hnodup.2, find?, layOne]
      by_cases hk : k = key
      · subst hk
        rw [get?_insert_self, find?_eq_none_iff.mpr hnodup.1, if_pos rfl]
        cases d.get? k <;> rfl
      · rw [get?_insert_of_ne d _ hk, if_neg hk]

/-- What both layers have is combined, and what one of them has stays. -/
theorem get?_overlay (f : α → α → α) (base upper : Dict α) (key : String) :
    (base.overlay f upper).get? key = Config.combine f (base.get? key) (upper.get? key) :=
  get?_foldl_layOne f base key upper.nodup

theorem mem_keys_overlay {f : α → α → α} {base upper : Dict α} :
    key ∈ (base.overlay f upper).keys ↔ key ∈ base.keys ∨ key ∈ upper.keys := by
  rw [← not_iff_not, not_or, ← get?_eq_none_iff, ← get?_eq_none_iff, ← get?_eq_none_iff,
    get?_overlay]
  cases base.get? key with
  | none => cases upper.get? key <;> simp [Config.combine]
  | some b => cases upper.get? key <;> simp [Config.combine]

theorem find?_filterMap {f : String → α → Option β} : ∀ {l : List (String × α)},
    (l.map Prod.fst).Nodup →
      find? key (l.filterMap fun (k, v) => (f k v).map (k, ·)) = (find? key l).bind (f key)
  | [], _ => rfl
  | (k, v) :: rest, hnodup => by
      rw [List.map_cons, List.nodup_cons] at hnodup
      have hrest := find?_filterMap (f := f) hnodup.2
      rw [find?]
      cases hv : f k v with
      | none =>
          simp only [List.filterMap_cons, hv, Option.map_none]
          rw [hrest]
          split
          · next hk =>
              obtain rfl := hk
              rw [find?_eq_none_iff.mpr hnodup.1, Option.bind_some, hv]
              rfl
          · rfl
      | some value =>
          simp only [List.filterMap_cons, hv, Option.map_some]
          rw [find?]
          split
          · next hk =>
              obtain rfl := hk
              rw [Option.bind_some, hv]
          · exact hrest

theorem get?_filterMapValues (f : String → α → Option β) (d : Dict α) (key : String) :
    (d.filterMapValues f).get? key = (d.get? key).bind (f key) :=
  find?_filterMap d.nodup

theorem keys_filterMapValues_subset (f : String → α → Option β) (d : Dict α) :
    (d.filterMapValues f).keys ⊆ d.keys := by
  intro key hkey
  obtain ⟨value, hvalue⟩ := mem_keys_iff.mp hkey
  rw [get?_filterMapValues] at hvalue
  obtain ⟨given, hgiven, -⟩ := Option.bind_eq_some_iff.mp hvalue
  exact mem_keys_iff.mpr ⟨given, hgiven⟩

/-! ## Dictionaries as wholes -/

theorem eq_of_find? : ∀ {l l' : List (String × α)}, l.map Prod.fst = l'.map Prod.fst →
    (l.map Prod.fst).Nodup → (∀ key, find? key l = find? key l') → l = l'
  | [], [], _, _, _ => rfl
  | (k, v) :: rest, (k', v') :: rest', hkeys, hnodup, hfind => by
      rw [List.map_cons, List.map_cons] at hkeys
      obtain ⟨hk, hrest⟩ := List.cons.inj hkeys
      obtain rfl : k = k' := hk
      rw [List.map_cons, List.nodup_cons] at hnodup
      have hvalue := hfind k
      rw [find?, find?, if_pos rfl, if_pos rfl] at hvalue
      obtain rfl := Option.some.inj hvalue
      have hfind' : ∀ key, find? key rest = find? key rest' := by
        intro key
        by_cases hk : k = key
        · subst hk
          rw [find?_eq_none_iff.mpr hnodup.1, find?_eq_none_iff.mpr (hrest ▸ hnodup.1)]
        · have hother := hfind key
          rwa [find?, find?, if_neg hk, if_neg hk] at hother
      rw [eq_of_find? hrest hnodup.2 hfind']

/-- A dictionary is known by its keys in order and by what it has at each. -/
theorem eq_of_get? {d d' : Dict α} (hkeys : d.keys = d'.keys)
    (hget : ∀ key, d.get? key = d'.get? key) : d = d' := by
  obtain ⟨entries, hnodup⟩ := d
  obtain ⟨entries', hnodup'⟩ := d'
  obtain rfl : entries = entries' := eq_of_find? hkeys hnodup hget
  rfl

theorem map_fst_put_of_mem (value : α) : ∀ {l : List (String × α)}, key ∈ l.map Prod.fst →
    (put key value l).map Prod.fst = l.map Prod.fst
  | (k, v) :: rest, h => by
      rw [put]
      by_cases hk : k = key
      · rw [if_pos hk]
        rfl
      · have hrest : key ∈ rest.map Prod.fst := by
          rw [List.map_cons, List.mem_cons] at h
          exact h.resolve_left (Ne.symm hk)
        rw [if_neg hk, List.map_cons, List.map_cons, map_fst_put_of_mem value hrest]

theorem keys_foldl_layOne (f : α → α → α) : ∀ {l : List (String × α)} (d : Dict α),
    (l.map Prod.fst).Nodup →
      (l.foldl (layOne f) d).keys = d.keys ++ (l.map Prod.fst).filter (· ∉ d.keys)
  | [], d, _ => (List.append_nil d.keys).symm
  | (k, v) :: rest, d, hnodup => by
      rw [List.map_cons, List.nodup_cons] at hnodup
      rw [List.foldl_cons, keys_foldl_layOne f _ hnodup.2, List.map_cons, List.filter_cons]
      by_cases hk : k ∈ d.keys
      · have hkeys : (layOne f d (k, v)).keys = d.keys := map_fst_put_of_mem _ hk
        rw [hkeys, if_neg (by simpa using hk)]
      · have hkeys : (layOne f d (k, v)).keys = d.keys ++ [k] := by
          show (put k _ d.entries).map Prod.fst = d.entries.map Prod.fst ++ [k]
          rw [put_of_not_mem hk, List.map_append]
          rfl
        -- The new key does not come again, and so makes no difference to the rest.
        have hrest : (rest.map Prod.fst).filter (· ∉ d.keys ++ [k])
            = (rest.map Prod.fst).filter (· ∉ d.keys) := by
          refine List.filter_congr fun name hname => ?_
          have hne : name ≠ k := fun heq => hnodup.1 (heq ▸ hname)
          simp [hne]
        rw [hkeys, hrest, if_pos (by simpa using hk), List.append_assoc]
        rfl

/-- The keys of the lower layer come first, then the new ones of the upper. -/
theorem keys_overlay (f : α → α → α) (base upper : Dict α) :
    (base.overlay f upper).keys = base.keys ++ upper.keys.filter (· ∉ base.keys) :=
  keys_foldl_layOne f base upper.nodup

theorem none_combine (f : α → α → α) (value : Option α) : Config.combine f none value = value := by
  cases value <;> rfl

theorem combine_none (f : α → α → α) (value : Option α) : Config.combine f value none = value := by
  cases value <;> rfl

theorem combine_self {f : α → α → α} (h : ∀ x, f x x = x) (value : Option α) :
    Config.combine f value value = value := by
  cases value with
  | none => rfl
  | some x => exact congrArg some (h x)

/-- What is seen of a combination is combined from what is seen of its
parts. -/
theorem bind_combine {f : α → α → α} {g : β → β → β} {see : α → Option β}
    (h : ∀ a b, see (f a b) = Config.combine g (see a) (see b)) (x y : Option α) :
    (Config.combine f x y).bind see = Config.combine g (x.bind see) (y.bind see) := by
  cases x with
  | none => rw [none_combine, Option.bind_none, none_combine]
  | some a =>
      cases y with
      | none => rw [combine_none, Option.bind_none, combine_none]
      | some b => exact h a b

theorem empty_overlay (f : α → α → α) (d : Dict α) : ({} : Dict α).overlay f d = d := by
  refine eq_of_get? ?_ fun key => ?_
  · rw [keys_overlay]
    exact List.filter_eq_self.mpr fun _ _ => rfl
  · rw [get?_overlay]
    exact none_combine f (d.get? key)

/-- Laying a dictionary over itself changes nothing if the same holds of its
values. -/
theorem overlay_self {f : α → α → α} (h : ∀ x, f x x = x) (d : Dict α) : d.overlay f d = d := by
  refine eq_of_get? ?_ fun key => ?_
  · have hknown : d.keys.filter (· ∉ d.keys) = [] := by
      refine List.filter_eq_nil_iff.mpr fun name hname hnew => ?_
      exact of_decide_eq_true hnew hname
    rw [keys_overlay, hknown, List.append_nil]
  · rw [get?_overlay]
    exact combine_self h (d.get? key)

theorem combine_assoc {f : α → α → α} {a b c : Option α}
    (h : ∀ x y z, a = some x → b = some y → c = some z → f (f x y) z = f x (f y z)) :
    Config.combine f (Config.combine f a b) c = Config.combine f a (Config.combine f b c) := by
  cases a with
  | none => cases b <;> cases c <;> rfl
  | some x =>
      cases b with
      | none => cases c <;> rfl
      | some y =>
          cases c with
          | none => rfl
          | some z => exact congrArg some (h x y z rfl rfl rfl)

/-- Three layers may be laid over each other in any grouping if the values at
each key may. -/
theorem overlay_assoc {f : α → α → α} {a b c : Dict α}
    (h : ∀ key x y z, a.get? key = some x → b.get? key = some y → c.get? key = some z →
      f (f x y) z = f x (f y z)) :
    (a.overlay f b).overlay f c = a.overlay f (b.overlay f c) := by
  refine eq_of_get? ?_ fun key => ?_
  · simp only [keys_overlay, List.filter_append, List.append_assoc, List.filter_filter]
    congr 2
    refine List.filter_congr fun name _ => ?_
    by_cases ha : name ∈ a.keys <;> simp [ha]
  · simp only [get?_overlay]
    exact combine_assoc (h key)

theorem mapValues_mapValues {γ : Type} (f : String → α → β) (g : String → β → γ) (d : Dict α) :
    (d.mapValues f).mapValues g = d.mapValues fun key value => g key (f key value) := by
  refine eq_of_get? (by simp only [keys_mapValues]) fun key => ?_
  simp only [get?_mapValues, Option.map_map]
  rfl

theorem mapValues_congr {f g : String → α → β} {d : Dict α}
    (h : ∀ key value, d.get? key = some value → f key value = g key value) :
    d.mapValues f = d.mapValues g := by
  refine eq_of_get? (by rw [keys_mapValues, keys_mapValues]) fun key => ?_
  rw [get?_mapValues, get?_mapValues]
  cases hvalue : d.get? key with
  | none => rfl
  | some value => exact congrArg some (h key value hvalue)

end Manifest.Dict
