/-!
# Dictionaries in insertion order

A dictionary holds each key once, in the order in which the keys first came
in. Setting a key that is present changes its value and keeps its place.
Every statement about a dictionary goes through `entries`.
-/

namespace Manifest

structure Dict (α : Type) where
  entries : List (String × α)
  nodup : (entries.map Prod.fst).Nodup
deriving DecidableEq

namespace Dict

variable {α β : Type}

def empty : Dict α := ⟨[], List.nodup_nil⟩

instance : EmptyCollection (Dict α) := ⟨empty⟩

instance : Inhabited (Dict α) := ⟨empty⟩

instance [Repr α] : Repr (Dict α) := ⟨fun d n => reprPrec d.entries n⟩

def keys (d : Dict α) : List String := d.entries.map Prod.fst

def values (d : Dict α) : List α := d.entries.map Prod.snd

def size (d : Dict α) : Nat := d.entries.length

def isEmpty (d : Dict α) : Bool := d.entries.isEmpty

/-! ## Association lists -/

/-- The value of the first entry with this key. -/
def find? (key : String) : List (String × α) → Option α
  | [] => none
  | (k, v) :: rest => if k = key then some v else find? key rest

/-- Sets the first entry with this key, or adds one at the end. -/
def put (key : String) (value : α) : List (String × α) → List (String × α)
  | [] => [(key, value)]
  | (k, v) :: rest => if k = key then (k, value) :: rest else (k, v) :: put key value rest

theorem mem_keys_put {key k : String} {value : α} {l : List (String × α)} :
    k ∈ (put key value l).map Prod.fst ↔ k = key ∨ k ∈ l.map Prod.fst := by
  induction l with
  | nil => simp [put]
  | cons e l ih =>
    obtain ⟨k', v⟩ := e
    by_cases h : k' = key
    · subst h; simp [put]
    · simp only [put, h, if_false, List.map_cons, List.mem_cons, ih]
      exact or_left_comm

theorem nodup_put {key : String} {value : α} {l : List (String × α)}
    (h : (l.map Prod.fst).Nodup) : ((put key value l).map Prod.fst).Nodup := by
  induction l with
  | nil => simp [put]
  | cons e l ih =>
    obtain ⟨k, v⟩ := e
    simp only [List.map_cons, List.nodup_cons] at h
    by_cases hk : k = key
    · subst hk
      simpa only [put, if_true, List.map_cons, List.nodup_cons] using h
    · simp only [put, hk, if_false, List.map_cons, List.nodup_cons, mem_keys_put]
      exact ⟨fun hm => hm.elim id h.1, ih h.2⟩

/-! ## Operations -/

def get? (d : Dict α) (key : String) : Option α := find? key d.entries

def contains (d : Dict α) (key : String) : Bool := (d.get? key).isSome

def insert (d : Dict α) (key : String) (value : α) : Dict α :=
  ⟨put key value d.entries, nodup_put d.nodup⟩

/-- The entries in order, a later one replacing the value of an earlier one
with the same key. -/
def ofList (entries : List (String × α)) : Dict α :=
  entries.foldl (fun d (k, v) => d.insert k v) empty

/-- Changes each value; keys and order stay. -/
def mapValues (f : String → α → β) (d : Dict α) : Dict β :=
  ⟨d.entries.map fun (k, v) => (k, f k v), by
    simpa [List.map_map, Function.comp_def] using d.nodup⟩

/-- The entries that `f` keeps, with their new values. -/
def filterMapValues (f : String → α → Option β) (d : Dict α) : Dict β :=
  ⟨d.entries.filterMap fun (k, v) => (f k v).map (k, ·), by
    have sub : ((d.entries.filterMap fun (k, v) => (f k v).map (k, ·)).map Prod.fst).Sublist
        (d.entries.map Prod.fst) := by
      generalize d.entries = l
      induction l with
      | nil => simp
      | cons e l ih =>
        obtain ⟨k, v⟩ := e
        cases h : f k v with
        | none => simpa [List.filterMap_cons, h] using ih.cons k
        | some w => simpa [List.filterMap_cons, h] using ih
    exact sub.nodup d.nodup⟩

/-- Lays `upper` onto `base`: shared keys are combined in place, and new keys
follow in their own order. -/
def overlay (combine : α → α → α) (base upper : Dict α) : Dict α :=
  upper.entries.foldl
    (fun d (k, v) =>
      d.insert k (match d.get? k with
        | some existing => combine existing v
        | none => v))
    base

@[simp] theorem entries_empty : (empty : Dict α).entries = [] := rfl

@[simp] theorem keys_mapValues (f : String → α → β) (d : Dict α) :
    (d.mapValues f).keys = d.keys := by
  simp [keys, mapValues, List.map_map, Function.comp_def]

end Dict

end Manifest
