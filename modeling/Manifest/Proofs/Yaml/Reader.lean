import Manifest.Yaml.Reader
import Manifest.Proofs.Yaml
/-!
# A value that is read holds each key once

Entries come in one by one, and one with the key of an earlier entry ends the
reading. So whatever a node gives, no mapping in it holds a key twice; a
scalar gives no mapping at all.
-/

namespace Manifest.Yaml

/-! ## What a reading gives -/

namespace Resolver

variable {α β : Type} {P : α → Prop} {Q : β → Prop}

/-- Whatever the reading gives has the property. -/
def Yields (P : α → Prop) (x : Resolver α) : Prop :=
  ∀ left given after, x.run left = some (given, after) → P given

theorem Yields.pure {a : α} (h : P a) : Yields P (Pure.pure a) := by
  intro left given after hrun
  obtain ⟨rfl, -⟩ := Prod.mk.inj (Option.some.inj hrun)
  exact h

theorem Yields.reject : Yields P reject := by
  intro left given after hrun
  cases hrun

theorem Yields.bind {x : Resolver α} {f : α → Resolver β} (hx : Yields P x)
    (hf : ∀ a, P a → Yields Q (f a)) : Yields Q (x >>= f) := by
  intro left given after hrun
  rw [StateT.run_bind] at hrun
  obtain ⟨⟨a, between⟩, hfirst, hrest⟩ := Option.bind_eq_some_iff.mp hrun
  exact hf a (hx left a between hfirst) between given after hrest

theorem Yields.lift {x : Option α} (h : ∀ a, x = some a → P a) : Yields P (StateT.lift x) := by
  intro left given after hrun
  obtain ⟨a, ha, hpair⟩ := Option.bind_eq_some_iff.mp hrun
  obtain ⟨rfl, -⟩ := Prod.mk.inj (Option.some.inj hpair)
  exact h a ha

theorem Yields.any (x : Resolver α) : Yields (fun _ => True) x := fun _ _ _ _ => trivial

theorem Yields.mapM {f : α → Resolver β} (h : ∀ a, Yields Q (f a)) :
    ∀ items : List α, Yields (fun given => ∀ b ∈ given, Q b) (items.mapM f)
  | [] => by
      rw [List.mapM_nil]
      exact .pure fun b hb => by cases hb
  | item :: items => by
      rw [List.mapM_cons]
      refine (h item).bind fun first hfirst => (Yields.mapM h items).bind fun rest hrest => ?_
      exact .pure (List.forall_mem_cons.mpr ⟨hfirst, hrest⟩)

theorem Yields.foldlM {f : β → α → Resolver β} (h : ∀ b a, Q b → Yields Q (f b a)) :
    ∀ (items : List α) {start : β}, Q start → Yields Q (items.foldlM f start)
  | [], _, hstart => by
      rw [List.foldlM_nil]
      exact .pure hstart
  | item :: items, start, hstart => by
      rw [List.foldlM_cons]
      exact (h start item hstart).bind fun next hnext => Yields.foldlM h items hnext

end Resolver

/-! ## Scalars -/

theorem keysDistinct_ofPlain? {text : String} {value : Yaml} (h : ofPlain? text = some value) :
    value.keysDistinct := by
  unfold ofPlain? at h
  dsimp only at h
  split at h
  · cases h; rfl
  · split at h
    · cases h; rfl
    · split at h
      · split at h
        · cases h; rfl
        · cases h
      · split at h
        · cases h; rfl
        · split at h <;> cases h <;> rfl

theorem keysDistinct_ofScalar? {text : String} {style : ScalarStyle} {value : Yaml}
    (h : ofScalar? text style = some value) : value.keysDistinct := by
  unfold ofScalar? at h
  split at h
  · exact keysDistinct_ofPlain? h
  · cases h
    rfl

theorem keysDistinct_ofCoreTag? {tag text : String} {value : Yaml}
    (h : ofCoreTag? tag text = some value) : value.keysDistinct := by
  unfold ofCoreTag? at h
  split at h
  · obtain ⟨b, -, rfl⟩ := Option.map_eq_some_iff.mp h
    rfl
  · split at h
    · obtain ⟨i, -, hi⟩ := Option.bind_eq_some_iff.mp h
      split at hi
      · cases hi; rfl
      · cases hi
    · split at h
      · obtain ⟨f, -, rfl⟩ := Option.map_eq_some_iff.mp h
        rfl
      · split at h
        · split at h <;> cases h
          rfl
        · cases h
          rfl

theorem keysDistinct_withTag {tag : Option String} {value : Yaml} (h : value.keysDistinct) :
    (withTag tag value).keysDistinct := by
  unfold withTag
  split
  · exact h
  · exact h

theorem keysDistinct_scalarValue? {text : String} {style : ScalarStyle} {tag : Option String}
    {value : Yaml} (h : scalarValue? text style tag = some value) : value.keysDistinct := by
  unfold scalarValue? at h
  split at h
  · exact keysDistinct_ofCoreTag? h
  · obtain ⟨scalar, hscalar, rfl⟩ := Option.map_eq_some_iff.mp h
    exact keysDistinct_withTag (keysDistinct_ofScalar? hscalar)

/-! ## Nodes -/

open Resolver

theorem yields_addEntry {entries : Entries} {k v : Yaml}
    (hentries : (Yaml.mapping entries).keysDistinct) (hk : k.keysDistinct) (hv : v.keysDistinct) :
    Yields (fun given => (Yaml.mapping given).keysDistinct) (addEntry entries k v) := by
  unfold addEntry
  split
  · exact .reject
  · rename_i hany
    have hnew : ∀ e ∈ entries, same k e.1 = false := fun e he =>
      Bool.eq_false_iff.mpr (List.any_eq_false.mp (Bool.eq_false_iff.mpr hany) e he)
    exact .pure (keysDistinct_append hentries hnew hk hv)

theorem yields_resolve (d : Document) : ∀ (depth : Nat) (n : Node),
    Yields (fun value => value.keysDistinct) (resolve d depth n)
  | 0, n => by
      rw [resolve]
      refine (Yields.any _).bind fun node _ => ?_
      cases node with
      | scalar text style tag => exact .lift fun _ => keysDistinct_scalarValue?
      | _ => exact .reject
  | depth + 1, n => by
      rw [resolve]
      refine (Yields.any _).bind fun node _ => ?_
      cases node with
      | scalar text style tag => exact .lift fun _ => keysDistinct_scalarValue?
      | sequence items tag =>
          refine (Yields.mapM (yields_resolve d depth) items).bind fun items hitems => ?_
          exact .pure (keysDistinct_withTag (keysDistinctItems_iff.mpr hitems))
      | mapping entries tag =>
          refine Yields.bind (P := fun given => (Yaml.mapping given).keysDistinct) ?_
            fun entries hentries => .pure (keysDistinct_withTag hentries)
          refine Yields.foldlM (fun done entry hdone => ?_) entries rfl
          refine (yields_resolve d depth entry.1).bind fun k hk => ?_
          exact (yields_resolve d depth entry.2).bind fun v hv => yields_addEntry hdone hk hv
      | _ => exact .reject

/-- No mapping in a value that is read holds a key twice. -/
theorem keysDistinct_of_read? {text : String} {value : Yaml} (h : read? text = some value) :
    value.keysDistinct := by
  obtain ⟨d, -, hvalue⟩ := Option.bind_eq_some_iff.mp h
  obtain ⟨⟨v, left⟩, hrun, hv⟩ := Option.bind_eq_some_iff.mp hvalue
  obtain rfl : v = value := Option.some.inj hv
  exact yields_resolve d maxDepth d.root _ v left hrun

end Manifest.Yaml
