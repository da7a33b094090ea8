import Manifest.Proofs.SourceDocument
/-!
# References to files

A place in a value is the way down to it, by the position of each part (`Stands`). Replacing
the references keeps what stands at each place, but for the references to files that are there
(`Replaced`): this goes down from a value to its parts, as each part is replaced in turn
(`exists_part_of_substitute`).

The references that lead nowhere are reported one by one in document order, which is the order
of their places (`Lists`). Going along the parts of a value puts the places of the first part
in front of those of the later ones (`Lists.cons`).
-/

namespace Manifest

/-- Whatever is a file has a text. -/
def Files.Readable (files : Files) : Prop :=
  ∀ path, files.isFile path = true → ∃ text, files.read? path = some text

namespace SourceDocument

open PropertyPath (join item)

variable {files : Files} {base path : String} {value given v : Yaml} {place : List Nat}
  {address : String} {ds : List Diagnostic}

/-! ## Places -/

/-- Below a value, and below no `extends` in it, another one stands at a place; the property
path of the place is its address. -/
inductive Stands : (path : String) → (value : Yaml) → (place : List Nat) → (address : String) →
    (v : Yaml) → Prop
  | here {path : String} {v : Yaml} : Stands path v [] path v
  | entry {path : String} {entries : Yaml.Entries} {i : Nat} {k part : Yaml} {place : List Nat}
      {address : String} {v : Yaml} (hentry : entries[i]? = some (k, part))
      (hkey : isExtends k = false)
      (hpart : Stands (join path (k.asString?.getD "")) part place address v) :
      Stands path (.mapping entries) (i :: place) address v
  | item {path : String} {items : List Yaml} {i : Nat} {part : Yaml} {place : List Nat}
      {address : String} {v : Yaml} (hitem : items[i]? = some part)
      (hpart : Stands (PropertyPath.item path i) part place address v) :
      Stands path (.sequence items) (i :: place) address v
  | tagged {path tag : String} {part : Yaml} {place : List Nat} {address : String} {v : Yaml}
      (hpart : Stands path part place address v) :
      Stands path (.tagged tag part) (0 :: place) address v

/-- What stands at a place before and after references are replaced: the same, with the same
keys and as many items, unless it is a reference. What is below `extends` is the same as a
whole. -/
inductive Replaced (files : Files) (base : String) : Yaml → Yaml → Prop
  | null : Replaced files base .null .null
  | bool (b : Bool) : Replaced files base (.bool b) (.bool b)
  | int (i : Int) : Replaced files base (.int i) (.int i)
  | float (f : Binary64) : Replaced files base (.float f) (.float f)
  | text {text : String} (htext : reference? text = none) :
      Replaced files base (.string text) (.string text)
  | reference {text target found : String} (htext : reference? text = some target)
      (hfound : files.read? (targetPath files base target) = some found) :
      Replaced files base (.string text) (.string (contents found))
  | sequence {items given : List Yaml} (hlength : given.length = items.length) :
      Replaced files base (.sequence items) (.sequence given)
  | mapping {entries given : Yaml.Entries} (hkeys : given.map Prod.fst = entries.map Prod.fst)
      (hextends : ∀ (i : Nat) (k part : Yaml), entries[i]? = some (k, part) → isExtends k = true →
        given[i]? = some (k, part)) :
      Replaced files base (.mapping entries) (.mapping given)
  | tagged (tag : String) (part given : Yaml) :
      Replaced files base (.tagged tag part) (.tagged tag given)

/-! ## Strings -/

section Strings

variable {text target : String}

theorem substituteText_plain (h : reference? text = none) :
    substituteText files base path text = .ok (text, []) := by
  rw [substituteText, h]

theorem substituteText_missing (h : reference? text = some target)
    (hfile : files.isFile (targetPath files base target) = false) :
    substituteText files base path text
      = .ok (text, [missing path text (targetPath files base target)]) := by
  rw [substituteText, h]
  exact if_pos (by rw [hfile]; rfl)

theorem substituteText_file (h : reference? text = some target)
    (hfile : files.isFile (targetPath files base target) = true) :
    substituteText files base path text =
      match files.read? (targetPath files base target) with
      | some found => .ok (contents found, [])
      | none => .error (.unreadable (targetPath files base target)) := by
  rw [substituteText, h]
  exact if_neg (by rw [hfile]; decide)

theorem replaced_of_substituteText {text' : String}
    (h : substituteText files base path text = .ok (text', [])) :
    Replaced files base (.string text) (.string text') := by
  cases htarget : reference? text with
  | none =>
      rw [substituteText_plain htarget] at h
      cases h
      exact .text htarget
  | some target =>
      cases hfile : files.isFile (targetPath files base target) with
      | false =>
          rw [substituteText_missing htarget hfile] at h
          cases h
      | true =>
          rw [substituteText_file htarget hfile] at h
          split at h
          · next found hfound =>
              cases h
              exact .reference htarget hfound
          · cases h

end Strings

/-! ## What is kept -/

theorem parts_of_substituteEntries {entries given : Yaml.Entries}
    (h : substituteEntries files base path entries = .ok (given, [])) :
    given.map Prod.fst = entries.map Prod.fst
    ∧ ∀ (i : Nat) (k part : Yaml), entries[i]? = some (k, part) →
        ∃ part', given[i]? = some (k, part')
          ∧ if isExtends k then part' = part
            else substitute files base (join path (k.asString?.getD "")) part
              = .ok (part', []) := by
  induction entries generalizing given with
  | nil =>
      cases h
      exact ⟨rfl, fun i k part hpart => nomatch hpart⟩
  | cons entry rest ih =>
      obtain ⟨k, part⟩ := entry
      obtain ⟨part', here, rest', later, rfl, hds, hrest, hpart⟩ := ok_of_substituteEntries_cons h
      obtain ⟨rfl, rfl⟩ := List.append_eq_nil_iff.mp hds.symm
      obtain ⟨hkeys, hparts⟩ := ih hrest
      refine ⟨congrArg (k :: ·) hkeys, fun i k' other hother => ?_⟩
      cases i with
      | zero =>
          obtain ⟨rfl, rfl⟩ := Prod.mk.inj (Option.some.inj hother)
          refine ⟨part', rfl, ?_⟩
          split at hpart
          · next hextends => rw [if_pos hextends, hpart.1]
          · next hextends => rwa [if_neg hextends]
      | succ i => exact hparts i k' other hother

theorem parts_of_substituteItems {items given : List Yaml} {index : Nat}
    (h : substituteItems files base path index items = .ok (given, [])) :
    given.length = items.length
    ∧ ∀ (i : Nat) (part : Yaml), items[i]? = some part →
        ∃ part', given[i]? = some part'
          ∧ substitute files base (item path (index + i)) part = .ok (part', []) := by
  induction items generalizing given index with
  | nil =>
      cases h
      exact ⟨rfl, fun i part hpart => nomatch hpart⟩
  | cons part rest ih =>
      rw [substituteItems] at h
      obtain ⟨⟨part', here⟩, hpart, h⟩ := ok_of_bind_eq_ok h
      obtain ⟨⟨rest', later⟩, hrest, hpair⟩ := ok_of_bind_eq_ok h
      obtain ⟨rfl, hds⟩ := Prod.mk.inj (Except.ok.inj hpair)
      obtain ⟨rfl, rfl⟩ := List.append_eq_nil_iff.mp hds
      obtain ⟨hlength, hparts⟩ := ih hrest
      refine ⟨congrArg Nat.succ hlength, fun i other hother => ?_⟩
      cases i with
      | zero =>
          obtain rfl := Option.some.inj hother
          exact ⟨part', rfl, hpart⟩
      | succ i =>
          obtain ⟨other', hother', hsubstitute⟩ := hparts i other hother
          rw [Nat.add_right_comm] at hsubstitute
          exact ⟨other', hother', hsubstitute⟩

/-- A value is replaced at its top. -/
theorem replaced_of_substitute (h : substitute files base path value = .ok (given, [])) :
    Replaced files base value given := by
  cases value with
  | null => cases h; exact .null
  | bool b => cases h; exact .bool b
  | int i => cases h; exact .int i
  | float f => cases h; exact .float f
  | string text =>
      rw [substitute] at h
      obtain ⟨⟨text', problems⟩, htext, hpair⟩ := ok_of_bind_eq_ok h
      cases hpair
      exact replaced_of_substituteText htext
  | mapping entries =>
      rw [substitute] at h
      obtain ⟨⟨entries', problems⟩, hentries, hpair⟩ := ok_of_bind_eq_ok h
      cases hpair
      obtain ⟨hkeys, hparts⟩ := parts_of_substituteEntries hentries
      refine .mapping hkeys fun i k part hpart hkey => ?_
      obtain ⟨part', hpart', hsame⟩ := hparts i k part hpart
      rw [if_pos hkey] at hsame
      rw [hpart', hsame]
  | sequence items =>
      rw [substitute] at h
      obtain ⟨⟨items', problems⟩, hitems, hpair⟩ := ok_of_bind_eq_ok h
      cases hpair
      exact .sequence (parts_of_substituteItems hitems).1
  | tagged tag part =>
      rw [substitute] at h
      obtain ⟨⟨part', problems⟩, hpart, hpair⟩ := ok_of_bind_eq_ok h
      cases hpair
      exact .tagged tag part part'

/-- What stands at a place is replaced where it stands. -/
theorem exists_part_of_substitute (hstands : Stands path value place address v)
    (h : substitute files base path value = .ok (given, [])) :
    ∃ v', Stands path given place address v' ∧ substitute files base address v = .ok (v', []) := by
  induction hstands generalizing given with
  | here => exact ⟨given, .here, h⟩
  | @entry path entries i k part place address v hentry hkey hpart ih =>
      rw [substitute] at h
      obtain ⟨⟨entries', problems⟩, hentries, hpair⟩ := ok_of_bind_eq_ok h
      cases hpair
      obtain ⟨part', hpart', hsubstitute⟩ :=
        (parts_of_substituteEntries hentries).2 i k part hentry
      rw [hkey] at hsubstitute
      obtain ⟨v', hstands, hv⟩ := ih hsubstitute
      exact ⟨v', .entry hpart' hkey hstands, hv⟩
  | @item path items i part place address v hitem hpart ih =>
      rw [substitute] at h
      obtain ⟨⟨items', problems⟩, hitems, hpair⟩ := ok_of_bind_eq_ok h
      cases hpair
      obtain ⟨part', hpart', hsubstitute⟩ := (parts_of_substituteItems hitems).2 i part hitem
      rw [Nat.zero_add] at hsubstitute
      obtain ⟨v', hstands, hv⟩ := ih hsubstitute
      exact ⟨v', .item hpart' hstands, hv⟩
  | @tagged path tag part place address v hpart ih =>
      rw [substitute] at h
      obtain ⟨⟨part', problems⟩, hpart, hpair⟩ := ok_of_bind_eq_ok h
      cases hpair
      obtain ⟨v', hstands, hv⟩ := ih hpart
      exact ⟨v', .tagged hstands, hv⟩

/-! ## What is missing -/

/-- At the place stands a reference that leads to no file, and this is the problem with it. -/
def Missing (files : Files) (base path : String) (value : Yaml) (place : List Nat)
    (d : Diagnostic) : Prop :=
  ∃ address text target, Stands path value place address (.string text)
    ∧ reference? text = some target ∧ files.isFile (targetPath files base target) = false
    ∧ d = missing address text (targetPath files base target)

/-! ## The order of the reports -/

/-- The problems are those at all places that have one, in the order of the places. -/
structure Lists (problemAt : List Nat → Diagnostic → Prop) (places : List (List Nat))
    (ds : List Diagnostic) : Prop where
  ordered : places.Pairwise (List.Lex (· < ·))
  complete : ∀ place d, problemAt place d → place ∈ places
  each : List.Forall₂ problemAt places ds

section Lists

variable {problemAt other : List Nat → Diagnostic → Prop} {places : List (List Nat)}

theorem lists_nil (h : ∀ place d, ¬ problemAt place d) : Lists problemAt [] [] where
  ordered := .nil
  complete place d hd := absurd hd (h place d)
  each := .nil

theorem Lists.congr (h : Lists other places ds)
    (hsame : ∀ place d, problemAt place d ↔ other place d) : Lists problemAt places ds where
  ordered := h.ordered
  complete place d hd := h.complete place d ((hsame place d).mp hd)
  each := h.each.imp fun place d => (hsame place d).mpr

theorem Lists.mem_iff (h : Lists problemAt places ds) :
    place ∈ places ↔ ∃ d, problemAt place d := by
  constructor
  · intro hplace
    obtain ⟨d, -, hd⟩ := exists_of_forall₂ h.each place hplace
    exact ⟨d, hd⟩
  · rintro ⟨d, hd⟩
    exact h.complete place d hd

end Lists

/-- What is missing in the parts of a value. Each part has its property path; what is below
`extends` is left out. -/
def MissingIn (files : Files) (base : String) (parts : List (Option (String × Yaml))) :
    List Nat → Diagnostic → Prop
  | [], _ => False
  | i :: place, d =>
    ∃ path part, parts[i]? = some (some (path, part)) ∧ Missing files base path part place d

/-- A place with one more part in front of it. -/
def further : List Nat → List Nat
  | [] => []
  | i :: place => (i + 1) :: place

theorem lex_further {place other : List Nat} (h : List.Lex (· < ·) place other) :
    List.Lex (· < ·) (further place) (further other) := by
  cases h with
  | nil => exact .nil
  | rel hlt => exact .rel (Nat.succ_lt_succ hlt)
  | cons hlex => exact .cons hlex

section Parts

variable {rest : List (Option (String × Yaml))} {places more : List (List Nat)}
  {later : List Diagnostic}

theorem lists_no_parts : Lists (MissingIn files base []) [] [] := by
  refine lists_nil fun place d hd => ?_
  rcases place with - | ⟨i, place⟩
  · exact hd
  · obtain ⟨path, part, hpart, -⟩ := hd
    cases hpart

/-- A part that is left out. -/
theorem Lists.skip (h : Lists (MissingIn files base rest) places ds) :
    Lists (MissingIn files base (none :: rest)) (places.map further) ds where
  ordered := List.pairwise_map.mpr (h.ordered.imp lex_further)
  complete place d hd := by
    rcases place with - | ⟨- | i, place⟩
    · exact hd.elim
    · obtain ⟨path, part, hpart, -⟩ := hd
      cases hpart
    · exact List.mem_map_of_mem (h.complete (i :: place) d hd)
  each := by
    refine List.forall₂_map_left_iff.mpr (h.each.imp fun place d hd => ?_)
    rcases place with - | ⟨i, place⟩
    · exact hd.elim
    · exact hd

/-- The places in the first part are in front of those in the later ones. -/
theorem Lists.cons {part : Yaml} (hfirst : Lists (Missing files base path part) places ds)
    (hrest : Lists (MissingIn files base rest) more later) :
    Lists (MissingIn files base (some (path, part) :: rest))
      (places.map (0 :: ·) ++ more.map further) (ds ++ later) where
  ordered := by
    refine List.pairwise_append.mpr ⟨?_, hrest.skip.ordered, ?_⟩
    · exact List.pairwise_map.mpr (hfirst.ordered.imp .cons)
    · intro place hplace other hother
      obtain ⟨inner, -, rfl⟩ := List.mem_map.mp hplace
      obtain ⟨outer, houter, rfl⟩ := List.mem_map.mp hother
      obtain ⟨d, hd⟩ := hrest.mem_iff.mp houter
      rcases outer with - | ⟨i, outer⟩
      · exact hd.elim
      · exact .rel (Nat.succ_pos i)
  complete place d hd := by
    rcases place with - | ⟨- | i, place⟩
    · exact hd.elim
    · obtain ⟨path', part', hpart, hd⟩ := hd
      obtain ⟨rfl, rfl⟩ := Prod.mk.inj (Option.some.inj (Option.some.inj hpart))
      exact List.mem_append_left _ (List.mem_map_of_mem (hfirst.complete place d hd))
    · exact List.mem_append_right _ (List.mem_map_of_mem (hrest.complete (i :: place) d hd))
  each := by
    refine List.rel_append ?_ ?_
    · exact List.forall₂_map_left_iff.mpr
        (hfirst.each.imp fun place d hd => ⟨path, part, rfl, hd⟩)
    · refine List.forall₂_map_left_iff.mpr (hrest.each.imp fun place d hd => ?_)
      rcases place with - | ⟨i, place⟩
      · exact hd.elim
      · exact hd

end Parts

/-! ## All reports -/

/-- The parts of a mapping. -/
def entryParts (path : String) (entries : Yaml.Entries) : List (Option (String × Yaml)) :=
  entries.map fun entry =>
    if isExtends entry.1 then none
    else some (join path (entry.1.asString?.getD ""), entry.2)

theorem entryParts_cons (path : String) (k part : Yaml) (rest : Yaml.Entries) :
    entryParts path ((k, part) :: rest)
      = (if isExtends k then none else some (join path (k.asString?.getD ""), part))
        :: entryParts path rest := rfl

/-- Items as parts, the first of them at an index. -/
def itemParts (path : String) (index : Nat) (items : List Yaml) : List (Option (String × Yaml)) :=
  (items.zipIdx index).map fun indexed => some (item path indexed.2, indexed.1)

section Reported

variable {text tag : String} {entries : Yaml.Entries} {items : List Yaml} {part : Yaml}
  {d : Diagnostic}

theorem missing_string_iff : Missing files base path (.string text) place d ↔
    place = [] ∧ ∃ target, reference? text = some target
      ∧ files.isFile (targetPath files base target) = false
      ∧ d = missing path text (targetPath files base target) := by
  constructor
  · rintro ⟨address, found, target, hstands, hmissing⟩
    cases hstands
    exact ⟨rfl, target, hmissing⟩
  · rintro ⟨rfl, target, hmissing⟩
    exact ⟨path, text, target, .here, hmissing⟩

theorem missing_mapping_iff : Missing files base path (.mapping entries) place d ↔
    MissingIn files base (entryParts path entries) place d := by
  constructor
  · rintro ⟨address, text, target, hstands, hmissing⟩
    cases hstands with
    | @entry _ _ i k part _ _ _ hentry hkey hpart =>
        refine ⟨_, part, ?_, address, text, target, hpart, hmissing⟩
        rw [entryParts, List.getElem?_map, hentry, Option.map_some, hkey]
        rfl
  · intro h
    rcases place with - | ⟨i, place⟩
    · exact h.elim
    · obtain ⟨address, part, hpart, found, text, target, hstands, hmissing⟩ := h
      rw [entryParts, List.getElem?_map, Option.map_eq_some_iff] at hpart
      obtain ⟨⟨k, part'⟩, hentry, hpart⟩ := hpart
      split at hpart
      · cases hpart
      · next hkey =>
          obtain ⟨rfl, rfl⟩ := Prod.mk.inj (Option.some.inj hpart)
          exact ⟨found, text, target, .entry hentry (Bool.eq_false_iff.mpr hkey) hstands, hmissing⟩

theorem missing_sequence_iff : Missing files base path (.sequence items) place d ↔
    MissingIn files base (itemParts path 0 items) place d := by
  constructor
  · rintro ⟨address, text, target, hstands, hmissing⟩
    cases hstands with
    | @item _ _ i part _ _ _ hitem hpart =>
        refine ⟨_, part, ?_, address, text, target, hpart, hmissing⟩
        rw [itemParts, List.getElem?_map, List.getElem?_zipIdx, hitem, Nat.zero_add]
        rfl
  · intro h
    rcases place with - | ⟨i, place⟩
    · exact h.elim
    · obtain ⟨address, part, hpart, found, text, target, hstands, hmissing⟩ := h
      rw [itemParts, List.getElem?_map, List.getElem?_zipIdx, Option.map_map,
        Option.map_eq_some_iff, Nat.zero_add] at hpart
      obtain ⟨part', hitem, hpart⟩ := hpart
      obtain ⟨rfl, rfl⟩ := Prod.mk.inj (Option.some.inj hpart)
      exact ⟨found, text, target, .item hitem hstands, hmissing⟩

theorem missing_tagged_iff : Missing files base path (.tagged tag part) place d ↔
    MissingIn files base [some (path, part)] place d := by
  constructor
  · rintro ⟨address, text, target, hstands, hmissing⟩
    cases hstands with
    | tagged hpart => exact ⟨path, part, rfl, address, text, target, hpart, hmissing⟩
  · intro h
    rcases place with - | ⟨- | i, place⟩
    · exact h.elim
    · obtain ⟨address, part', hpart, found, text, target, hstands, hmissing⟩ := h
      obtain ⟨rfl, rfl⟩ := Prod.mk.inj (Option.some.inj (Option.some.inj hpart))
      exact ⟨found, text, target, .tagged hstands, hmissing⟩
    · obtain ⟨address, part', hpart, -⟩ := h
      cases hpart

/-- What replacing references gives: a result, and the problems with those that are missing. -/
def Reports {α : Type} (problemAt : List Nat → Diagnostic → Prop)
    (outcome : Except Failure (α × List Diagnostic)) : Prop :=
  ∃ result places ds, outcome = .ok (result, ds) ∧ Lists problemAt places ds

theorem reports_substituteText (hfiles : files.Readable) (path text : String) :
    Reports (Missing files base path (.string text)) (substituteText files base path text) := by
  cases htarget : reference? text with
  | none =>
      refine ⟨text, [], [], substituteText_plain htarget, lists_nil fun place d hd => ?_⟩
      obtain ⟨-, target, htext, -⟩ := missing_string_iff.mp hd
      rw [htarget] at htext
      cases htext
  | some target =>
      cases hfile : files.isFile (targetPath files base target) with
      | false =>
          have hmissing : Missing files base path (.string text) []
              (missing path text (targetPath files base target)) :=
            missing_string_iff.mpr ⟨rfl, target, htarget, hfile, rfl⟩
          refine ⟨text, [[]], _, substituteText_missing htarget hfile, ?_, ?_, ?_⟩
          · exact List.pairwise_singleton _ _
          · intro place d hd
            exact List.mem_singleton.mpr (missing_string_iff.mp hd).1
          · exact .cons hmissing .nil
      | true =>
          obtain ⟨found, hfound⟩ := hfiles _ hfile
          refine ⟨contents found, [], [], ?_, lists_nil fun place d hd => ?_⟩
          · rw [substituteText_file htarget hfile, hfound]
          · obtain ⟨-, target', htext, hnone, -⟩ := missing_string_iff.mp hd
            obtain rfl := Option.some.inj (htarget.symm.trans htext)
            rw [hfile] at hnone
            cases hnone

theorem reports_leaf (h : ∀ place address text, ¬ Stands path value place address (.string text))
    (hvalue : substitute files base path value = .ok (value, [])) :
    Reports (Missing files base path value) (substitute files base path value) := by
  refine ⟨value, [], [], hvalue, lists_nil fun place d hd => ?_⟩
  obtain ⟨address, text, target, hstands, -⟩ := hd
  exact h place address text hstands

theorem substituteEntries_extends {k part : Yaml} {rest rest' : Yaml.Entries}
    {later : List Diagnostic} (hkey : isExtends k = true)
    (hrest : substituteEntries files base path rest = .ok (rest', later)) :
    substituteEntries files base path ((k, part) :: rest) = .ok ((k, part) :: rest', later) := by
  rw [substituteEntries]
  dsimp only
  rw [if_pos (isExtends_iff.mpr hkey), hrest]
  rfl

theorem substituteEntries_part {k part part' : Yaml} {rest rest' : Yaml.Entries}
    {later : List Diagnostic} (hkey : isExtends k = false)
    (hpart : substitute files base (join path (k.asString?.getD "")) part = .ok (part', ds))
    (hrest : substituteEntries files base path rest = .ok (rest', later)) :
    substituteEntries files base path ((k, part) :: rest)
      = .ok ((k, part') :: rest', ds ++ later) := by
  rw [substituteEntries]
  dsimp only
  rw [if_neg (mt isExtends_iff.mp (Bool.eq_false_iff.mp hkey)), hpart, hrest]
  rfl

end Reported

mutual

theorem reports_substitute (hfiles : files.Readable) : ∀ (path : String) (value : Yaml),
    Reports (Missing files base path value) (substitute files base path value)
  | path, .string text => by
      obtain ⟨text', places, ds, htext, hlists⟩ := reports_substituteText hfiles path text
      refine ⟨.string text', places, ds, ?_, hlists⟩
      rw [substitute, htext]
      rfl
  | path, .mapping entries => by
      obtain ⟨entries', places, ds, hentries, hlists⟩ :=
        reports_substituteEntries hfiles path entries
      refine ⟨.mapping entries', places, ds, ?_, hlists.congr fun _ _ => missing_mapping_iff⟩
      rw [substitute, hentries]
      rfl
  | path, .sequence items => by
      obtain ⟨items', places, ds, hitems, hlists⟩ := reports_substituteItems hfiles path 0 items
      refine ⟨.sequence items', places, ds, ?_, hlists.congr fun _ _ => missing_sequence_iff⟩
      rw [substitute, hitems]
      rfl
  | path, .tagged tag part => by
      obtain ⟨part', places, ds, hpart, hlists⟩ := reports_substitute hfiles path part
      have hparts := hlists.cons lists_no_parts
      rw [List.append_nil] at hparts
      refine ⟨.tagged tag part', _, ds, ?_, hparts.congr fun _ _ => missing_tagged_iff⟩
      rw [substitute, hpart]
      rfl
  | path, .null => reports_leaf (fun _ _ _ h => nomatch h) rfl
  | path, .bool _ => reports_leaf (fun _ _ _ h => nomatch h) rfl
  | path, .int _ => reports_leaf (fun _ _ _ h => nomatch h) rfl
  | path, .float _ => reports_leaf (fun _ _ _ h => nomatch h) rfl

theorem reports_substituteEntries (hfiles : files.Readable) :
    ∀ (path : String) (entries : Yaml.Entries),
      Reports (MissingIn files base (entryParts path entries))
        (substituteEntries files base path entries)
  | path, [] => ⟨[], [], [], rfl, lists_no_parts⟩
  | path, (k, part) :: rest => by
      obtain ⟨rest', more, later, hrest, hlater⟩ := reports_substituteEntries hfiles path rest
      obtain ⟨part', places, ds, hpart, hlists⟩ :=
        reports_substitute hfiles (join path (k.asString?.getD "")) part
      rw [entryParts_cons]
      cases hkey : isExtends k with
      | true =>
          rw [if_pos rfl]
          exact ⟨_, _, later, substituteEntries_extends hkey hrest, hlater.skip⟩
      | false =>
          rw [if_neg Bool.false_ne_true]
          exact ⟨_, _, ds ++ later, substituteEntries_part hkey hpart hrest, hlists.cons hlater⟩

theorem reports_substituteItems (hfiles : files.Readable) :
    ∀ (path : String) (index : Nat) (items : List Yaml),
      Reports (MissingIn files base (itemParts path index items))
        (substituteItems files base path index items)
  | path, index, [] => ⟨[], [], [], rfl, lists_no_parts⟩
  | path, index, part :: rest => by
      obtain ⟨part', places, ds, hpart, hlists⟩ := reports_substitute hfiles (item path index) part
      obtain ⟨rest', more, later, hrest, hlater⟩ :=
        reports_substituteItems hfiles path (index + 1) rest
      refine ⟨part' :: rest', _, ds ++ later, ?_, hlists.cons hlater⟩
      rw [substituteItems, hpart, hrest]
      rfl

end

/-! ## Documents -/

/-- The value with its references replaced. Everything else stays where it is and what it is. -/
def Substituted (files : Files) (base : String) (value given : Yaml) : Prop :=
  ∀ place address v, Stands "" value place address v →
    ∃ v', Stands "" given place address v' ∧ Replaced files base v v'

/-- A document whose references all lead to files is read with their contents in it. Otherwise
those that do not are reported, one by one in document order, each at its property path. -/
theorem parseAt_references {source : String} (hfiles : files.Readable)
    (hvalue : parseValue source = .ok value) :
    ((∀ place d, ¬ Missing files (directoryOf path) "" value place d) →
      ∃ given, parseAt files source path = .ok { path, source, value := given }
        ∧ Substituted files (directoryOf path) value given)
    ∧ ((∃ place d, Missing files (directoryOf path) "" value place d) →
      ∃ places ds, parseAt files source path = .error (.invalid (SourceMap.annotate source ds))
        ∧ places.Pairwise (List.Lex (· < ·))
        ∧ (∀ place, place ∈ places ↔ ∃ d, Missing files (directoryOf path) "" value place d)
        ∧ List.Forall₂ (Missing files (directoryOf path) "" value) places ds) := by
  have hreports : Reports (Missing files (directoryOf path) "" value)
      (substitute files (directoryOf path) "" value) := reports_substitute hfiles "" value
  obtain ⟨given, places, ds, hsubstitute, hlists⟩ := hreports
  have hparse : parseAt files source path
      = unlessInvalid (SourceMap.annotate source ds) { path, source, value := given } := by
    rw [parseAt, hvalue]
    show (substitute files (directoryOf path) "" value >>= _) = _
    rw [hsubstitute]
    rfl
  refine ⟨fun hnone => ?_, ?_⟩
  · cases hlists.each with
    | nil =>
        refine ⟨given, hparse, fun place address v hstands => ?_⟩
        obtain ⟨v', hstands', hv⟩ := exists_part_of_substitute hstands hsubstitute
        exact ⟨v', hstands', replaced_of_substitute hv⟩
    | cons hd => exact absurd hd (hnone _ _)
  · rintro ⟨place, d, hmissing⟩
    have hplace : place ∈ places := hlists.complete place d hmissing
    have hne : SourceMap.annotate source ds ≠ [] := by
      intro hempty
      obtain ⟨d', hd', -⟩ := exists_of_forall₂ hlists.each place hplace
      rw [List.map_eq_nil_iff.mp hempty] at hd'
      cases hd'
    refine ⟨places, ds, ?_, hlists.ordered, fun _ => hlists.mem_iff, hlists.each⟩
    rw [hparse, unlessInvalid, if_neg (mt List.isEmpty_iff.mp hne)]

/-- A document that extends a file and takes two more in. -/
def noticeText : String := "\"extends\": \"file:up\"\nenv: [\"file:a\", \"file:b\"]\n"

def noticeValue : Yaml :=
  .mapping [(.string "extends", .string "file:up"),
    (.string "env", .sequence [.string "file:a", .string "file:b"])]

/-- Everything is a file. -/
def fullFiles : Files := { find? := fun _ => some (.file (some " $\x7bHOME\x7d\n")) }

/-- One file is not there. -/
def scantFiles : Files :=
  { find? := fun path => if path = "d/b" then none else fullFiles.find? path }

theorem readable_full : fullFiles.Readable := fun _ _ => ⟨_, rfl⟩

theorem readable_scant : scantFiles.Readable := by
  intro path hfile
  have hfind : scantFiles.find? path = if path = "d/b" then none else fullFiles.find? path := rfl
  by_cases hpath : path = "d/b"
  · rw [Files.isFile, hfind, if_pos hpath] at hfile
    cases hfile
  · rw [Files.read?, hfind, if_neg hpath]
    exact ⟨_, rfl⟩

theorem parseAt_notice :
    fullFiles.Readable ∧ scantFiles.Readable ∧ parseValue noticeText = .ok noticeValue
    ∧ (∃ given, parseAt fullFiles noticeText "d/c.yml"
        = .ok { path := "d/c.yml", source := noticeText, value := given }
      ∧ Substituted fullFiles (directoryOf "d/c.yml") noticeValue given)
    ∧ Missing scantFiles (directoryOf "d/c.yml") "" noticeValue [1, 1]
      (missing "env.1" "file:b" "d/b")
    ∧ ∃ places ds, parseAt scantFiles noticeText "d/c.yml"
        = .error (.invalid (SourceMap.annotate noticeText ds))
      ∧ List.Forall₂ (Missing scantFiles (directoryOf "d/c.yml") "" noticeValue) places ds := by
  have hfull : ∀ place d, ¬ Missing fullFiles (directoryOf "d/c.yml") "" noticeValue place d := by
    rintro place d ⟨address, text, target, -, -, hfile, -⟩
    cases hfile
  have hvalue : parseValue noticeText = .ok noticeValue := by decide +kernel
  have hdirectory : directoryOf "d/c.yml" = "d" := by decide
  have htarget : targetPath scantFiles "d" "b" = "d/b" := by decide +kernel
  have hmissing : Missing scantFiles (directoryOf "d/c.yml") "" noticeValue [1, 1]
      (missing "env.1" "file:b" "d/b") := by
    rw [hdirectory]
    refine ⟨"env.1", "file:b", "b", .entry rfl (by decide) (.item rfl .here), by decide, ?_, ?_⟩
    · rw [htarget]
      rfl
    · rw [htarget]
  obtain ⟨places, ds, hparse, -, -, heach⟩ :=
    (parseAt_references readable_scant hvalue).2 ⟨_, _, hmissing⟩
  exact ⟨readable_full, readable_scant, hvalue,
    (parseAt_references readable_full hvalue).1 hfull, hmissing, places, ds, hparse, heach⟩

end SourceDocument

end Manifest
