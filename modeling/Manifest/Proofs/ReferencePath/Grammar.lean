import Mathlib.Data.List.Basic
import Manifest.Proofs.ReferencePath.Written
import Manifest.Proofs.Text.Split
/-!
# The grammar of reference paths

A path is written as a bare key with lookups behind it (`Spelling`): a key behind a period,
or a key in brackets, bare or in quotes, with blanks around it. The texts that are read are
those that are written so (`read?_eq_some_iff`), and each of them in one way only
(`Spelling.eq_of_written_eq`): a reader that meets a lookup has no choice of how much of
the text to take for it, as what follows a lookup is no character of a key.
-/

namespace Manifest.ReferencePath

/-! ## What is written -/

/-- The marks that a key in brackets may stand between. -/
inductive Quote where
  | single
  | double
deriving DecidableEq, Repr

def Quote.mark : Quote → Char
  | .single => '\''
  | .double => '"'

theorem Quote.eq_of_mark_eq {quote quote' : Quote} (h : quote.mark = quote'.mark) :
    quote = quote' := by
  cases quote with
  | single =>
      cases quote' with
      | single => rfl
      | double => exact absurd h (by decide)
  | double =>
      cases quote' with
      | single => exact absurd h (by decide)
      | double => rfl

/-- A key in brackets, with or without quotes. -/
def quotedKey : Option Quote → String → List Char
  | none, key => key.toList
  | some quote, key => quote.mark :: (key.toList ++ [quote.mark])

/-- A key that needs no quotes, or has none of those that it stands between. -/
def Fits : Option Quote → String → Prop
  | none, key => IsBare key
  | some quote, key => quote.mark ∉ key.toList

/-- How a key behind the first one is written. -/
inductive Lookup where
  | dotted (key : String)
  | bracketed (before : List Char) (quote : Option Quote) (key : String) (after : List Char)

namespace Lookup

def key : Lookup → String
  | .dotted key => key
  | .bracketed _ _ key _ => key

def written : Lookup → List Char
  | .dotted key => '.' :: key.toList
  | .bracketed before quote key after =>
    '[' :: (before ++ (quotedKey quote key ++ (after ++ [']'])))

inductive Grammatical : Lookup → Prop
  | dotted {key : String} (hkey : IsBare key) : (Lookup.dotted key).Grammatical
  | bracketed {before after : List Char} {quote : Option Quote} {key : String}
      (hbefore : ∀ c ∈ before, isInnerBlank c = true) (hkey : Fits quote key)
      (hafter : ∀ c ∈ after, isInnerBlank c = true) :
      (Lookup.bracketed before quote key after).Grammatical

/-- The key stands in brackets and in quotes. -/
def IsQuoted : Lookup → Prop
  | .bracketed _ (some _) _ _ => True
  | _ => False

end Lookup

/-- A way to write a path. -/
structure Spelling where
  first : String
  lookups : List Lookup

namespace Spelling

def path (s : Spelling) : List String := s.first :: s.lookups.map Lookup.key

def written (s : Spelling) : List Char := s.first.toList ++ s.lookups.flatMap Lookup.written

structure Grammatical (s : Spelling) : Prop where
  first : IsBare s.first
  lookups : ∀ l ∈ s.lookups, l.Grammatical

end Spelling

/-! ## Where a key ends -/

variable {cs key rest : List Char}

/-- A bare key that ends in front of the text ends there. -/
def Stops (cs : List Char) : Prop := ∀ c ∈ cs.head?, isKeyChar c = false

theorem stops_lookups (lookups : List Lookup) : Stops (lookups.flatMap Lookup.written) := by
  cases lookups with
  | nil => exact fun _ hc => nomatch hc
  | cons l lookups => cases l <;> rintro c ⟨⟩ <;> decide

theorem not_isKeyChar_of_isInnerBlank {c : Char} (h : isInnerBlank c = true) :
    isKeyChar c = false := by
  simp only [isInnerBlank, Bool.or_eq_true, decide_eq_true_iff] at h
  rcases h with ((rfl | rfl) | rfl) | rfl <;> decide

theorem stops_blanks {after : List Char} (h : ∀ c ∈ after, isInnerBlank c = true)
    (rest : List Char) : Stops (after ++ ']' :: rest) := by
  cases after with
  | nil =>
      rintro c ⟨⟩
      decide
  | cons blank after =>
      rintro c ⟨⟩
      exact not_isKeyChar_of_isInnerBlank (h blank (List.mem_cons_self ..))

/-! ## Keys -/

theorem key?_eq_some_iff : key? cs = some (key, rest) ↔
    IsBare (String.ofList key) ∧ Stops rest ∧ cs = key ++ rest := by
  constructor
  · intro h
    unfold key? at h
    split at h
    · cases h
    · next hne =>
        obtain ⟨rfl, rfl⟩ := Prod.mk.inj (Option.some.inj h)
        refine ⟨?_, fun c hc => ?_, List.takeWhile_append_dropWhile.symm⟩
        · rw [IsBare, String.toList_ofList]
          exact ⟨hne, fun c hc => List.mem_takeWhile_imp hc⟩
        · have hfirst := List.head?_dropWhile_not isKeyChar cs
          rw [Option.mem_def.mp hc] at hfirst
          exact hfirst
  · rintro ⟨hkey, hrest, rfl⟩
    have hread := key?_bare hkey hrest
    rwa [String.toList_ofList] at hread

theorem quoted?_eq_some_iff : quoted? cs = some (key, rest) ↔
    ∃ quote : Quote, quote.mark ∉ key ∧ cs = quote.mark :: (key ++ quote.mark :: rest) := by
  constructor
  · intro h
    unfold quoted? at h
    split at h
    · obtain ⟨hkey, rfl⟩ := Text.breakOn?_singleton_eq_some_iff.mp h
      exact ⟨.single, hkey, rfl⟩
    · obtain ⟨hkey, rfl⟩ := Text.breakOn?_singleton_eq_some_iff.mp h
      exact ⟨.double, hkey, rfl⟩
    · cases h
  · rintro ⟨quote, hkey, rfl⟩
    cases quote with
    | single => exact Text.breakOn?_singleton_eq_some_iff.mpr ⟨hkey, rfl⟩
    | double => exact Text.breakOn?_singleton_eq_some_iff.mpr ⟨hkey, rfl⟩

theorem isKeyChar_mark (quote : Quote) : isKeyChar quote.mark = false := by
  cases quote <;> decide

/-- A bare key is not taken for one in quotes. -/
theorem quoted?_of_bare {key : String} (h : IsBare key) (rest : List Char) :
    quoted? (key.toList ++ rest) = none := by
  rw [Option.eq_none_iff_forall_ne_some]
  rintro ⟨found, after⟩ hfound
  obtain ⟨quote, -, hcs⟩ := quoted?_eq_some_iff.mp hfound
  obtain ⟨first, more, hkey⟩ := List.exists_cons_of_ne_nil h.1
  have hfirst := h.2 first (hkey ▸ List.mem_cons_self ..)
  rw [hkey] at hcs
  rw [(List.cons.inj hcs).1, isKeyChar_mark] at hfirst
  cases hfirst

/-- A key at the start of a text inside of brackets. -/
def innerKey? (cs : List Char) : Option (List Char × List Char) := (quoted? cs).or (key? cs)

theorem innerKey?_quotedKey {quote : Option Quote} {key : String} (h : Fits quote key)
    (hrest : Stops rest) : innerKey? (quotedKey quote key ++ rest) = some (key.toList, rest) := by
  cases quote with
  | none => rw [quotedKey, innerKey?, quoted?_of_bare h, Option.none_or, key?_bare h hrest]
  | some quote =>
      have hquoted : quoted? (quotedKey (some quote) key ++ rest) = some (key.toList, rest) :=
        quoted?_eq_some_iff.mpr ⟨quote, h, by simp [quotedKey]⟩
      rw [innerKey?, hquoted, Option.some_or]

theorem exists_of_innerKey? (h : innerKey? cs = some (key, rest)) :
    ∃ quote, Fits quote (String.ofList key) ∧ cs = quotedKey quote (String.ofList key) ++ rest := by
  rcases Option.or_eq_some_iff.mp h with hquoted | ⟨-, hbare⟩
  · obtain ⟨quote, hkey, rfl⟩ := quoted?_eq_some_iff.mp hquoted
    refine ⟨some quote, ?_, ?_⟩
    · rwa [Fits, String.toList_ofList]
    · simp [quotedKey]
  · obtain ⟨hkey, -, rfl⟩ := key?_eq_some_iff.mp hbare
    exact ⟨none, hkey, by rw [quotedKey, String.toList_ofList]⟩

theorem not_isInnerBlank_of_isKeyChar {c : Char} (h : isKeyChar c = true) :
    isInnerBlank c = false := by
  rw [Bool.eq_false_iff]
  intro hblank
  rw [not_isKeyChar_of_isInnerBlank hblank] at h
  cases h

/-- A key in brackets does not start with a blank that may stand in front of it. -/
theorem head?_quotedKey {quote : Option Quote} {key : String} (h : Fits quote key) :
    ∀ c ∈ (quotedKey quote key ++ rest).head?, isInnerBlank c = false := by
  cases quote with
  | none =>
      obtain ⟨first, more, hkey⟩ := List.exists_cons_of_ne_nil h.1
      rw [quotedKey, hkey]
      rintro c ⟨⟩
      exact not_isInnerBlank_of_isKeyChar (h.2 first (hkey ▸ List.mem_cons_self ..))
  | some quote =>
      rintro c ⟨⟩
      cases quote <;> decide

/-! ## Lookups -/

/-- The rest of a lookup in brackets is blanks, a key and blanks. -/
theorem bracketed?_eq_some_iff : bracketed? cs = some (key, rest) ↔
    ∃ before after more, innerKey? more = some (key, after ++ ']' :: rest) ∧ cs = before ++ more
      ∧ (∀ c ∈ before, isInnerBlank c = true) ∧ (∀ c ∈ after, isInnerBlank c = true)
      ∧ ∀ c ∈ more.head?, isInnerBlank c = false := by
  constructor
  · intro h
    simp only [bracketed?, Option.bind_eq_bind, Option.bind_eq_some_iff, Prod.exists] at h
    obtain ⟨found, tail, hfound, h⟩ := h
    split at h
    · next hclosed =>
        obtain ⟨rfl, rfl⟩ := Prod.mk.inj (Option.some.inj h)
        refine ⟨cs.takeWhile isInnerBlank, tail.takeWhile isInnerBlank, cs.dropWhile isInnerBlank,
          ?_, List.takeWhile_append_dropWhile.symm, fun c hc => List.mem_takeWhile_imp hc,
          fun c hc => List.mem_takeWhile_imp hc, fun c hc => ?_⟩
        · rw [← hclosed, List.takeWhile_append_dropWhile]
          exact hfound
        · have hfirst := List.head?_dropWhile_not isInnerBlank cs
          rw [Option.mem_def.mp hc] at hfirst
          exact hfirst
    · cases h
  · rintro ⟨before, after, more, hkey, rfl, hbefore, hafter, hmore⟩
    have hclosed : (after ++ ']' :: rest).dropWhile isInnerBlank = ']' :: rest := by
      refine Text.dropWhile_append hafter ?_
      rintro c ⟨⟩
      decide
    have hinner : (quoted? more).or (key? more) = some (key, after ++ ']' :: rest) := hkey
    simp only [bracketed?, Text.dropWhile_append hbefore hmore, hinner, Option.bind_eq_bind,
      Option.bind_some, hclosed]

theorem next?_written {l : Lookup} (h : l.Grammatical) (hrest : Stops rest) :
    next? (l.written ++ rest) = some (l.key.toList, rest) := by
  cases h with
  | dotted hkey => exact key?_bare hkey hrest
  | @bracketed before after quote key hbefore hkey hafter =>
      refine bracketed?_eq_some_iff.mpr
        ⟨before, after, quotedKey quote key ++ (after ++ ']' :: rest),
          innerKey?_quotedKey hkey (stops_blanks hafter rest), ?_, hbefore, hafter,
          head?_quotedKey hkey⟩
      show before ++ (quotedKey quote key ++ (after ++ [']'])) ++ rest = _
      simp only [List.append_assoc, List.singleton_append]

theorem exists_of_next? (h : next? cs = some (key, rest)) :
    ∃ l : Lookup, l.Grammatical ∧ l.key = String.ofList key ∧ cs = l.written ++ rest := by
  unfold next? at h
  split at h
  · obtain ⟨hkey, -, rfl⟩ := key?_eq_some_iff.mp h
    refine ⟨.dotted (String.ofList key), .dotted hkey, rfl, ?_⟩
    rw [Lookup.written, String.toList_ofList, List.cons_append]
  · obtain ⟨before, after, more, hkey, rfl, hbefore, hafter, -⟩ := bracketed?_eq_some_iff.mp h
    obtain ⟨quote, hfits, rfl⟩ := exists_of_innerKey? hkey
    refine ⟨.bracketed before quote (String.ofList key) after, .bracketed hbefore hfits hafter,
      rfl, ?_⟩
    simp only [Lookup.written, List.cons_append, List.append_assoc, List.nil_append]
  · cases h

/-! ## Paths -/

theorem more?_nil : more? [] = some [] := by
  rw [more?]
  rfl

theorem more?_of_next? (h : next? cs = some (key, rest)) :
    more? cs = (more? rest).map (key :: ·) := by
  have hne : ¬ cs.isEmpty = true := by
    rw [List.isEmpty_iff]
    rintro rfl
    cases h
  rw [more?, if_neg hne]
  split
  · next hfound =>
      obtain ⟨rfl, rfl⟩ := Prod.mk.inj (Option.some.inj (hfound.symm.trans h))
      rfl
  · next hnone =>
      rw [h] at hnone
      cases hnone

theorem more?_written {lookups : List Lookup} (h : ∀ l ∈ lookups, l.Grammatical) :
    more? (lookups.flatMap Lookup.written) = some (lookups.map fun l => l.key.toList) := by
  induction lookups with
  | nil => exact more?_nil
  | cons l lookups ih =>
      obtain ⟨hl, hlookups⟩ := List.forall_mem_cons.mp h
      rw [List.flatMap_cons, more?_of_next? (next?_written hl (stops_lookups lookups)), ih hlookups]
      rfl

theorem exists_of_more? {keys : List (List Char)} (h : more? cs = some keys) :
    ∃ lookups : List Lookup, (∀ l ∈ lookups, l.Grammatical) ∧ cs = lookups.flatMap Lookup.written
      ∧ keys.map String.ofList = lookups.map Lookup.key := by
  induction keys generalizing cs with
  | nil =>
      rw [more?] at h
      split at h
      · next hempty =>
          exact ⟨[], List.forall_mem_nil _, List.isEmpty_iff.mp hempty, rfl⟩
      · split at h
        · obtain ⟨_, -, hcons⟩ := Option.map_eq_some_iff.mp h
          cases hcons
        · cases h
  | cons key keys ih =>
      rw [more?] at h
      split at h
      · cases h
      · split at h
        · next hnext =>
            obtain ⟨keys', hmore, hcons⟩ := Option.map_eq_some_iff.mp h
            obtain ⟨rfl, rfl⟩ := List.cons.inj hcons
            obtain ⟨l, hl, hkey, rfl⟩ := exists_of_next? hnext
            obtain ⟨lookups, hlookups, rfl, hkeys⟩ := ih hmore
            refine ⟨l :: lookups, List.forall_mem_cons.mpr ⟨hl, hlookups⟩, rfl, ?_⟩
            rw [List.map_cons, List.map_cons, hkeys, hkey]
        · cases h

/-- What is read is what the grammar gives once the blanks around it are cut off. -/
theorem read?_eq_some_iff {body : List Char} {path : List String} : read? body = some path ↔
    ∃ s : Spelling, s.Grammatical ∧ Text.trim body = s.written ∧ path = s.path := by
  constructor
  · intro h
    simp only [read?, Option.bind_eq_bind, Option.bind_eq_some_iff] at h
    obtain ⟨⟨key, rest⟩, hkey, keys, hkeys, hpath⟩ := h
    obtain ⟨hfirst, -, hbody⟩ := key?_eq_some_iff.mp hkey
    obtain ⟨lookups, hlookups, rfl, hmap⟩ := exists_of_more? hkeys
    refine ⟨⟨String.ofList key, lookups⟩, ⟨hfirst, hlookups⟩, ?_, ?_⟩
    · rw [hbody, Spelling.written, String.toList_ofList]
    · rw [← Option.some.inj hpath, List.map_cons, hmap, Spelling.path]
  · rintro ⟨s, hs, hbody, rfl⟩
    rw [read?, hbody, Spelling.written, key?_bare hs.first (stops_lookups s.lookups)]
    simp [more?_written hs.lookups, Spelling.path, List.map_map, Function.comp_def]

/-! ## One way to write it -/

theorem eq_of_append_eq {p : Char → Bool} {before before' more more' : List Char}
    (hbefore : ∀ c ∈ before, p c = true) (hbefore' : ∀ c ∈ before', p c = true)
    (hmore : ∀ c ∈ more.head?, p c = false) (hmore' : ∀ c ∈ more'.head?, p c = false)
    (h : before ++ more = before' ++ more') : before = before' ∧ more = more' := by
  have hsame := congrArg (List.takeWhile p) h
  rw [Text.takeWhile_append hbefore hmore, Text.takeWhile_append hbefore' hmore'] at hsame
  subst hsame
  exact ⟨rfl, List.append_cancel_left h⟩

/-- A key is written in quotes or without them, but not both ways at once. -/
theorem eq_of_quotedKey_append {quote quote' : Option Quote} {key : String} {more more' : List Char}
    (h : Fits quote key) (h' : Fits quote' key)
    (heq : quotedKey quote key ++ more = quotedKey quote' key ++ more') : quote = quote' := by
  have hclash {q : Quote} {after after' : List Char} (hbare : IsBare key)
      (hsame : key.toList ++ after = q.mark :: after') : False := by
    obtain ⟨first, others, hkey⟩ := List.exists_cons_of_ne_nil hbare.1
    have hfirst := hbare.2 first (hkey ▸ List.mem_cons_self ..)
    rw [hkey] at hsame
    rw [(List.cons.inj hsame).1, isKeyChar_mark] at hfirst
    cases hfirst
  cases quote with
  | none =>
      cases quote' with
      | none => rfl
      | some quote' => exact (hclash h heq).elim
  | some quote =>
      cases quote' with
      | none => exact (hclash h' heq.symm).elim
      | some quote' =>
          exact congrArg some (Quote.eq_of_mark_eq (List.cons.inj heq).1)

theorem Lookup.eq_of_written_append {l l' : Lookup} {more more' : List Char} (h : l.Grammatical)
    (h' : l'.Grammatical) (hmore : Stops more) (hmore' : Stops more')
    (heq : l.written ++ more = l'.written ++ more') : l = l' ∧ more = more' := by
  have hread := next?_written h hmore
  rw [heq, next?_written h' hmore'] at hread
  obtain ⟨hkey, rfl⟩ := Prod.mk.inj (Option.some.inj hread)
  refine ⟨?_, rfl⟩
  have hwritten := List.append_cancel_right heq
  rw [String.toList_inj] at hkey
  cases h with
  | dotted =>
      cases h' with
      | dotted => exact congrArg _ hkey.symm
      | bracketed => exact absurd (List.cons.inj hwritten).1 (by decide)
  | bracketed hbefore hfits hafter =>
      cases h' with
      | dotted => exact absurd (List.cons.inj hwritten).1 (by decide)
      | bracketed hbefore' hfits' hafter' =>
          obtain rfl := hkey
          obtain ⟨rfl, hrest⟩ := eq_of_append_eq hbefore hbefore' (head?_quotedKey hfits)
            (head?_quotedKey hfits') (List.cons.inj hwritten).2
          obtain rfl := eq_of_quotedKey_append hfits hfits' hrest
          obtain rfl := List.append_cancel_right (List.append_cancel_left hrest)
          rfl

theorem eq_of_flatMap_written {lookups lookups' : List Lookup} (h : ∀ l ∈ lookups, l.Grammatical)
    (h' : ∀ l ∈ lookups', l.Grammatical)
    (heq : lookups.flatMap Lookup.written = lookups'.flatMap Lookup.written) :
    lookups = lookups' := by
  induction lookups generalizing lookups' with
  | nil =>
      cases lookups' with
      | nil => rfl
      | cons l' lookups' => cases l' <;> cases heq
  | cons l lookups ih =>
      cases lookups' with
      | nil => cases l <;> cases heq
      | cons l' lookups' =>
          obtain ⟨hl, hlookups⟩ := List.forall_mem_cons.mp h
          obtain ⟨hl', hlookups'⟩ := List.forall_mem_cons.mp h'
          rw [List.flatMap_cons, List.flatMap_cons] at heq
          obtain ⟨rfl, hrest⟩ := Lookup.eq_of_written_append hl hl' (stops_lookups lookups)
            (stops_lookups lookups') heq
          rw [ih hlookups hlookups' hrest]

/-- Different spellings are different texts. -/
theorem Spelling.eq_of_written_eq {s s' : Spelling} (h : s.Grammatical) (h' : s'.Grammatical)
    (heq : s.written = s'.written) : s = s' := by
  obtain ⟨first, lookups⟩ := s
  obtain ⟨first', lookups'⟩ := s'
  obtain ⟨hfirst, hrest⟩ := eq_of_append_eq h.first.2 h'.first.2 (stops_lookups lookups)
    (stops_lookups lookups') heq
  obtain rfl := String.toList_inj.mp hfirst
  obtain rfl := eq_of_flatMap_written h.lookups h'.lookups hrest
  rfl

/-! ## Writing a path -/

/-- A key that lacks one of the quotes can be put in quotes. -/
theorem exists_quoted {key : String} (h : '\'' ∉ key.toList ∨ '"' ∉ key.toList) :
    ∃ l : Lookup, l.key = key ∧ l.Grammatical ∧ l.IsQuoted := by
  have hquote : ∃ quote, Fits (some quote) key := by
    rcases h with hsingle | hdouble
    · exact ⟨.single, hsingle⟩
    · exact ⟨.double, hdouble⟩
  obtain ⟨quote, hfits⟩ := hquote
  exact ⟨.bracketed [] (some quote) key [], rfl,
    .bracketed (List.forall_mem_nil _) hfits (List.forall_mem_nil _), trivial⟩

theorem exists_quoted_lookups {keys : List String}
    (h : ∀ key ∈ keys, '\'' ∉ key.toList ∨ '"' ∉ key.toList) :
    ∃ lookups : List Lookup, lookups.map Lookup.key = keys
      ∧ ∀ l ∈ lookups, l.Grammatical ∧ l.IsQuoted := by
  induction keys with
  | nil => exact ⟨[], rfl, List.forall_mem_nil _⟩
  | cons key keys ih =>
      obtain ⟨hkey, hkeys⟩ := List.forall_mem_cons.mp h
      obtain ⟨l, rfl, hl⟩ := exists_quoted hkey
      obtain ⟨lookups, rfl, hlookups⟩ := ih hkeys
      exact ⟨l :: lookups, rfl, List.forall_mem_cons.mpr ⟨hl, hlookups⟩⟩

theorem getLast?_bare {key : String} (h : IsBare key) :
    ∀ c ∈ key.toList.getLast?, Text.isBlank c = false :=
  fun c hc => isBlank_of_isKeyChar (h.2 c (List.mem_of_mem_getLast? hc))

/-- What is written in brackets ends with the closing one. -/
theorem Lookup.written_bracketed (before after : List Char) (quote : Option Quote) (key : String) :
    (Lookup.bracketed before quote key after).written
      = '[' :: (before ++ (quotedKey quote key ++ after)) ++ [']'] := by
  simp [Lookup.written]

theorem Lookup.getLast?_written {l : Lookup} (h : l.Grammatical) (front : List Char) :
    ∀ c ∈ (front ++ l.written).getLast?, Text.isBlank c = false := by
  cases h with
  | @dotted key hkey =>
      have hsplit : front ++ (Lookup.dotted key).written = (front ++ ['.']) ++ key.toList := by
        simp [Lookup.written]
      rw [hsplit, List.getLast?_append_of_ne_nil _ hkey.1]
      exact getLast?_bare hkey
  | @bracketed before after quote key _ _ _ =>
      rw [Lookup.written_bracketed, ← List.append_assoc, List.getLast?_concat]
      rintro c ⟨⟩
      decide

/-- A written path neither starts nor ends with a blank, whatever stands in its quotes. -/
theorem Spelling.Grammatical.trim_written {s : Spelling} (h : s.Grammatical)
    {before after : List Char} (hbefore : ∀ c ∈ before, Text.isBlank c = true)
    (hafter : ∀ c ∈ after, Text.isBlank c = true) :
    Text.trim (before ++ s.written ++ after) = s.written := by
  obtain ⟨first, others, hfirst⟩ := List.exists_cons_of_ne_nil h.first.1
  have hwritten : s.written = first :: (others ++ s.lookups.flatMap Lookup.written) := by
    rw [Spelling.written, hfirst, List.cons_append]
  refine Text.trim_edged hbefore hafter ?_ ?_ ?_
  · rw [hwritten]
    exact List.cons_ne_nil _ _
  · rw [hwritten]
    rintro c ⟨⟩
    exact isBlank_of_isKeyChar (h.first.2 first (hfirst ▸ List.mem_cons_self ..))
  · rw [Spelling.written]
    rcases List.eq_nil_or_concat s.lookups with hnone | ⟨lookups, last, hlast⟩
    · rw [hnone, List.flatMap_nil, List.append_nil]
      exact getLast?_bare h.first
    · have hlookups := h.lookups
      rw [hlast, List.concat_eq_append] at hlookups ⊢
      rw [List.flatMap_append, List.flatMap_singleton, ← List.append_assoc]
      exact Lookup.getLast?_written (hlookups last (by simp)) _

/-- A text with a bare key behind its last period is a path if what stands in front of the
period is one. -/
theorem read?_concat_iff {before after target : List Char} {key : String} {path : List String}
    (hbefore : ∀ c ∈ before, Text.isBlank c = true)
    (hafter : ∀ c ∈ after, Text.isBlank c = true)
    (htarget : ∀ c ∈ target, Text.isBlank c = false) (hkey : IsBare key) :
    read? (before ++ (target ++ '.' :: key.toList) ++ after) = some path
      ↔ ∃ s : Spelling, s.Grammatical ∧ s.written = target ∧ path = s.path ++ [key] := by
  have hperiod : ∀ k : String, IsBare k → '.' ∉ k.toList := fun k hk hmem =>
    absurd (hk.2 _ hmem) (by decide)
  have hnotBlank : ∀ c ∈ target ++ '.' :: key.toList, Text.isBlank c = false := by
    rw [List.forall_mem_append, List.forall_mem_cons]
    exact ⟨htarget, by decide, fun c hc => isBlank_of_isKeyChar (hkey.2 c hc)⟩
  rw [read?_eq_some_iff, Text.trim_surrounded hbefore hafter hnotBlank]
  constructor
  · rintro ⟨⟨first, lookups⟩, hs, hwritten, rfl⟩
    rcases List.eq_nil_or_concat lookups with rfl | ⟨lookups, last, rfl⟩
    · -- a key alone has no period
      rw [Spelling.written, List.flatMap_nil, List.append_nil] at hwritten
      refine absurd ?_ (hperiod first hs.first)
      rw [← hwritten]
      simp
    · rw [List.concat_eq_append] at hs hwritten ⊢
      have hlookups := hs.lookups
      rw [List.forall_mem_append, List.forall_mem_singleton] at hlookups
      rw [Spelling.written, List.flatMap_append, List.flatMap_singleton, ← List.append_assoc]
        at hwritten
      cases last with
      | dotted name =>
          obtain ⟨hname⟩ := hlookups.2
          obtain ⟨htarget, hkeys⟩ :=
            Text.append_cons_inj_last (hperiod key hkey) (hperiod name hname) hwritten
          obtain rfl := String.toList_inj.mp hkeys
          refine ⟨⟨first, lookups⟩, ⟨hs.first, hlookups.1⟩, htarget.symm, ?_⟩
          simp [Spelling.path, Lookup.key]
      | bracketed start quote name stop =>
          -- the text would end in a bracket, and not in a key
          rw [Lookup.written_bracketed, ← List.append_assoc, List.append_cons] at hwritten
          have hlast := congrArg List.getLast? hwritten
          rw [List.getLast?_append_of_ne_nil _ hkey.1, List.getLast?_concat] at hlast
          exact absurd (hkey.2 ']' (List.mem_of_getLast? hlast)) (by decide)
  · rintro ⟨⟨first, lookups⟩, hs, rfl, rfl⟩
    refine ⟨⟨first, lookups ++ [.dotted key]⟩, ⟨hs.first, ?_⟩, ?_, ?_⟩
    · rw [List.forall_mem_append, List.forall_mem_singleton]
      exact ⟨hs.lookups, .dotted hkey⟩
    · simp [Spelling.written, Lookup.written]
    · simp [Spelling.path, Lookup.key]

/-- A text is read exactly if it is spelled by the grammar between blanks, and there is no
more than one spelling of it. So every path that starts with a bare key, and whose other keys
each lack one of the quotes, can be written with those in quotes; and in whatever way they are
written, bare or in quotes, it is read back. -/
theorem read?_iff_spelled :
    (∀ body path, read? body = some path ↔
        ∃ s : Spelling, s.Grammatical ∧ Text.trim body = s.written ∧ path = s.path)
    ∧ (∀ s s' : Spelling, s.Grammatical → s'.Grammatical → s.written = s'.written → s = s')
    ∧ ∀ (first : String) (keys : List String), IsBare first →
        (∀ key ∈ keys, '\'' ∉ key.toList ∨ '"' ∉ key.toList) →
          (∃ lookups : List Lookup, lookups.map Lookup.key = keys
              ∧ ∀ l ∈ lookups, l.Grammatical ∧ l.IsQuoted)
          ∧ ∀ (lookups : List Lookup) (before after : List Char), lookups.map Lookup.key = keys →
              (∀ l ∈ lookups, l.Grammatical) → (∀ c ∈ before, Text.isBlank c = true) →
              (∀ c ∈ after, Text.isBlank c = true) →
                read? (before ++ Spelling.written ⟨first, lookups⟩ ++ after)
                  = some (first :: keys) := by
  refine ⟨fun _ _ => read?_eq_some_iff, fun _ _ => Spelling.eq_of_written_eq, ?_⟩
  intro first keys hfirst hkeys
  refine ⟨exists_quoted_lookups hkeys, ?_⟩
  rintro lookups before after rfl hlookups hbefore hafter
  have hspelled : (Spelling.mk first lookups).Grammatical := ⟨hfirst, hlookups⟩
  exact read?_eq_some_iff.mpr
    ⟨⟨first, lookups⟩, hspelled, hspelled.trim_written hbefore hafter, rfl⟩

/-- A slash, a period and a bracket in quotes, one quote between two of the other, and a key that
is empty. -/
def quotedPath : Spelling where
  first := "dependencies"
  lookups :=
    [.bracketed [] (some .single) "acct/db" [], .bracketed [' '] (some .double) "it's a.b]" ['\t'],
      .dotted "main", .bracketed [] none "url" ['\n'], .bracketed [] (some .single) "" []]

theorem grammatical_quotedPath : quotedPath.Grammatical where
  first := by decide
  lookups := by
    have hslash : Fits (some .single) "acct/db" := by simp [Fits, Quote.mark]
    have hmixed : Fits (some .double) "it's a.b]" := by simp [Fits, Quote.mark]
    have hempty : Fits (some .single) "" := by simp [Fits]
    simp only [quotedPath, List.forall_mem_cons]
    refine ⟨.bracketed ?_ hslash ?_, .bracketed ?_ hmixed ?_, .dotted (by decide),
      .bracketed ?_ (by decide : IsBare "url") ?_, .bracketed ?_ hempty ?_, List.forall_mem_nil _⟩
    all_goals simp [isInnerBlank]

theorem read?_quotedPath :
    IsBare "dependencies"
    ∧ (∀ key ∈ ["acct/db", "it's a.b]", "main", "url", ""],
        '\'' ∉ key.toList ∨ '"' ∉ key.toList)
    ∧ quotedPath.Grammatical
    ∧ quotedPath.written
      = "dependencies['acct/db'][ \"it's a.b]\"\t].main[url\n]['']".toList
    ∧ read? ([' '] ++ quotedPath.written ++ [])
      = some ["dependencies", "acct/db", "it's a.b]", "main", "url", ""] := by
  have hfirst : IsBare "dependencies" := by decide
  have hkeys : ∀ key ∈ ["acct/db", "it's a.b]", "main", "url", ""],
      '\'' ∉ key.toList ∨ '"' ∉ key.toList := by simp
  have hspelled := grammatical_quotedPath
  refine ⟨hfirst, hkeys, hspelled, by simp [quotedPath, Spelling.written, Lookup.written, quotedKey,
    Quote.mark], ?_⟩
  exact (read?_iff_spelled.2.2 "dependencies" _ hfirst hkeys).2 quotedPath.lookups [' '] [] rfl
    hspelled.lookups (by simp [Text.isBlank]) (List.forall_mem_nil _)

end Manifest.ReferencePath
