import Manifest.Proofs.SourceMap
/-!
# Places in documents of block style

A document of block style is nested mappings with one line for each key, the keys of an
inner mapping indented by two more than the one they belong to (`Entries.printed`). There
a search finds for each path exactly the line of its last key (`locate_printed`), however
often the key is used elsewhere: a line with the same key is either further in, or belongs
to another mapping and is outside of the block that the keys before it have opened.
-/

namespace Manifest.SourceMap

open ReferencePath (IsBare isKeyChar)

/-- The entries of a mapping: a key with a text behind it, or with entries below it. -/
inductive Entries where
  | nil
  | scalar (key value : String) (rest : Entries)
  | mapping (key : String) (inner rest : Entries)

/-- A bare key that is no position in a list. -/
structure IsKey (key : String) : Prop where
  bare : IsBare key
  word : key.toList.all Char.isDigit = false

namespace Entries

def keys : Entries → List String
  | nil => []
  | scalar key _ rest => key :: rest.keys
  | mapping key _ rest => key :: rest.keys

/-- The paths of all keys, each followed by those of the keys below it. -/
def paths : Entries → List (List String)
  | nil => []
  | scalar key _ rest => [key] :: rest.paths
  | mapping key inner rest => [key] :: (inner.paths.map (key :: ·) ++ rest.paths)

def indentation (depth : Nat) : List Char := List.replicate (2 * depth) ' '

/-- The lines of the entries of a mapping that stands within `depth` others. -/
def printed (depth : Nat) : Entries → List (List Char)
  | nil => []
  | scalar key value rest =>
    (indentation depth ++ (key.toList ++ ':' :: ' ' :: value.toList)) :: rest.printed depth
  | mapping key inner rest =>
    (indentation depth ++ (key.toList ++ [':']))
      :: (inner.printed (depth + 1) ++ rest.printed depth)

def text (es : Entries) : String :=
  String.ofList ((es.printed 0).flatMap (· ++ ['\n']))

/-- No key stands twice in a mapping, and no text goes on behind the end of its line. -/
inductive Proper : Entries → Prop
  | nil : Proper nil
  | scalar {key value : String} {rest : Entries} (hkey : IsKey key) (hnew : key ∉ rest.keys)
      (hvalue : '\n' ∉ value.toList) (hrest : rest.Proper) : Proper (scalar key value rest)
  | mapping {key : String} {inner rest : Entries} (hkey : IsKey key) (hnew : key ∉ rest.keys)
      (hinner : inner.Proper) (hrest : rest.Proper) : Proper (mapping key inner rest)

variable {es inner rest : Entries} {key value k : String} {path ks : List String}
variable {number depth i : Nat} {m l : Line} {before : List Line}

/-! ## Lines -/

/-- The lines of entries as a search sees them, the first of them with the given number. -/
def lines (number depth : Nat) (es : Entries) : List Line :=
  ((es.printed depth).zipIdx number).map fun line =>
    Line.ofText line.2 (Text.dropReturn line.1)

theorem length_printed (es : Entries) : ∀ depth, (es.printed depth).length = es.paths.length := by
  induction es with
  | nil => exact fun _ => rfl
  | scalar key value rest ih =>
      intro depth
      rw [printed, paths, List.length_cons, List.length_cons, ih]
  | mapping key inner rest ihinner ihrest =>
      intro depth
      rw [printed, paths, List.length_cons, List.length_cons, List.length_append,
        List.length_append, List.length_map, ihinner, ihrest]

theorem length_lines (es : Entries) (number depth : Nat) :
    (es.lines number depth).length = es.paths.length := by
  rw [lines, List.length_map, List.length_zipIdx, length_printed]

theorem number_of_lines (h : (es.lines number depth)[i]? = some m) : m.number = number + i := by
  rw [lines, List.getElem?_map, List.getElem?_zipIdx, Option.map_map, Option.map_eq_some_iff] at h
  obtain ⟨raw, -, rfl⟩ := h
  rfl

theorem byteLength_indentation (depth : Nat) :
    Text.byteLength (indentation depth) = 2 * depth := by
  have hspaces : ∀ n : Nat, Text.byteLength (List.replicate n ' ') = n := by
    intro n
    induction n with
    | zero => rfl
    | succ n ih =>
        have hspace : Text.byteLength [' '] = 1 := by decide
        rw [List.replicate_succ', Text.byteLength_append, ih, hspace]
  exact hspaces (2 * depth)

theorem ofText_printed {cs : List Char} (hcs : ∀ c ∈ cs.head?, Text.isBlank c = false) :
    Line.ofText number (indentation depth ++ cs) = ⟨number, 2 * depth, cs⟩ := by
  have hblank : ∀ c ∈ indentation depth, Text.isBlank c = true := by
    intro c hc
    rw [List.eq_of_mem_replicate hc]
    decide
  rw [Line.ofText, Text.takeWhile_append hblank hcs, byteLength_indentation, Text.trimLeft,
    Text.dropWhile_append hblank hcs]

/-- The line of a key. -/
def keyLine (number depth : Nat) (key : String) (tail : List Char) : Line :=
  ⟨number, 2 * depth, key.toList ++ ':' :: tail⟩

theorem ofText_key (hkey : IsKey key) (number depth : Nat) (tail : List Char) :
    Line.ofText number (Text.dropReturn (indentation depth ++ (key.toList ++ ':' :: tail)))
      = keyLine number depth key (Text.dropReturn tail) := by
  rw [← List.append_assoc, Text.dropReturn_append_cons (by decide), List.append_assoc]
  refine ofText_printed ?_
  obtain ⟨c, cs, hcons⟩ := List.exists_cons_of_ne_nil hkey.bare.1
  have hc : isKeyChar c = true := hkey.bare.2 c (by simp [hcons])
  rw [hcons]
  rintro _ ⟨⟩
  exact ReferencePath.isBlank_of_isKeyChar hc

theorem lines_scalar (hkey : IsKey key) : (scalar key value rest).lines number depth
    = keyLine number depth key (Text.dropReturn (' ' :: value.toList))
        :: rest.lines (number + 1) depth := by
  rw [lines, printed, List.zipIdx_cons, List.map_cons, ofText_key hkey]
  rfl

theorem lines_mapping (hkey : IsKey key) : (mapping key inner rest).lines number depth
    = keyLine number depth key []
        :: (inner.lines (number + 1) (depth + 1)
          ++ rest.lines (number + 1 + inner.paths.length) depth) := by
  rw [lines, printed, List.zipIdx_cons, List.map_cons, ofText_key hkey, List.zipIdx_append,
    List.map_append, length_printed]
  rfl

theorem lines_of_text (h : ∀ line ∈ es.printed 0, '\n' ∉ line) :
    linesOf es.text.toList = es.lines 1 0 := by
  rw [linesOf, text, String.toList_ofList, Text.lines_flatMap h, lines, List.zipIdx_map,
    List.zipIdx_succ, List.map_map, List.map_map]
  rfl

/-- Lines have their numbers in order, and none is indented less than the entries are. -/
theorem bounds_lines (h : es.Proper) : ∀ number depth : Nat, ∀ m ∈ es.lines number depth,
    number ≤ m.number ∧ m.number < number + es.paths.length ∧ 2 * depth ≤ m.indent := by
  induction h with
  | nil => exact fun _ _ m hm => nomatch hm
  | scalar hkey _ _ _ ih =>
      intro number depth m hm
      rw [lines_scalar hkey, List.mem_cons] at hm
      rw [paths, List.length_cons]
      rcases hm with rfl | hm
      · simp only [keyLine]
        omega
      · have hrest := ih _ _ m hm
        omega
  | mapping hkey _ _ _ ihinner ihrest =>
      intro number depth m hm
      rw [lines_mapping hkey, List.mem_cons, List.mem_append] at hm
      rw [paths, List.length_cons, List.length_append, List.length_map]
      rcases hm with rfl | hm | hm
      · simp only [keyLine]
        omega
      · have hinner := ihinner _ _ m hm
        omega
      · have hrest := ihrest _ _ m hm
        omega

/-- Entries begin with a line of their own depth. -/
theorem head?_lines (h : es.Proper) :
    ∀ m ∈ (es.lines number depth).head?, m.isContent = true ∧ m.indent = 2 * depth := by
  have hcontent {key : String} (hkey : IsKey key) (tail : List Char) :
      (keyLine number depth key tail).isContent = true := by
    obtain ⟨c, cs, hcons⟩ := List.exists_cons_of_ne_nil hkey.bare.1
    have hc : isKeyChar c = true := hkey.bare.2 c (by simp [hcons])
    rw [keyLine, hcons]
    refine decide_eq_true ?_
    rintro rfl
    exact absurd hc (by decide)
  cases h with
  | nil => exact fun m hm => nomatch hm
  | scalar hkey =>
      rw [lines_scalar hkey]
      rintro _ ⟨⟩
      exact ⟨hcontent hkey _, rfl⟩
  | mapping hkey =>
      rw [lines_mapping hkey]
      rintro _ ⟨⟩
      exact ⟨hcontent hkey _, rfl⟩

theorem newline_not_mem (hkey : IsKey key) (tail : List Char) (htail : '\n' ∉ tail)
    (depth : Nat) : '\n' ∉ indentation depth ++ (key.toList ++ ':' :: tail) := by
  have hspaces : '\n' ∉ indentation depth := fun hmem =>
    absurd (List.eq_of_mem_replicate hmem) (by decide)
  have hchars : '\n' ∉ key.toList := fun hmem => absurd (hkey.bare.2 _ hmem) (by decide)
  simp [hspaces, hchars, htail]

theorem newline_not_mem_printed (h : es.Proper) : ∀ {depth : Nat}, ∀ line ∈ es.printed depth,
    '\n' ∉ line := by
  induction h with
  | nil => exact fun line hline => nomatch hline
  | scalar hkey _ hvalue _ ih =>
      intro depth line hline
      rw [printed, List.mem_cons] at hline
      rcases hline with rfl | hline
      · exact newline_not_mem hkey _ (by simp [hvalue]) depth
      · exact ih line hline
  | mapping hkey _ _ _ ihinner ihrest =>
      intro depth line hline
      rw [printed, List.mem_cons, List.mem_append] at hline
      rcases hline with rfl | hline | hline
      · exact newline_not_mem hkey [] List.not_mem_nil depth
      · exact ihinner line hline
      · exact ihrest line hline

/-! ## The line of a key of the mapping -/

/-- What stands around the line of the key `k`: lines that declare it only further in, the
entries below it, and the remaining entries. -/
structure Opens (es : Entries) (number depth : Nat) (k : String) (before : List Line)
    (l : Line) (inner rest : Entries) : Prop where
  lines : es.lines number depth = before ++ l :: (inner.lines (l.number + 1) (depth + 1)
    ++ rest.lines (l.number + 1 + inner.paths.length) depth)
  line : ∃ tail, l = keyLine (number + before.length) depth k tail
  key : IsKey k
  mem : k ∈ es.keys
  inner : inner.Proper
  rest : rest.Proper
  others : ∀ m ∈ before, m.declares k.toList = true → 2 * depth < m.indent

theorem Opens.indent_eq (h : Opens es number depth k before l inner rest) :
    l.indent = 2 * depth := by
  obtain ⟨tail, hline⟩ := h.line
  rw [hline, keyLine]

theorem Opens.number_eq (h : Opens es number depth k before l inner rest) :
    l.number = number + before.length := by
  obtain ⟨tail, hline⟩ := h.line
  rw [hline, keyLine]

/-- A path that begins with a key leads to the line of that key, or among the entries
below it. -/
inductive Leads (inner : Entries) (line : Nat) : (ks : List String) → (i : Nat) → Prop
  | here : Leads inner line [] line
  | below {ks : List String} {j : Nat} (h : inner.paths[j]? = some ks) :
      Leads inner line ks (line + 1 + j)

/-- The line of one of the entries, seen from entries with more lines in front. -/
theorem Opens.behind {more : Entries} {front : List Line}
    (h : Opens rest (number + front.length) depth k before l inner more)
    (hlines : es.lines number depth = front ++ rest.lines (number + front.length) depth)
    (hkeys : k ∈ es.keys)
    (hfront : ∀ m ∈ front, m.declares k.toList = true → 2 * depth < m.indent) :
    Opens es number depth k (front ++ before) l inner more where
  lines := by rw [hlines, h.lines, List.append_assoc]
  line := by
    obtain ⟨tail, hline⟩ := h.line
    exact ⟨tail, by rw [hline, List.length_append, Nat.add_assoc]⟩
  key := h.key
  mem := hkeys
  inner := h.inner
  rest := h.rest
  others := by
    intro m hm
    rcases List.mem_append.mp hm with hm | hm
    · exact hfront m hm
    · exact h.others m hm

theorem Leads.behind (h : Leads inner i ks j) (n : Nat) : Leads inner (n + i) ks (n + j) := by
  cases h with
  | here => exact .here
  | below hpath =>
      rw [← Nat.add_assoc, ← Nat.add_assoc]
      exact .below hpath

theorem declares_keyLine (hkey : IsKey key) (hk : IsKey k) (tail : List Char) :
    (keyLine number depth key tail).declares k.toList = true ↔ key = k := by
  rw [keyLine, declares_iff hkey.bare.2 hkey.bare.1 hk.bare.2, String.toList_inj]

theorem exists_opens (h : es.Proper) (depth : Nat) : ∀ (number : Nat) {i : Nat},
    es.paths[i]? = some (k :: ks) →
      ∃ before l inner rest, Opens es number depth k before l inner rest
        ∧ Leads inner before.length ks i := by
  induction h with
  | nil =>
      intro number i hpath
      cases hpath
  | @scalar key value rest hkey hnew hvalue hrest ih =>
      intro number i hpath
      cases i with
      | zero =>
          obtain ⟨rfl, rfl⟩ := List.cons.inj (Option.some.inj hpath)
          exact ⟨[], _, nil, rest, ⟨lines_scalar hkey, ⟨_, rfl⟩, hkey, List.mem_cons_self ..,
            .nil, hrest, fun m hm => nomatch hm⟩, .here⟩
      | succ i =>
          obtain ⟨before, l, inner, more, hopens, hleads⟩ := ih (number + 1) hpath
          refine ⟨[_] ++ before, l, inner, more, hopens.behind (lines_scalar hkey)
            (List.mem_cons_of_mem _ hopens.mem) ?_, ?_⟩
          · intro m hm hdeclares
            obtain rfl := List.mem_singleton.mp hm
            obtain rfl := (declares_keyLine hkey hopens.key _).mp hdeclares
            exact absurd hopens.mem hnew
          · rw [List.length_append, List.length_singleton, Nat.add_comm i]
            exact hleads.behind 1
  | @mapping key inner rest hkey hnew hinner hrest _ ih =>
      intro number i hpath
      have hself {number : Nat} : Opens (mapping key inner rest) number depth key [] _ inner rest :=
        ⟨lines_mapping hkey, ⟨_, rfl⟩, hkey, List.mem_cons_self .., hinner, hrest,
          fun m hm => nomatch hm⟩
      cases i with
      | zero =>
          obtain ⟨rfl, rfl⟩ := List.cons.inj (Option.some.inj hpath)
          exact ⟨[], _, inner, rest, hself, .here⟩
      | succ i =>
          rw [paths, List.getElem?_cons_succ] at hpath
          by_cases hi : i < inner.paths.length
          · -- the path goes on below this key
            rw [List.getElem?_append_left (by rwa [List.length_map]), List.getElem?_map,
              Option.map_eq_some_iff] at hpath
            obtain ⟨path, hpath, hcons⟩ := hpath
            obtain ⟨rfl, rfl⟩ := List.cons.inj hcons
            refine ⟨[], _, inner, rest, hself, ?_⟩
            rw [Nat.add_comm, ← Nat.zero_add 1]
            exact .below hpath
          · rw [List.getElem?_append_right (by rw [List.length_map]; omega),
              List.length_map] at hpath
            obtain ⟨front, hfront⟩ : ∃ front, front = keyLine number depth key []
                :: inner.lines (number + 1) (depth + 1) := ⟨_, rfl⟩
            have hlength : front.length = 1 + inner.paths.length := by
              rw [hfront, List.length_cons, length_lines, Nat.add_comm]
            obtain ⟨before, l, under, more, hopens, hleads⟩ :=
              ih (number + front.length) hpath
            refine ⟨front ++ before, l, under, more, hopens.behind ?_
              (List.mem_cons_of_mem _ hopens.mem) ?_, ?_⟩
            · rw [lines_mapping hkey, hlength, hfront, Nat.add_assoc]
              rfl
            · intro m hm hdeclares
              rw [hfront] at hm
              rcases List.mem_cons.mp hm with rfl | hm
              · obtain rfl := (declares_keyLine hkey hopens.key _).mp hdeclares
                exact absurd hopens.mem hnew
              · have hdeeper := (bounds_lines hinner _ _ m hm).2.2
                omega
            · have hi' : i + 1 = front.length + (i - inner.paths.length) := by omega
              rw [List.length_append, hi']
              exact hleads.behind front.length

/-! ## Searching for a path -/

theorem Opens.outermost {rest' : Entries} {parent : Option Nat}
    (h : Opens es number depth k before l inner rest') (hparent : ∀ p ∈ parent, p < 2 * depth) :
    outermost? ((es.lines number depth).filter fun m =>
      parent.all (· < m.indent) && m.declares k.toList) = some l := by
  obtain ⟨tail, hline⟩ := h.line
  have hl : (parent.all (· < l.indent) && l.declares k.toList) = true := by
    rw [hline, (declares_keyLine h.key h.key tail).mpr rfl, Bool.and_true]
    cases parent with
    | none => rfl
    | some p => exact decide_eq_true (hparent p rfl)
  have hindent := h.indent_eq
  rw [h.lines, List.filter_append, List.filter_cons, if_pos hl]
  refine outermost?_split ?_ ?_
  · intro m hm
    obtain ⟨hm, hdeclares⟩ := List.mem_filter.mp hm
    rw [Bool.and_eq_true] at hdeclares
    rw [hindent]
    exact h.others m hm hdeclares.2
  · intro m hm
    rw [hindent]
    rcases List.mem_append.mp (List.mem_filter.mp hm).1 with hm | hm
    · have hinner := (bounds_lines h.inner _ _ m hm).2.2
      omega
    · exact (bounds_lines h.rest _ _ m hm).2.2

/-- The block of the line of a key is the entries below it. -/
theorem Opens.block_eq {rest' : Entries}
    (h : Opens es number depth k before l inner rest') :
    block l (es.lines number depth) = inner.lines (l.number + 1) (depth + 1) := by
  have hindent := h.indent_eq
  have hnumber := h.number_eq
  have hinner := bounds_lines h.inner (l.number + 1) (depth + 1)
  have hrest := bounds_lines h.rest (l.number + 1 + inner.paths.length) depth
  rw [h.lines]
  refine block_split ?_ ?_ ?_ ?_
  · intro m hm
    obtain ⟨j, hj⟩ := List.getElem?_of_mem hm
    have hbound : j < before.length := (List.getElem?_eq_some_iff.mp hj).1
    have hplace : (es.lines number depth)[j]? = some m := by
      rw [h.lines, List.getElem?_append_left hbound, hj]
    have hcount := number_of_lines hplace
    omega
  · intro m hm
    rcases List.mem_append.mp hm with hm | hm
    · have hlater := hinner m hm
      omega
    · have hlater := hrest m hm
      omega
  · intro m hm
    have hdeeper := hinner m hm
    omega
  · intro m hm
    obtain ⟨hcontent, heq⟩ := head?_lines h.rest m hm
    exact ⟨hcontent, by omega⟩

theorem ne_nil_of_mem_paths : ∀ {es : Entries}, path ∈ es.paths → path ≠ [] := by
  intro es
  induction es with
  | nil => exact fun h => nomatch h
  | scalar key value rest ih =>
      intro h
      rcases List.mem_cons.mp h with rfl | h
      · exact List.cons_ne_nil _ _
      · exact ih h
  | mapping key inner rest _ ih =>
      intro h
      rw [paths, List.mem_cons, List.mem_append, List.mem_map] at h
      rcases h with rfl | ⟨_, _, rfl⟩ | h
      · exact List.cons_ne_nil _ _
      · exact List.cons_ne_nil _ _
      · exact ih h

/-- A search among the lines of entries finds the line of the path. -/
theorem search_lines : ∀ {path : List String} {es : Entries} {number depth i : Nat}
    {parent : Option Nat}, es.Proper → es.paths[i]? = some path → (∀ p ∈ parent, p < 2 * depth) →
    search (path.map String.toList) parent (es.lines number depth)
      = (es.lines number depth)[i]? := by
  intro path
  induction path with
  | nil =>
      intro es number depth i parent _ hpath
      exact absurd rfl (ne_nil_of_mem_paths (List.mem_of_getElem? hpath))
  | cons k ks ih =>
      intro es number depth i parent h hpath hparent
      obtain ⟨before, l, inner, rest, hopens, hleads⟩ := exists_opens h depth number hpath
      rw [List.map_cons, search]
      simp only [hopens.outermost hparent, hopens.block_eq]
      cases hleads with
      | here =>
          rw [List.map_nil, search, Option.none_or, hopens.lines, List.getElem?_append_right
            (Nat.le_refl _), Nat.sub_self, List.getElem?_cons_zero]
      | @below _ j hbelow =>
          have hparent' : ∀ p ∈ some l.indent, p < 2 * (depth + 1) := by
            rintro _ ⟨⟩
            rw [hopens.indent_eq]
            omega
          have hj : j < (inner.lines (l.number + 1) (depth + 1)).length := by
            rw [length_lines]
            exact (List.getElem?_eq_some_iff.mp hbelow).1
          rw [ih hopens.inner hbelow hparent', hopens.lines, Nat.add_assoc before.length,
            List.getElem?_append_right (Nat.le_add_right _ _), Nat.add_sub_cancel_left,
            Nat.add_comm 1 j, List.getElem?_cons_succ, List.getElem?_append_left hj,
            List.getElem?_eq_getElem hj, Option.some_or]

/-! ## Locating a path -/

theorem isKey_of_mem_paths (h : es.Proper) : ∀ {path : List String}, path ∈ es.paths →
    ∀ k ∈ path, IsKey k := by
  induction h with
  | nil => exact fun hpath => nomatch hpath
  | scalar hkey _ _ _ ih =>
      intro path hpath k hk
      rcases List.mem_cons.mp hpath with rfl | hpath
      · obtain rfl := List.mem_singleton.mp hk
        exact hkey
      · exact ih hpath k hk
  | mapping hkey _ _ _ ihinner ihrest =>
      intro path hpath k hk
      rw [paths, List.mem_cons, List.mem_append, List.mem_map] at hpath
      rcases hpath with rfl | ⟨inside, hinside, rfl⟩ | hpath
      · obtain rfl := List.mem_singleton.mp hk
        exact hkey
      · rcases List.mem_cons.mp hk with rfl | hk
        · exact hkey
        · exact ihinner hinside k hk
      · exact ihrest hpath k hk

/-- The keys of a written path are looked for one by one, with none left out. -/
theorem keysOf_text (hne : path ≠ []) (hkeys : ∀ k ∈ path, IsKey k) :
    keysOf (ReferencePath.text path).toList = path.map String.toList := by
  have hpieces : Text.splitOn '.' (ReferencePath.text path).toList = path.map String.toList := by
    refine Text.splitOn_eq_iff.mpr ⟨by simpa using hne, ?_, ?_⟩
    · intro piece hpiece hperiod
      obtain ⟨k, hk, rfl⟩ := List.mem_map.mp hpiece
      exact absurd ((hkeys k hk).bare.2 '.' hperiod) (by decide)
    · rw [ReferencePath.text, String.toList_intercalate, String.toList_ofList]
  rw [keysOf, hpieces, List.filter_eq_self]
  intro piece hpiece
  obtain ⟨k, hk, rfl⟩ := List.mem_map.mp hpiece
  rw [isIndex, (hkeys k hk).word]
  simpa using (hkeys k hk).bare.1

/-- Each path has the line in its place: that of its last key, indented by the keys before. -/
theorem printed_of_paths (es : Entries) : ∀ (depth : Nat) {i : Nat} {path : List String},
    es.paths[i]? = some path → ∃ parents key tail, path = parents ++ [key]
      ∧ (es.printed depth)[i]?
        = some (indentation (depth + parents.length) ++ (key.toList ++ ':' :: tail)) := by
  induction es with
  | nil => exact fun _ _ _ hpath => nomatch hpath
  | scalar key value rest ih =>
      intro depth i path hpath
      cases i with
      | zero =>
          obtain rfl := Option.some.inj hpath
          exact ⟨[], key, _, rfl, rfl⟩
      | succ i => exact ih depth hpath
  | mapping key inner rest ihinner ihrest =>
      intro depth i path hpath
      cases i with
      | zero =>
          obtain rfl := Option.some.inj hpath
          exact ⟨[], key, _, rfl, rfl⟩
      | succ i =>
          rw [paths, List.getElem?_cons_succ] at hpath
          rw [printed, List.getElem?_cons_succ]
          by_cases hi : i < inner.paths.length
          · rw [List.getElem?_append_left (by rwa [List.length_map]), List.getElem?_map,
              Option.map_eq_some_iff] at hpath
            obtain ⟨inside, hinside, rfl⟩ := hpath
            obtain ⟨parents, k, tail, rfl, hline⟩ := ihinner (depth + 1) hinside
            refine ⟨key :: parents, k, tail, rfl, ?_⟩
            rw [List.getElem?_append_left (by rwa [length_printed]), hline, List.length_cons,
              Nat.add_assoc, Nat.add_comm 1]
          · rw [List.getElem?_append_right (by rw [List.length_map]; omega),
              List.length_map] at hpath
            rw [List.getElem?_append_right (by rw [length_printed]; omega), length_printed]
            exact ihrest depth hpath

/-- In a document of block style, the place of each path is the line that its last key has
in the document: it starts behind the indentation and reaches to the end of the line. -/
theorem locate_printed (h : es.Proper) (hpath : es.paths[i]? = some path) :
    ∃ parents key tail, path = parents ++ [key]
      ∧ (es.printed 0)[i]?
        = some (indentation parents.length ++ (key.toList ++ ':' :: tail))
      ∧ locate es.text (ReferencePath.text path)
        = some ⟨⟨i + 1, 2 * parents.length + 1⟩,
            ⟨i + 1, 2 * parents.length + (key.toList ++ ':' :: Text.dropReturn tail).length⟩⟩ := by
  have hmem := List.mem_of_getElem? hpath
  obtain ⟨parents, key, tail, rfl, hline⟩ := printed_of_paths es 0 hpath
  rw [Nat.zero_add] at hline
  refine ⟨parents, key, tail, rfl, hline, ?_⟩
  have hkey : IsKey key := isKey_of_mem_paths h hmem key (by simp)
  have hfound : (es.lines 1 0)[i]?
      = some (keyLine (1 + i) parents.length key (Text.dropReturn tail)) := by
    rw [lines, List.getElem?_map, List.getElem?_zipIdx, hline, Option.map_some, Option.map_some,
      ofText_key hkey]
  rw [locate, lines_of_text (newline_not_mem_printed h),
    keysOf_text (ne_nil_of_mem_paths hmem) (isKey_of_mem_paths h hmem),
    search_lines h hpath (by rintro p ⟨⟩), hfound, Option.map_some, keyLine, Line.span,
    Nat.add_comm 1]

/-- A component in which one key stands in five mappings, one of them within another. -/
def images : Entries :=
  .mapping "services"
    (.mapping "api"
      (.scalar "image" "api:1" (.mapping "environment" (.scalar "image" "shadow" .nil) .nil))
      (.mapping "worker" (.scalar "image" "worker:1" .nil) .nil))
    (.mapping "tasks" (.mapping "api" (.scalar "image" "job:1" .nil) .nil)
      (.scalar "image" "none" .nil))

theorem proper_images : images.Proper := by
  have hkey {key : String} (hbare : IsBare key) (hword : key.toList.all Char.isDigit = false) :
      IsKey key := ⟨hbare, hword⟩
  have himage : IsKey "image" := hkey (by decide) (by decide)
  have hapi : IsKey "api" := hkey (by decide) (by decide)
  refine .mapping (hkey (by decide) (by decide)) (by simp [keys]) ?services
    (.mapping (hkey (by decide) (by decide)) (by simp [keys]) ?tasks ?others)
  case services =>
    refine .mapping hapi (by simp [keys]) ?_
      (.mapping (hkey (by decide) (by decide)) (by simp [keys]) ?_ .nil)
    · refine .scalar himage (by simp [keys]) (by decide)
        (.mapping (hkey (by decide) (by decide)) (by simp [keys]) ?_ .nil)
      exact .scalar himage (by simp [keys]) (by decide) .nil
    · exact .scalar himage (by simp [keys]) (by decide) .nil
  case tasks =>
    refine .mapping hapi (by simp [keys]) ?_ .nil
    exact .scalar himage (by simp [keys]) (by decide) .nil
  case others => exact .scalar himage (by simp [keys]) (by decide) .nil

theorem locate_printed_images : images.Proper
    ∧ images.paths[9]? = some ["tasks", "api", "image"]
    ∧ locate images.text (ReferencePath.text ["tasks", "api", "image"])
      = some ⟨⟨10, 5⟩, ⟨10, 16⟩⟩ := by
  refine ⟨proper_images, rfl, ?_⟩
  obtain ⟨parents, key, tail, hpath, hline, hlocate⟩ :=
    locate_printed proper_images (show images.paths[9]? = some ["tasks", "api", "image"] from rfl)
  have hlast : ["tasks", "api"] ++ ["image"] = parents ++ [key] := hpath
  obtain ⟨rfl, hkey⟩ := List.append_inj' hlast rfl
  obtain ⟨rfl, -⟩ := List.cons.inj hkey
  have hwritten : indentation 2 ++ ("image".toList ++ ':' :: ' ' :: "job:1".toList)
      = indentation 2 ++ ("image".toList ++ ':' :: tail) := Option.some.inj hline
  obtain ⟨-, rfl⟩ := List.cons.inj (List.append_cancel_left (List.append_cancel_left hwritten))
  rw [hlocate]
  decide

end Entries

end Manifest.SourceMap
