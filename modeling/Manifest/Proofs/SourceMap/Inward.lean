import Manifest.Proofs.SourceMap
import Manifest.Proofs.Text.Split
/-!
# A longer path leads further in

What a search does on any text, whatever its indentation: it looks at one stretch of lines,
and each key that is found narrows that to the block of its line (`isInfix_block`). A path that
goes on therefore leads to the same place or to one within the block of the shorter path
(`search_append`), and never out of it (`Encloses`).
-/

namespace Manifest.SourceMap

variable {l m outer inner : Line} {ls window : List Line} {parent : Option Nat}
variable {key : List Char} {keys more : List (List Char)}

/-! ## Lines in order -/

/-- The numbers of the lines ascend. -/
def Numbered (ls : List Line) : Prop := ls.Pairwise fun l m => l.number < m.number

theorem getElem?_linesOf (source : List Char) (i : Nat) :
    (linesOf source)[i]? = (Text.lines source)[i]?.map (Line.ofText (i + 1)) := by
  rw [linesOf, List.getElem?_map, List.getElem?_zipIdx, Option.map_map]
  cases (Text.lines source)[i]? with
  | none => rfl
  | some raw => rw [Option.map_some, Option.map_some, Function.comp_apply, Nat.zero_add]

theorem number_of_getElem? {source : List Char} {i : Nat} (h : (linesOf source)[i]? = some l) :
    l.number = i + 1 := by
  rw [getElem?_linesOf, Option.map_eq_some_iff] at h
  obtain ⟨raw, -, rfl⟩ := h
  rfl

theorem numbered_linesOf (source : List Char) : Numbered (linesOf source) := by
  rw [Numbered, List.pairwise_iff_getElem]
  intro i j hi hj hij
  rw [number_of_getElem? (List.getElem?_eq_getElem hi),
    number_of_getElem? (List.getElem?_eq_getElem hj)]
  omega

/-- Each line is the one that its number says. -/
theorem getElem?_of_mem_linesOf {source : List Char} (h : l ∈ linesOf source) :
    (linesOf source)[l.number - 1]? = some l := by
  obtain ⟨i, hi⟩ := List.getElem?_of_mem h
  rw [number_of_getElem? hi, Nat.add_sub_cancel, hi]

/-- Between two lines of a stretch there are no lines but those of the stretch. -/
theorem mem_of_between (h : Numbered ls) (hwindow : window <:+: ls) (houter : outer ∈ window)
    (hinner : inner ∈ window) (hm : m ∈ ls) (hlater : outer.number < m.number)
    (hsooner : m.number < inner.number) : m ∈ window := by
  obtain ⟨before, after, rfl⟩ := hwindow
  obtain ⟨hfront, -, hback⟩ := List.pairwise_append.mp h
  obtain ⟨-, -, hfront⟩ := List.pairwise_append.mp hfront
  rcases List.mem_append.mp hm with hm | hm
  · rcases List.mem_append.mp hm with hm | hm
    · have hlt := hfront m hm outer houter
      omega
    · exact hm
  · have hlt := hback inner (List.mem_append_right _ hinner) m hm
    omega

/-! ## The block of a line -/

theorem isInfix_block (l : Line) (window : List Line) : block l window <:+: window := by
  have hfront := List.takeWhile_prefix (l := window.dropWhile fun m => m.number ≤ l.number)
    fun m => !(m.isContent && m.indent ≤ l.indent)
  exact hfront.isInfix.trans (List.dropWhile_suffix _).isInfix

theorem mem_dropWhile_iff (h : Numbered window) :
    m ∈ window.dropWhile (fun m => m.number ≤ l.number) ↔ m ∈ window ∧ l.number < m.number := by
  induction window with
  | nil => simp
  | cons first window ih =>
      obtain ⟨hfirst, hrest⟩ := List.pairwise_cons.mp h
      rw [List.dropWhile_cons, List.mem_cons]
      split
      · next hle =>
          have hle := of_decide_eq_true hle
          rw [ih hrest]
          refine ⟨fun hm => ⟨Or.inr hm.1, hm.2⟩, ?_⟩
          rintro ⟨rfl | hm, hlater⟩
          · omega
          · exact ⟨hm, hlater⟩
      · next hlt =>
          have hlt : l.number < first.number := by simpa using hlt
          rw [List.mem_cons]
          refine ⟨fun hm => ⟨hm, ?_⟩, fun hm => hm.1⟩
          rcases hm with rfl | hm
          · exact hlt
          · exact Nat.lt_trans hlt (hfirst m hm)

theorem later_of_mem_block (h : Numbered window) (hm : m ∈ block l window) :
    l.number < m.number := by
  have hbehind : m ∈ window.dropWhile fun m => m.number ≤ l.number :=
    List.takeWhile_prefix _ |>.subset hm
  exact ((mem_dropWhile_iff h).mp hbehind).2

/-- Up to the end of a block, all content behind its line is further in. -/
theorem deeper_of_mem_block (h : Numbered window) (hinner : inner ∈ block l window)
    (hm : m ∈ window) (hlater : l.number < m.number) (hsooner : m.number ≤ inner.number)
    (hcontent : m.isContent = true) : l.indent < m.indent := by
  -- What is behind the line is cut in two, the block and the rest; the line `m` is not in the
  -- rest, since that is all behind `inner`.
  obtain ⟨behind, hbehind⟩ : ∃ behind, behind = window.dropWhile fun m => m.number ≤ l.number :=
    ⟨_, rfl⟩
  have hnumbered : Numbered behind := hbehind ▸ h.sublist (List.dropWhile_sublist _)
  have hmem : m ∈ behind := hbehind ▸ (mem_dropWhile_iff h).mpr ⟨hm, hlater⟩
  rw [block, ← hbehind] at hinner
  rw [← List.takeWhile_append_dropWhile (p := fun m => !(m.isContent && m.indent ≤ l.indent))
    (l := behind)] at hnumbered hmem
  rcases List.mem_append.mp hmem with hmem | hmem
  · have hdeeper := List.mem_takeWhile_imp hmem
    simpa [hcontent] using hdeeper
  · have hlt := (List.pairwise_append.mp hnumbered).2.2 inner hinner m hmem
    omega

/-! ## Searching -/

/-- The line that is taken for a key. -/
def candidate? (key : List Char) (parent : Option Nat) (window : List Line) : Option Line :=
  outermost? (window.filter fun l => parent.all (· < l.indent) && l.declares key)

theorem search_cons (key : List Char) (keys : List (List Char)) (parent : Option Nat)
    (window : List Line) : search (key :: keys) parent window
      = (candidate? key parent window).bind fun l =>
          (search keys (some l.indent) (block l window)).or (some l) := by
  rw [search, candidate?]
  cases outermost? (window.filter fun l => parent.all (· < l.indent) && l.declares key) <;> rfl

theorem candidate?_eq_some (h : candidate? key parent window = some l) :
    l ∈ window ∧ (∀ p ∈ parent, p < l.indent) ∧ l.declares key = true := by
  rw [candidate?, outermost?_eq_argmin] at h
  obtain ⟨hl, hfit⟩ := List.mem_filter.mp (List.argmin_mem h)
  rw [Bool.and_eq_true] at hfit
  refine ⟨hl, ?_, hfit.2⟩
  rintro p rfl
  simpa using hfit.1

/-- What is found is a line of the window, further in than the parent, that declares one of
the keys. -/
theorem found_of_search (h : search keys parent window = some l) :
    l ∈ window ∧ (∀ p ∈ parent, p < l.indent) ∧ ∃ key ∈ keys, l.declares key = true := by
  induction keys generalizing parent window with
  | nil => cases h
  | cons key keys ih =>
      rw [search_cons, Option.bind_eq_some_iff] at h
      obtain ⟨first, hfirst, h⟩ := h
      obtain ⟨hmem, hparent, hdeclares⟩ := candidate?_eq_some hfirst
      rcases Option.or_eq_some_iff.mp h with h | ⟨-, h⟩
      · obtain ⟨hl, hdeeper, k, hk, hdeclares⟩ := ih h
        refine ⟨(isInfix_block first window).subset hl, fun p hp => ?_,
          k, List.mem_cons_of_mem _ hk, hdeclares⟩
        exact Nat.lt_trans (hparent p hp) (hdeeper first.indent rfl)
      · obtain rfl := Option.some.inj h
        exact ⟨hmem, hparent, key, List.mem_cons_self .., hdeclares⟩

/-- A search finds nothing exactly if its first key is declared nowhere. -/
theorem search_eq_none_iff : search keys none window = none
    ↔ ∀ key ∈ keys.head?, ∀ l ∈ window, l.declares key = false := by
  cases keys with
  | nil => simp [search]
  | cons key keys =>
      have hnone : search (key :: keys) none window = none ↔ candidate? key none window = none := by
        rw [search_cons]
        cases candidate? key none window with
        | none => simp
        | some l => simp
      rw [hnone, candidate?, outermost?_eq_argmin, List.argmin_eq_none, List.filter_eq_nil_iff]
      simp

/-- The inner line is further in and behind the outer one, with nothing between them that
would end the block of the outer one. -/
structure Encloses (ls : List Line) (outer inner : Line) : Prop where
  later : outer.number < inner.number
  deeper : outer.indent < inner.indent
  between : ∀ m ∈ ls, outer.number < m.number → m.number < inner.number →
    m.isContent = true → outer.indent < m.indent

/-- What is searched for in the block of a line is enclosed by it. -/
theorem encloses_of_search (h : Numbered ls) (hwindow : window <:+: ls) (houter : outer ∈ window)
    (hsearch : search keys (some outer.indent) (block outer window) = some inner) :
    Encloses ls outer inner := by
  have hnumbered : Numbered window := h.sublist hwindow.sublist
  obtain ⟨hinner, hdeeper, -⟩ := found_of_search hsearch
  refine ⟨later_of_mem_block hnumbered hinner, hdeeper outer.indent rfl, ?_⟩
  intro m hm hlater hsooner
  have hmem := mem_of_between h hwindow houter ((isInfix_block outer window).subset hinner) hm
    hlater hsooner
  exact deeper_of_mem_block hnumbered hinner hmem hlater (Nat.le_of_lt hsooner)

/-- Further keys lead to the same line or to one that it encloses. -/
theorem search_append (h : Numbered ls) (more : List (List Char)) (hne : keys ≠ [])
    (hwindow : window <:+: ls) :
    search (keys ++ more) parent window = search keys parent window
      ∨ ∃ outer inner, search keys parent window = some outer
        ∧ search (keys ++ more) parent window = some inner ∧ Encloses ls outer inner := by
  -- On the shorter path: both searches find the same lines for its keys, each in a window that
  -- is a stretch of all lines, and part only behind its last key.
  induction keys generalizing parent window with
  | nil => exact absurd rfl hne
  | cons key keys ih =>
      rw [List.cons_append, search_cons, search_cons]
      cases hcandidate : candidate? key parent window with
      | none => exact Or.inl rfl
      | some l =>
          have hl := (candidate?_eq_some hcandidate).1
          rw [Option.bind_some, Option.bind_some]
          cases keys with
          | nil =>
              rw [List.nil_append, search, Option.none_or]
              cases hmore : search more (some l.indent) (block l window) with
              | none => exact Or.inl rfl
              | some inner =>
                  exact Or.inr ⟨l, inner, rfl, rfl, encloses_of_search h hwindow hl hmore⟩
          | cons next keys =>
              have hblock : block l window <:+: ls := (isInfix_block l window).trans hwindow
              rcases ih (List.cons_ne_nil next keys) hblock with
                heq | ⟨outer, inner, houter, hinner, hencloses⟩
              · exact Or.inl (by rw [heq])
              · refine Or.inr ⟨outer, inner, ?_, ?_, hencloses⟩
                · rw [houter, Option.some_or]
                · rw [hinner, Option.some_or]

/-! ## Keys of a path -/

theorem mem_keysOf_iff {path : List Char} :
    key ∈ keysOf path ↔ key ∈ Text.splitOn '.' path ∧ key.all Char.isDigit = false := by
  rw [keysOf, List.mem_filter, isIndex]
  refine and_congr_right fun _ => ?_
  cases key with
  | nil => decide
  | cons c key =>
      rw [List.isEmpty_cons, Bool.not_false, Bool.true_and, Bool.true_and, Bool.not_eq_true']

theorem keysOf_append (path more : List Char) :
    keysOf (path ++ '.' :: more) = keysOf path ++ keysOf more := by
  rw [keysOf, Text.splitOn_append_cons, List.filter_append, keysOf, keysOf]

/-! ## Declared keys -/

/-- The text starts with the key, in quotes or not, and a colon, as an item of a list or
not. -/
def Written (key text : List Char) : Prop :=
  ∃ item ∈ [[], ['-', ' ']], ∃ quote ∈ [[], ['"'], ['\'']], ∃ gap rest : List Char,
    (∀ c ∈ gap, Text.isBlank c = true)
      ∧ text = item ++ (quote ++ key ++ quote ++ gap ++ ':' :: rest)

theorem written_of_declares (h : l.declares key = true) : Written key l.text := by
  obtain ⟨item, hitem, body, htext, hdeclares⟩ : ∃ item ∈ [[], ['-', ' ']], ∃ body,
      l.text = item ++ body
        ∧ (Line.afterKey key body).any (fun rest => (Text.trimLeft rest).head? = some ':') := by
    rw [Line.declares] at h
    cases hdash : Text.dropStart? ['-', ' '] l.text with
    | none =>
        rw [hdash] at h
        exact ⟨[], List.mem_cons_self .., l.text, rfl, h⟩
    | some body =>
        rw [hdash] at h
        exact ⟨['-', ' '], by simp, body, Text.eq_append_of_dropStart? hdash, h⟩
  obtain ⟨behind, hbehind, hcolon⟩ := List.any_eq_true.mp hdeclares
  obtain ⟨written, hwritten, hdrop⟩ := List.mem_filterMap.mp hbehind
  obtain ⟨quote, hquote, rfl⟩ : ∃ quote ∈ [[], ['"'], ['\'']], written = quote ++ key ++ quote := by
    simpa using hwritten
  obtain ⟨rest, hrest⟩ := List.head?_eq_some_iff.mp (of_decide_eq_true hcolon)
  refine ⟨item, hitem, quote, hquote, behind.takeWhile Text.isBlank, rest,
    fun c hc => List.mem_takeWhile_imp hc, ?_⟩
  rw [htext, Text.eq_append_of_dropStart? hdrop, ← hrest, Text.trimLeft,
    List.append_assoc (quote ++ key ++ quote), List.takeWhile_append_dropWhile]

theorem Written.ne_nil {text : List Char} (h : Written key text) : text ≠ [] := by
  obtain ⟨item, -, quote, -, gap, rest, -, rfl⟩ := h
  exact List.append_ne_nil_of_right_ne_nil _
    (List.append_ne_nil_of_right_ne_nil _ (List.cons_ne_nil _ _))

/-! ## Places -/

/-- What `locate` gives for a path is the place of a line on which one of the keys is
declared. With further keys it gives the same place or one within the block of that line. It
gives none exactly if the first key is declared nowhere. -/
theorem locate_inward (source path more : String)
    (hpath : ∃ key ∈ Text.splitOn '.' path.toList, key.all Char.isDigit = false) :
    (∀ span ∈ locate source path, ∃ l, (linesOf source.toList)[span.start.line - 1]? = some l
      ∧ span = l.span ∧ span.start.column ≤ span.stop.column
      ∧ ∃ key ∈ Text.splitOn '.' path.toList, key.all Char.isDigit = false
        ∧ l.declares key = true ∧ Written key l.text)
    ∧ (locate source (path ++ "." ++ more) = locate source path
      ∨ ∃ outer inner, outer ∈ linesOf source.toList ∧ inner ∈ linesOf source.toList
        ∧ locate source path = some outer.span
        ∧ locate source (path ++ "." ++ more) = some inner.span
        ∧ Encloses (linesOf source.toList) outer inner)
    ∧ (locate source path = none ↔ ∀ key ∈ (keysOf path.toList).head?,
        ∀ l ∈ linesOf source.toList, l.declares key = false) := by
  refine ⟨?_, ?_, ?_⟩
  · intro span hspan
    obtain ⟨l, hsearch, rfl⟩ := Option.map_eq_some_iff.mp hspan
    obtain ⟨hl, -, key, hkey, hdeclares⟩ := found_of_search hsearch
    obtain ⟨hkey, hword⟩ := mem_keysOf_iff.mp hkey
    have hwritten := written_of_declares hdeclares
    refine ⟨l, getElem?_of_mem_linesOf hl, rfl, ?_, key, hkey, hword, hdeclares, hwritten⟩
    have hlength := List.length_pos_iff.mpr hwritten.ne_nil
    simp only [Line.span]
    omega
  · obtain ⟨key, hkey⟩ := hpath
    have hne : keysOf path.toList ≠ [] := List.ne_nil_of_mem (mem_keysOf_iff.mpr hkey)
    have hkeys : keysOf (path ++ "." ++ more).toList
        = keysOf path.toList ++ keysOf more.toList := by
      rw [← keysOf_append]
      simp
    rw [locate, locate, hkeys]
    rcases search_append (numbered_linesOf source.toList) (keysOf more.toList) hne
        List.infix_rfl with heq | ⟨outer, inner, houter, hinner, hencloses⟩
    · exact Or.inl (by rw [heq])
    · refine Or.inr ⟨outer, inner, (found_of_search houter).1, (found_of_search hinner).1, ?_, ?_,
        hencloses⟩
      · rw [houter, Option.map_some]
      · rw [hinner, Option.map_some]
  · rw [locate, Option.map_eq_none_iff, search_eq_none_iff]

/-- A task whose image is given in an item of a list, behind a comment that is not indented. -/
def seeding : String := "tasks:\n  \"seed\":\n# by hand\n     - image: seed\n"

theorem locate_inward_seeding :
    (∃ key ∈ Text.splitOn '.' "tasks.0.seed".toList, key.all Char.isDigit = false)
    ∧ locate seeding "tasks.0.seed" = some ⟨⟨2, 3⟩, ⟨2, 9⟩⟩
    ∧ locate seeding ("tasks.0.seed" ++ "." ++ "image") = some ⟨⟨4, 6⟩, ⟨4, 18⟩⟩
    ∧ ∃ outer inner, outer.span = ⟨⟨2, 3⟩, ⟨2, 9⟩⟩ ∧ inner.span = ⟨⟨4, 6⟩, ⟨4, 18⟩⟩
      ∧ Encloses (linesOf seeding.toList) outer inner := by
  have hpath : ∃ key ∈ Text.splitOn '.' "tasks.0.seed".toList, key.all Char.isDigit = false :=
    ⟨"tasks".toList, by decide, by decide⟩
  have hshort : locate seeding "tasks.0.seed" = some ⟨⟨2, 3⟩, ⟨2, 9⟩⟩ := by decide
  have hlong : locate seeding ("tasks.0.seed" ++ "." ++ "image") = some ⟨⟨4, 6⟩, ⟨4, 18⟩⟩ := by
    decide
  refine ⟨hpath, hshort, hlong, ?_⟩
  obtain ⟨-, hmore, -⟩ := locate_inward seeding "tasks.0.seed" "image" hpath
  rw [hshort, hlong] at hmore
  rcases hmore with heq | ⟨outer, inner, -, -, houter, hinner, hencloses⟩
  · exact absurd heq (by decide)
  · exact ⟨outer, inner, (Option.some.inj houter).symm, (Option.some.inj hinner).symm, hencloses⟩

end Manifest.SourceMap
