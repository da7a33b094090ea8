import Manifest.SourceMap
import Manifest.Proofs.Argmin
import Manifest.Proofs.ReferencePath.Written
/-!
# Searching a text by its indentation

The three steps of a search: which of several lines is taken (`outermost?_split`), which
lines are in the block of a line (`block_split`), and which keys a line declares that is
written with a bare key and a colon (`declares_iff`). Each is stated for lines that are
already taken apart around the line in question.
-/

namespace Manifest

namespace Text

variable {line rest : List Char}

theorem dropReturn_concat (line : List Char) : dropReturn (line ++ ['\r']) = line := by
  rw [dropReturn, List.reverse_append]
  exact List.reverse_reverse line

theorem dropReturn_eq_self (h : line.getLast? ≠ some '\r') : dropReturn line = line := by
  unfold dropReturn
  split
  · next rest hreverse =>
      rw [← List.head?_reverse, hreverse] at h
      exact absurd rfl h
  · rfl

/-- A carriage return that is cut off stands at the end. -/
theorem dropReturn_append_cons {c : Char} (hc : c ≠ '\r') (front rest : List Char) :
    dropReturn (front ++ c :: rest) = front ++ c :: dropReturn rest := by
  rcases List.eq_nil_or_concat rest with rfl | ⟨more, last, rfl⟩
  · refine dropReturn_eq_self ?_
    rw [List.getLast?_concat]
    exact fun h => hc (Option.some.inj h)
  · rw [List.concat_eq_append]
    by_cases hlast : last = '\r'
    · subst hlast
      rw [dropReturn_concat, ← List.cons_append, ← List.append_assoc, dropReturn_concat]
    · have hends (front : List Char) : (front ++ [last]).getLast? ≠ some '\r' := by
        rw [List.getLast?_concat]
        exact fun h => hlast (Option.some.inj h)
      rw [dropReturn_eq_self (hends more), ← List.cons_append, ← List.append_assoc,
        dropReturn_eq_self (hends _)]

/-- Up to its line feed, a text is one line. -/
theorem lines_go_append (h : '\n' ∉ line) : ∀ start : List Char,
    lines.go start (line ++ '\n' :: rest)
      = dropReturn (start.reverse ++ line) :: lines.go [] rest := by
  induction line with
  | nil =>
      intro start
      rw [List.nil_append, List.append_nil, lines.go]
  | cons c line ih =>
      intro start
      rw [List.mem_cons, not_or] at h
      rw [List.cons_append, lines.go, ih h.2, List.reverse_cons, List.append_assoc,
        List.singleton_append]
      exact fun heq => h.1 heq.symm

/-- Lines that are written one after the other are read back, apart from a carriage return
at the end of one. -/
theorem lines_flatMap : ∀ {written : List (List Char)}, (∀ line ∈ written, '\n' ∉ line) →
    lines (written.flatMap (· ++ ['\n'])) = written.map dropReturn
  | [], _ => rfl
  | line :: written, h => by
      have hrest := lines_flatMap fun other hother => h other (List.mem_cons_of_mem _ hother)
      rw [lines] at hrest ⊢
      rw [List.flatMap_cons, List.append_assoc, List.singleton_append,
        lines_go_append (h line (List.mem_cons_self ..)), hrest]
      rfl

end Text

namespace SourceMap

variable {l : Line} {before inside after : List Line}

/-! ## Lines in a window -/

/-- The line that is taken is the first of the least indented ones. -/
theorem outermost?_eq_argmin (ls : List Line) : outermost? ls = ls.argmin Line.indent := by
  induction ls with
  | nil => rfl
  | cons l rest ih =>
      rw [outermost?, List.argmin_cons, ih]
      cases rest.argmin Line.indent <;> rfl

/-- The line that is taken is indented less than those before it, and no more than those
behind it. -/
theorem outermost?_split (hbefore : ∀ m ∈ before, l.indent < m.indent)
    (hafter : ∀ m ∈ after, l.indent ≤ m.indent) :
    outermost? (before ++ l :: after) = some l := by
  rw [outermost?_eq_argmin]
  exact argmin_eq_some_iff.mpr ⟨before, after, rfl, hbefore, hafter⟩

/-- The block of a line ends in front of the first content that is indented no further. -/
theorem block_split (hbefore : ∀ m ∈ before, m.number ≤ l.number)
    (hbehind : ∀ m ∈ inside ++ after, l.number < m.number)
    (hinside : ∀ m ∈ inside, l.indent < m.indent)
    (hafter : ∀ m ∈ after.head?, m.isContent = true ∧ m.indent ≤ l.indent) :
    block l (before ++ l :: (inside ++ after)) = inside := by
  have hstart : (before ++ [l] ++ (inside ++ after)).dropWhile
      (fun m => decide (m.number ≤ l.number)) = inside ++ after := by
    refine Text.dropWhile_append ?_ ?_
    · intro m hm
      rw [List.mem_append, List.mem_singleton] at hm
      rcases hm with hm | rfl
      · exact decide_eq_true (hbefore m hm)
      · exact decide_eq_true (Nat.le_refl _)
    · intro m hm
      have hlt := hbehind m (List.mem_of_mem_head? hm)
      exact decide_eq_false (by omega)
  rw [List.append_assoc, List.singleton_append] at hstart
  rw [block, hstart]
  refine Text.takeWhile_append ?_ ?_
  · intro m hm
    have hlt := hinside m hm
    rw [decide_eq_false (by omega), Bool.and_false, Bool.not_false]
  · intro m hm
    obtain ⟨hcontent, hle⟩ := hafter m hm
    rw [hcontent, decide_eq_true hle]
    rfl

/-! ## Keys that a line declares -/

open ReferencePath (isKeyChar)

variable {key k tail : List Char} {number indent : Nat}

/-- A line that starts with a bare key is no item of a list. -/
theorem not_item (hkey : ∀ c ∈ key, isKeyChar c = true) :
    Text.dropStart? ['-', ' '] (key ++ ':' :: tail) = none := by
  by_contra hitem
  obtain ⟨rest, hrest⟩ := Option.ne_none_iff_exists'.mp hitem
  have hsplit := Text.eq_append_of_dropStart? hrest
  rcases key with - | ⟨first, - | ⟨second, key⟩⟩
  · cases hsplit
  · cases hsplit
  · obtain ⟨-, hsplit⟩ := List.cons.inj hsplit
    obtain ⟨rfl, -⟩ := List.cons.inj hsplit
    exact absurd (hkey ' ' (by simp)) (by decide)

/-- Where a bare key starts a line that is written with a bare key, and only a colon
follows, the two are the same. -/
theorem eq_of_key_append (hkey : ∀ c ∈ key, isKeyChar c = true)
    (hk : ∀ c ∈ k, isKeyChar c = true) {rest : List Char} (h : key ++ ':' :: tail = k ++ rest)
    (hcolon : (Text.trimLeft rest).head? = some ':') : key = k := by
  rcases List.append_eq_append_iff.mp h with ⟨more, rfl, hmore⟩ | ⟨more, rfl, rfl⟩
  · cases more with
    | nil => exact (List.append_nil key).symm
    | cons c more =>
        obtain ⟨rfl, -⟩ := List.cons.inj hmore
        exact absurd (hk ':' (by simp)) (by decide)
  · cases more with
    | nil => exact List.append_nil k
    | cons c more =>
        have hc : isKeyChar c = true := hkey c (by simp)
        have hblank := ReferencePath.isBlank_of_isKeyChar hc
        rw [List.cons_append, Text.trimLeft, List.dropWhile_cons_of_neg (by simp [hblank])]
          at hcolon
        obtain rfl := Option.some.inj hcolon
        exact absurd hc (by decide)

/-- A line that is written with a bare key declares that one and no other. -/
theorem declares_iff (hkey : ∀ c ∈ key, isKeyChar c = true) (hne : key ≠ [])
    (hk : ∀ c ∈ k, isKeyChar c = true) :
    Line.declares k ⟨number, indent, key ++ ':' :: tail⟩ = true ↔ key = k := by
  have hunquoted {q : Char} (hq : isKeyChar q = false) (rest : List Char) :
      Text.dropStart? (q :: rest) (key ++ ':' :: tail) = none := by
    obtain ⟨c, key, rfl⟩ := List.exists_cons_of_ne_nil hne
    rw [List.cons_append, Text.dropStart?, if_neg]
    rintro rfl
    rw [hkey q (List.mem_cons_self ..)] at hq
    cases hq
  rw [Line.declares, not_item hkey, Option.getD_none, Line.afterKey]
  constructor
  · intro h
    obtain ⟨rest, hrest, hcolon⟩ := List.any_eq_true.mp h
    obtain ⟨written, hwritten, hdrop⟩ := List.mem_filterMap.mp hrest
    simp only [List.mem_cons, List.not_mem_nil, or_false] at hwritten
    rcases hwritten with rfl | rfl | rfl
    · exact eq_of_key_append hkey hk (Text.eq_append_of_dropStart? hdrop)
        (of_decide_eq_true hcolon)
    · rw [List.cons_append, hunquoted (by decide)] at hdrop
      cases hdrop
    · rw [List.cons_append, hunquoted (by decide)] at hdrop
      cases hdrop
  · rintro rfl
    refine List.any_eq_true.mpr ⟨':' :: tail, List.mem_filterMap.mpr ⟨key, ?_, ?_⟩, rfl⟩
    · exact List.mem_cons_self ..
    · exact Text.dropStart?_append key (':' :: tail)

end SourceMap

end Manifest
