/-!
# Blank characters and trimming

White space is the White_Space property of Unicode throughout: in trimmed
texts, between the words of a shorthand, and at the start of a line.
Texts are lists of characters here, so that a cut is a `takeWhile` or a
`dropWhile` and nothing has to be said about byte offsets.
-/

namespace Manifest.Text

/-- The characters with the White_Space property. -/
def isBlank (c : Char) : Bool :=
  let n := c.toNat
  (9 ≤ n && n ≤ 13) || n == 0x20 || n == 0x85 || n == 0xA0 || n == 0x1680
    || (0x2000 ≤ n && n ≤ 0x200A) || n == 0x2028 || n == 0x2029 || n == 0x202F
    || n == 0x205F || n == 0x3000

/-- The text without the characters of `p` at its end. -/
def dropTrailing (p : Char → Bool) (cs : List Char) : List Char :=
  (cs.reverse.dropWhile p).reverse

def trimLeft (cs : List Char) : List Char := cs.dropWhile isBlank

def trim (cs : List Char) : List Char := dropTrailing isBlank (trimLeft cs)

/-- The rest of `cs` after `start`, if `cs` begins with it. -/
def dropStart? : (start cs : List Char) → Option (List Char)
  | [], cs => some cs
  | _ :: _, [] => none
  | s :: start, c :: cs => if s = c then dropStart? start cs else none

/-- The part of `cs` before the first occurrence of `needle` and the part
after it. An empty `needle` occurs at once. -/
def breakOn? (needle : List Char) : List Char → Option (List Char × List Char)
  | [] => (dropStart? needle []).map ([], ·)
  | c :: cs =>
    match dropStart? needle (c :: cs) with
    | some rest => some ([], rest)
    | none => (breakOn? needle cs).map fun (before, rest) => (c :: before, rest)

/-- The number of bytes of the text in UTF-8. -/
def byteLength (cs : List Char) : Nat := cs.foldl (fun n c => n + c.utf8Size) 0

/-- The pieces between the occurrences of `sep`; one more than there are
occurrences. -/
def splitOn (sep : Char) : List Char → List (List Char)
  | [] => [[]]
  | c :: cs =>
    if c = sep then [] :: splitOn sep cs
    else
      match splitOn sep cs with
      | [] => [[c]]
      | piece :: pieces => (c :: piece) :: pieces

theorem foldl_utf8Size (cs : List Char) (n : Nat) :
    cs.foldl (fun n c => n + c.utf8Size) n = n + byteLength cs := by
  induction cs generalizing n with
  | nil => rfl
  | cons c cs ih =>
      have hcons : byteLength (c :: cs) = 0 + c.utf8Size + byteLength cs := ih (0 + c.utf8Size)
      rw [List.foldl_cons, ih, hcons]
      omega

theorem byteLength_append (cs more : List Char) :
    byteLength (cs ++ more) = byteLength cs + byteLength more := by
  rw [byteLength, List.foldl_append, foldl_utf8Size]
  rfl

theorem dropStart?_append (start rest : List Char) :
    dropStart? start (start ++ rest) = some rest := by
  induction start with
  | nil => simp [dropStart?]
  | cons c start ih => simp [dropStart?, ih]

theorem eq_append_of_dropStart? {start cs rest : List Char}
    (h : dropStart? start cs = some rest) : cs = start ++ rest := by
  fun_induction dropStart? start cs with
  | case1 => simp_all
  | case2 => simp at h
  | case3 start c cs ih => simp [ih h]
  | case4 => simp at h

theorem eq_append_of_breakOn? {needle cs before rest : List Char}
    (h : breakOn? needle cs = some (before, rest)) : cs = before ++ needle ++ rest := by
  induction cs generalizing before with
  | nil =>
    simp only [breakOn?, Option.map_eq_some_iff, Prod.mk.injEq] at h
    obtain ⟨r, hr, rfl, rfl⟩ := h
    simpa using eq_append_of_dropStart? hr
  | cons c cs ih =>
    simp only [breakOn?] at h
    split at h
    · next r hr =>
      simp only [Option.some.injEq, Prod.mk.injEq] at h
      obtain ⟨rfl, rfl⟩ := h
      simpa using eq_append_of_dropStart? hr
    · simp only [Option.map_eq_some_iff, Prod.exists, Prod.mk.injEq] at h
      obtain ⟨b, r, hbr, rfl, rfl⟩ := h
      rw [ih hbr]
      simp

end Manifest.Text
