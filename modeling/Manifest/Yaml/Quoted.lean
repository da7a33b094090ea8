import Manifest.Yaml.Token
/-!
# Quoted scalars

Between single quotes only the quote itself is written specially, twice.
Between double quotes a backslash starts an escape. In both, blanks around a
line break fold.
-/

namespace Manifest.Yaml

def hexDigitValue? (c : Char) : Option Nat :=
  if c.isDigit then some (c.toNat - '0'.toNat)
  else if 'a' ≤ c && c ≤ 'f' then some (c.toNat - 'a'.toNat + 10)
  else if 'A' ≤ c && c ≤ 'F' then some (c.toNat - 'A'.toNat + 10)
  else none

/-- The value of exactly `count` hexadecimal digits at the start. -/
def hexValue? (count : Nat) (cs : List Char) : Option Nat := do
  let digits := cs.take count
  if digits.length < count then none
  else pure ((← digits.mapM hexDigitValue?).foldl (fun n v => 16 * n + v) 0)

/-- The character that a one-letter escape stands for. -/
def escapes : List (Char × Nat) :=
  [('0', 0), ('a', 7), ('b', 8), ('t', 9), ('\t', 9), ('n', 10), ('v', 11), ('f', 12),
    ('r', 13), ('e', 27), (' ', 32), ('"', 34), ('/', 47), ('\\', 92), ('N', 0x85),
    ('_', 0xA0), ('L', 0x2028), ('P', 0x2029)]

/-- Digits after the letter of a numeric escape. -/
def escapeWidths : List (Char × Nat) := [('x', 2), ('u', 4), ('U', 8)]

/-- The character written by an escape and the number of characters that the
escape takes after its backslash. -/
def escape? : List Char → Option (Char × Nat)
  | [] => none
  | c :: rest =>
    match escapes.lookup c, escapeWidths.lookup c with
    | some n, _ => some (Char.ofNat n, 1)
    | none, some width => do
      let n ← hexValue? width rest
      if (0xD800 ≤ n && n ≤ 0xDFFF) || 0x10FFFF < n then none
      else pure (Char.ofNat n, width + 1)
    | none, none => none

namespace Quoted

/-- The quote that ends a scalar. -/
def quoteOf (single : Bool) : Char := if single then '\'' else '"'

/-- Reads up to the closing quote and steps over it. `done` is the text so
far, last character first. -/
def body? (single : Bool) : (fuel : Nat) → (done : List Char) → Cursor →
    Option (List Char × Cursor)
  | 0, _, _ => none
  | fuel + 1, done, c =>
    if c.atDocumentMarker then none
    else
      match c.rest with
      | [] => none
      | ch :: rest =>
        let gap (g : Gap) (c : Cursor) : Option (List Char × Cursor) := do
          let (g, c) ← g.scan? 0 (c.rest.length + 1) c
          body? single fuel (g.text.reverse ++ done) c
        if isBlank ch || isBreak ch then gap {} c
        else if single && ch = '\'' && rest.head? = some '\'' then
          body? single fuel ('\'' :: done) (c.skip 2)
        else if ch = quoteOf single then some (done.reverse, c.skip 1)
        else if !single && ch = '\\' then
          match (c.skip 1).lineBreak? with
          | some (_, next) => gap { broken := true } next
          | none => do
            let (written, width) ← escape? rest
            body? single fuel (written :: done) (c.skip (width + 1))
        else body? single fuel (ch :: done) (c.skip 1)

/-- The scalar that starts with a quote here. -/
def scan? (single : Bool) (c : Cursor) : Option (Token × Cursor) := do
  let (text, next) ← body? single (c.rest.length + 1) [] (c.skip 1)
  pure (.scalar (String.ofList text) (if single then .singleQuoted else .doubleQuoted), next)

end Quoted

end Manifest.Yaml
