import Manifest.Json
/-!
# Reading JSON

One value per text, with blanks around it. Objects keep every member, also
several of one name. Brackets nest at most 127 deep. A number without
fraction and exponent is an integer as long as it fits 64 bits; any other is
a significand of at most 64 bits times a power of ten, rounded twice.
-/

namespace Manifest.Json

def isBlank (c : Char) : Bool := c = ' ' || c = '\t' || c = '\n' || c = '\r'

def skipBlanks (cs : List Char) : List Char := cs.dropWhile isBlank

/-! ## Strings -/

def hexValue? (c : Char) : Option Nat :=
  if c.isDigit then some (c.toNat - '0'.toNat)
  else if 'a' ≤ c && c ≤ 'f' then some (c.toNat - 'a'.toNat + 10)
  else if 'A' ≤ c && c ≤ 'F' then some (c.toNat - 'A'.toNat + 10)
  else none

/-- Four hexadecimal digits. -/
def hexUnit? : List Char → Option (Nat × List Char)
  | a :: b :: c :: d :: rest => do
    let digits ← [a, b, c, d].mapM hexValue?
    pure (digits.foldl (fun n v => 16 * n + v) 0, rest)
  | _ => none

/-- The character of a `\u` escape after its first unit. A high surrogate
needs a second escape; a surrogate alone is an error. -/
def unicodeEscape? (unit : Nat) (rest : List Char) : Option (Char × List Char) :=
  if 0xD800 ≤ unit && unit < 0xDC00 then
    match rest with
    | '\\' :: 'u' :: rest => do
      let (low, rest) ← hexUnit? rest
      if 0xDC00 ≤ low && low < 0xE000 then
        pure (Char.ofNat (0x10000 + (unit - 0xD800) * 1024 + (low - 0xDC00)), rest)
      else none
    | _ => none
  else if 0xDC00 ≤ unit && unit < 0xE000 then none
  else some (Char.ofNat unit, rest)

def simpleEscape? (c : Char) : Option Char :=
  if c = '"' || c = '\\' || c = '/' then some c
  else if c = 'b' then some '\x08'
  else if c = 'f' then some '\x0c'
  else if c = 'n' then some '\n'
  else if c = 'r' then some '\r'
  else if c = 't' then some '\t'
  else none

/-- The rest of a string after its opening quote; `fuel` bounds the number of
characters. -/
def stringBody? (fuel : Nat) (done : List Char) (cs : List Char) :
    Option (String × List Char) :=
  match fuel, cs with
  | 0, _ => none
  | _, [] => none
  | _ + 1, '"' :: rest => some (String.ofList done.reverse, rest)
  | fuel + 1, '\\' :: 'u' :: rest => do
    let (unit, rest) ← hexUnit? rest
    let (c, rest) ← unicodeEscape? unit rest
    stringBody? fuel (c :: done) rest
  | fuel + 1, '\\' :: c :: rest => do
    let c ← simpleEscape? c
    stringBody? fuel (c :: done) rest
  | fuel + 1, c :: rest =>
    if c.toNat < 32 || c = '\\' then none else stringBody? fuel (c :: done) rest

/-! ## Numbers -/

/-- Adds digits to a significand while it fits 64 bits; each digit dropped
counts as one power of ten. -/
def significand (start : Nat) (digits : List Char) : Nat × Nat :=
  digits.foldl
    (fun (n, dropped) c =>
      let next := 10 * n + (c.toNat - '0'.toNat)
      if dropped = 0 && next < pow2 64 then (next, 0) else (n, dropped + 1))
    (start, 0)

/-- `n · 10 ^ exponent`, first `n` rounded and then the product or quotient;
nothing if it is out of range. -/
def scaledFloat? (negative : Bool) (n : Nat) (exponent : Int) : Option Binary64 :=
  let f := Binary64.ofRatio negative n 1
  let power (k : Nat) : Nat × Nat :=
    match (Binary64.ofDecimal false 1 k).toRatio? with
    | some (p, d) => (p.natAbs, d)
    | none => (1, 1)
  if n = 0 then some f
  else if 0 ≤ exponent then
    if 308 < exponent then none
    else
      let (p, d) := power exponent.toNat
      let product := f.mulRatio p d
      if product.isFinite then some product else none
  else
    let k := (-exponent).toNat
    if k ≤ 308 then
      let (p, d) := power k
      some (f.mulRatio d p)
    else if k ≤ 616 then
      let (p, d) := power 308
      let (p', d') := power (k - 308)
      some ((f.mulRatio d p).mulRatio d' p')
    else some (Binary64.zero negative)

/-- Digits of an integer part: no leading zero before another digit. -/
def wholeDigits? (cs : List Char) : Option (List Char × List Char) :=
  let ds := cs.takeWhile Char.isDigit
  let rest := cs.dropWhile Char.isDigit
  match ds with
  | [] => none
  | '0' :: _ :: _ => none
  | _ => some (ds, rest)

def fractionDigits? : List Char → Option (List Char × List Char)
  | '.' :: cs =>
    let ds := cs.takeWhile Char.isDigit
    if ds.isEmpty then none else some (ds, cs.dropWhile Char.isDigit)
  | cs => some ([], cs)

/-- An exponent part: its value, and whether there is one at all. -/
def exponentPart? : List Char → Option (Bool × Int × List Char)
  | [] => some (false, 0, [])
  | c :: cs =>
    if c = 'e' || c = 'E' then
      let (negative, cs) := Binary64.signOf cs
      let (n, count, rest) := Binary64.digitRun cs
      if count = 0 then none else some (true, if negative then -(n : Int) else n, rest)
    else some (false, 0, c :: cs)

def number? (cs : List Char) : Option (Json × List Char) := do
  let negative := cs.head? = some '-'
  let (whole, rest) ← wholeDigits? (if negative then cs.drop 1 else cs)
  let (part, rest) ← fractionDigits? rest
  let (hasExponent, exponent, rest) ← exponentPart? rest
  let (n, dropped) := significand 0 whole
  let fits := !negative || (n ≠ 0 && n ≤ pow2 63)
  if part.isEmpty && !hasExponent && dropped = 0 && fits then
    pure (.int (if negative then -(n : Int) else n), rest)
  else do
    let (n, e) :=
      if dropped = 0 then
        let (m, cut) := significand n part
        (m, exponent - part.length + cut)
      else (n, exponent + dropped)
    let f ← scaledFloat? negative n e
    pure (.float f, rest)

/-! ## Values -/

namespace Reader

mutual

/-- One value; `depth` is the number of brackets that may still open. -/
def value? (fuel depth : Nat) (cs : List Char) : Option (Json × List Char) :=
  match fuel with
  | 0 => none
  | fuel + 1 =>
    match skipBlanks cs with
    | 'n' :: 'u' :: 'l' :: 'l' :: rest => some (.null, rest)
    | 't' :: 'r' :: 'u' :: 'e' :: rest => some (.bool true, rest)
    | 'f' :: 'a' :: 'l' :: 's' :: 'e' :: rest => some (.bool false, rest)
    | '"' :: rest =>
      (stringBody? (rest.length + 1) [] rest).map fun (s, rest) => (.string s, rest)
    | '[' :: rest =>
      match depth, skipBlanks rest with
      | 0, _ => none
      | _ + 1, ']' :: rest => some (.array [], rest)
      | depth + 1, rest =>
        (items? fuel depth rest).map fun (items, rest) => (.array items, rest)
    | '{' :: rest =>
      match depth, skipBlanks rest with
      | 0, _ => none
      | _ + 1, '}' :: rest => some (.object [], rest)
      | depth + 1, rest =>
        (members? fuel depth rest).map fun (members, rest) => (.object members, rest)
    | cs => number? cs

def items? (fuel depth : Nat) (cs : List Char) : Option (List Json × List Char) :=
  match fuel with
  | 0 => none
  | fuel + 1 => do
    let (item, rest) ← value? fuel depth cs
    match skipBlanks rest with
    | ',' :: rest =>
      let (items, rest) ← items? fuel depth rest
      pure (item :: items, rest)
    | ']' :: rest => pure ([item], rest)
    | _ => none

def members? (fuel depth : Nat) (cs : List Char) : Option (Members × List Char) :=
  match fuel with
  | 0 => none
  | fuel + 1 =>
    match skipBlanks cs with
    | '"' :: rest => do
      let (name, rest) ← stringBody? (rest.length + 1) [] rest
      match skipBlanks rest with
      | ':' :: rest =>
        let (value, rest) ← value? fuel depth rest
        match skipBlanks rest with
        | ',' :: rest =>
          let (members, rest) ← members? fuel depth rest
          pure ((name, value) :: members, rest)
        | '}' :: rest => pure ([(name, value)], rest)
        | _ => none
      | _ => none
    | _ => none

end

end Reader

/-- Reads a text that holds one value and nothing else but blanks. -/
def read? (text : String) : Option Json := do
  let cs := text.toList
  let (value, rest) ← Reader.value? (2 * cs.length + 2) 127 cs
  if (skipBlanks rest).isEmpty then some value else none

end Manifest.Json
