import Manifest.Yaml
/-!
# What a plain scalar stands for

Plain text may be null, a truth value, an integer in four bases or a decimal;
all other text is a string. Digits behind a leading zero are a string too.
Integers outside 64 bits are refused, unless they do not even fit 128 bits:
those are read as decimals.
-/

namespace Manifest.Yaml

def isNullWord (text : String) : Bool := ["null", "Null", "NULL", "~"].contains text

def boolOf? (text : String) : Option Bool :=
  if ["true", "True", "TRUE"].contains text then some true
  else if ["false", "False", "FALSE"].contains text then some false
  else none

/-! ## Integers -/

/-- The value of a digit in a base of at most 16. -/
def digitValue? (base : Nat) (c : Char) : Option Nat :=
  let n :=
    if c.isDigit then c.toNat - '0'.toNat
    else if 'a' ≤ c && c ≤ 'f' then c.toNat - 'a'.toNat + 10
    else if 'A' ≤ c && c ≤ 'F' then c.toNat - 'A'.toNat + 10
    else 16
  if n < base then some n else none

def natOf? (base : Nat) (cs : List Char) : Option Nat :=
  if cs.isEmpty then none
  else do pure ((← cs.mapM (digitValue? base)).foldl (fun n d => base * n + d) 0)

/-- A leading zero before further digits, after an optional sign. -/
def isZeroPadded (cs : List Char) : Bool :=
  let (_, cs) := Binary64.signOf cs
  match cs with
  | '0' :: rest => !rest.isEmpty && rest.all Char.isDigit
  | _ => false

/-- The digits behind a base mark, or all of them in base ten. A mark with
no valid digits behind it is not read in base ten either, as its letter is no
digit. -/
def magnitude? (cs : List Char) : Option Nat :=
  match cs with
  | '0' :: 'x' :: digits => natOf? 16 digits
  | '0' :: 'o' :: digits => natOf? 8 digits
  | '0' :: 'b' :: digits => natOf? 2 digits
  | _ => natOf? 10 cs

/-- An integer with an optional sign, of at most 128 bits. -/
def intOf? (cs : List Char) : Option Int :=
  if isZeroPadded cs then none
  else
    match cs with
    | '-' :: digits => do
      let n ← magnitude? digits
      if n ≤ pow2 127 then pure (-(n : Int)) else none
    | '+' :: digits => bounded digits
    | _ => bounded cs
where
  bounded (cs : List Char) : Option Int := do
    let n ← magnitude? cs
    if n < pow2 128 then pure (n : Int) else none

/-- Does the integer fit 64 bits, signed or not? -/
def fitsWord (i : Int) : Bool := -(pow2 63 : Int) ≤ i && i < pow2 64

/-! ## Decimals -/

/-- The infinities and the value that is no number have words of their own;
any other decimal is finite. -/
def floatOf? (cs : List Char) : Option Binary64 :=
  let (signed, negative, unsigned) :=
    match cs with
    | '+' :: rest => (true, false, rest)
    | '-' :: rest => (true, true, rest)
    | _ => (false, false, cs)
  let word := String.ofList unsigned
  if [".inf", ".Inf", ".INF"].contains word then some (.infinite negative)
  else if !signed && [".nan", ".NaN", ".NAN"].contains word then some .notANumber
  else if unsigned.head? = some '+' || unsigned.head? = some '-' then none
  else (Binary64.read? cs).filter Binary64.isFinite

/-! ## Plain text -/

/-- The value of plain text; nothing for an integer that does not fit. -/
def ofPlain? (text : String) : Option Yaml :=
  let cs := text.toList
  if cs.isEmpty || isNullWord text then some .null
  else
    match boolOf? text with
    | some b => some (.bool b)
    | none =>
      match intOf? cs with
      | some i => if fitsWord i then some (.int i) else none
      | none =>
        if isZeroPadded cs then some (.string text)
        else
          match floatOf? cs with
          | some f => some (.float f)
          | none => some (.string text)

end Manifest.Yaml
