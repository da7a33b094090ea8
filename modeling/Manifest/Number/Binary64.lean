import Manifest.Number.Power
/-!
# Binary floating-point numbers of 64 bits

A finite number is `± mantissa · 2 ^ exponent` in its one canonical form:
the mantissa has 53 bits unless the exponent is the least one. Reading a
decimal rounds to the nearest number, a tie to the even mantissa; all of it
is arithmetic on natural numbers.
-/

namespace Manifest

inductive Binary64 where
  | finite (negative : Bool) (mantissa : Nat) (exponent : Int)
  | infinite (negative : Bool)
  | notANumber
deriving DecidableEq, Repr, Inhabited

namespace Binary64

def minExponent : Int := -1074

def maxExponent : Int := 971

def zero (negative : Bool) : Binary64 := .finite negative 0 minExponent

def isFinite : Binary64 → Bool
  | .finite .. => true
  | _ => false

/-! ## Rounding -/

/-- `num / den / 2 ^ e` as a fraction. -/
def scaled (num den : Nat) (e : Int) : Nat × Nat :=
  if 0 ≤ e then (num, den * pow2 e.toNat) else (num * pow2 (-e).toNat, den)

/-- The nearest natural number to `num / den`, a tie to the even one. -/
def roundHalfEven (num den : Nat) : Nat :=
  let q := num / den
  let r := 2 * (num % den)
  if r > den || (r == den && q % 2 == 1) then q + 1 else q

/-- The number nearest to `± num / den`. -/
def ofRatio (negative : Bool) (num den : Nat) : Binary64 :=
  if num = 0 then zero negative
  else
    -- num / den / 2 ^ guess lies between 2 ^ 51 and 2 ^ 53
    let guess : Int := (num.log2 : Int) - (den.log2 : Int) - 52
    let (n, d) := scaled num den guess
    let e := max minExponent (if n < d * pow2 52 then guess - 1 else guess)
    let (n, d) := scaled num den e
    let m := roundHalfEven n d
    let (m, e) := if m = pow2 53 then (pow2 52, e + 1) else (m, e)
    if maxExponent < e then .infinite negative else .finite negative m e

/-- The number nearest to `± digits · 10 ^ exponent`. Exponents far outside
the range are settled without computing the power. -/
def ofDecimal (negative : Bool) (digits : Nat) (exponent : Int) : Binary64 :=
  let size : Int := (Nat.toDigits 10 digits).length
  if digits = 0 || exponent + size < -330 then zero negative
  else if exponent + size > 310 then .infinite negative
  else if 0 ≤ exponent then ofRatio negative (digits * pow10 exponent.toNat) 1
  else ofRatio negative digits (pow10 (-exponent).toNat)

def ofInt (i : Int) : Binary64 := ofRatio (i < 0) i.natAbs 1

/-! ## Order -/

/-- A finite number as a fraction with a positive denominator. -/
def toRatio? : Binary64 → Option (Int × Nat)
  | .finite negative m e =>
    let (num, den) := if 0 ≤ e then (m * pow2 e.toNat, 1) else (m, pow2 (-e).toNat)
    some (if negative then -(num : Int) else num, den)
  | _ => none

/-- Numeric order; false when either side is not a number. -/
def lt : Binary64 → Binary64 → Bool
  | .notANumber, _ => false
  | _, .notANumber => false
  | .infinite n, .infinite n' => n && !n'
  | .infinite n, .finite .. => n
  | .finite .., .infinite n => !n
  | a@(.finite ..), b@(.finite ..) =>
    match a.toRatio?, b.toRatio? with
    | some (n, d), some (n', d') => n * d' < n' * d
    | _, _ => false

/-- Numeric equality: the two zeros are equal and `notANumber` equals
nothing. -/
def same : Binary64 → Binary64 → Bool
  | .notANumber, _ => false
  | .finite _ 0 _, .finite _ 0 _ => true
  | a, b => a = b

/-! ## Arithmetic -/

/-- The product with `num / den`, rounded; other than finite numbers stay. -/
def mulRatio (num den : Nat) (b : Binary64) : Binary64 :=
  match b.toRatio? with
  | some (n, d) => ofRatio (n < 0) (n.natAbs * num) (d * den)
  | none => b

/-! ## Reading -/

/-- The leading decimal digits, their value and their number. -/
def digitRun (cs : List Char) : Nat × Nat × List Char :=
  let ds := cs.takeWhile Char.isDigit
  (ds.foldl (fun n c => 10 * n + (c.toNat - '0'.toNat)) 0, ds.length,
    cs.dropWhile Char.isDigit)

/-- An optional sign; true for a minus. -/
def signOf : List Char → Bool × List Char
  | '-' :: cs => (true, cs)
  | '+' :: cs => (false, cs)
  | cs => (false, cs)

/-- The exponent of a decimal, zero at the end of the text. -/
def exponentOf? : List Char → Option Int
  | [] => some 0
  | c :: cs =>
    if c = 'e' || c = 'E' then
      let (negative, cs) := signOf cs
      match digitRun cs with
      | (_, 0, _) => none
      | (n, _, []) => some (if negative then -(n : Int) else n)
      | _ => none
    else none

/-- An unsigned decimal: digits with at most one point and an optional
exponent. At least one digit has to stand before the exponent. -/
def ofUnsigned? (negative : Bool) (cs : List Char) : Option Binary64 :=
  let (whole, wholeCount, cs) := digitRun cs
  let (part, partCount, cs) :=
    match cs with
    | '.' :: rest => digitRun rest
    | _ => (0, 0, cs)
  if wholeCount + partCount = 0 then none
  else
    (exponentOf? cs).map fun e =>
      ofDecimal negative (whole * pow10 partCount + part) (e - partCount)

/-- Reads a signed decimal, or a signed `inf`, `infinity` or `nan` in any
case. -/
def read? (cs : List Char) : Option Binary64 :=
  let (negative, cs) := signOf cs
  let word := String.ofList (cs.map Char.toLower)
  if word = "inf" || word = "infinity" then some (.infinite negative)
  else if word = "nan" then some .notANumber
  else ofUnsigned? negative cs

end Binary64

end Manifest
