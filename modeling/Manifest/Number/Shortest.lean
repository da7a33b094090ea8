import Manifest.Number.Binary64
/-!
# Shortest decimals

The written form of a floating-point number has the fewest significant
digits that read back as that number, and of those the nearest. Decimal
grids of 1, 2, … 17 digits are tried in turn: on each the two neighbours of
the value are the only candidates worth testing.

Two notations use the digits: `plain` never writes an exponent, `pretty`
keeps a point in every number and writes an exponent where the point would
stand far from the digits.
-/

namespace Manifest.Binary64

/-- A decimal `digits · 10 ^ exponent`. -/
structure Decimal where
  digits : Nat
  exponent : Int
deriving DecidableEq, Repr

namespace Decimal

/-- Compares `digits · 10 ^ exponent` with `num · 2 ^ q`. -/
def compareWith (d : Decimal) (num : Nat) (q : Int) : Ordering :=
  let side (positive : Int) : Nat := if 0 ≤ positive then positive.toNat else 0
  compare
    (d.digits * pow10 (side d.exponent) * pow2 (side (-q)))
    (num * pow2 (side q) * pow10 (side (-d.exponent)))

/-- Without zeros at the end of the digits; `fuel` bounds their number. -/
def stripZeros (fuel : Nat) (d : Decimal) : Decimal :=
  match fuel with
  | 0 => d
  | fuel + 1 =>
    if d.digits ≠ 0 && d.digits % 10 == 0 then
      stripZeros fuel ⟨d.digits / 10, d.exponent + 1⟩
    else d

end Decimal

/-- The numbers that round to `m · 2 ^ q` are those between the two results,
in units of `2 ^ (q - 2)`. Below a power of two the gap is half as wide. -/
def roundingInterval (m : Nat) (q : Int) : Nat × Nat :=
  (if m = pow2 52 && minExponent < q then 4 * m - 1 else 4 * m - 2, 4 * m + 2)

/-- Does the decimal round to `m · 2 ^ q`? The ends belong to the even
mantissa. -/
def readsBack (m : Nat) (q : Int) (d : Decimal) : Bool :=
  let (low, high) := roundingInterval m q
  match d.compareWith low (q - 2), d.compareWith high (q - 2) with
  | .gt, .lt => true
  | .eq, _ => m % 2 == 0
  | _, .eq => m % 2 == 0
  | _, _ => false

/-- The least `k` with `num · 10 ^ k ≥ den`, searched from `k` upwards. -/
def leadingZeros (num den : Nat) : (fuel k : Nat) → Nat
  | 0, k => k
  | fuel + 1, k => if num * pow10 k ≥ den then k else leadingZeros num den fuel (k + 1)

/-- The position of the decimal point: `10 ^ (p - 1) ≤ num / den < 10 ^ p`. -/
def pointPosition (num den : Nat) : Int :=
  if den ≤ num then (Nat.toDigits 10 (num / den)).length
  else 1 - (leadingZeros num den 400 0 : Int)

/-- The candidate of the grid `10 ^ g` nearest to `num / den` that reads
back, a tie to the even digits. -/
def onGrid? (m : Nat) (q : Int) (num den : Nat) (g : Int) : Option Decimal :=
  let (n, d) := if 0 ≤ g then (num, den * pow10 g.toNat) else (num * pow10 (-g).toNat, den)
  let low : Decimal := ⟨n / d, g⟩
  let high : Decimal := ⟨n / d + 1, g⟩
  let preferred := if roundHalfEven n d = n / d then [low, high] else [high, low]
  preferred.find? (readsBack m q)

/-- Tries the grids of `n`, `n + 1`, … digits. -/
def shortestFrom (m : Nat) (q : Int) (num den : Nat) (p : Int) :
    (fuel n : Nat) → Decimal
  | 0, _ => ⟨num / den, 0⟩
  | fuel + 1, n =>
    match onGrid? m q num den (p - n) with
    | some d => d
    | none => shortestFrom m q num den p fuel (n + 1)

/-- The shortest decimal that reads back as `m · 2 ^ q`. -/
def shortest (m : Nat) (q : Int) : Decimal :=
  if m = 0 then ⟨0, 0⟩
  else
    let (num, den) := if 0 ≤ q then (m * pow2 q.toNat, 1) else (m, pow2 (-q).toNat)
    (shortestFrom m q num den (pointPosition num den) 17 1).stripZeros 20

def zeros (n : Nat) : String := String.ofList (List.replicate n '0')

def signText (negative : Bool) : String := if negative then "-" else ""

/-- The digits with the point at position `p`, both parts non-empty. -/
def pointed (digits : String) (p : Nat) : String :=
  let cs := digits.toList
  String.ofList (cs.take p) ++ "." ++ String.ofList (cs.drop p)

/-- Positional notation: no exponent, and no point in a whole number. -/
def plain : Binary64 → String
  | .notANumber => "NaN"
  | .infinite negative => signText negative ++ "inf"
  | .finite negative m q =>
    let d := shortest m q
    let digits := toString d.digits
    let p : Int := digits.length + d.exponent
    signText negative ++
      if 0 ≤ d.exponent then digits ++ zeros d.exponent.toNat
      else if 0 < p then pointed digits p.toNat
      else "0." ++ zeros (-p).toNat ++ digits

/-- The notation of data formats: a whole number keeps `.0`, and an exponent
is written below `10 ^ -5` and from `10 ^ 16` on. Only finite numbers have
one. -/
def pretty (negative : Bool) (m : Nat) (q : Int) : String :=
  let d := shortest m q
  let digits := toString d.digits
  let p : Int := digits.length + d.exponent
  signText negative ++
    if m = 0 then "0.0"
    else if 0 ≤ d.exponent && p ≤ 16 then digits ++ zeros d.exponent.toNat ++ ".0"
    else if 0 < p && p ≤ 16 then pointed digits p.toNat
    else if -5 < p && p ≤ 0 then "0." ++ zeros (-p).toNat ++ digits
    else
      (if digits.length = 1 then digits else pointed digits 1) ++ "e" ++ toString (p - 1)

end Manifest.Binary64
