import Manifest.Number.Power
import Manifest.Text.Blank
/-!
# Instants

An instant is a point in time at a precision of nanoseconds. Its text is the
date and the time in UTC with as few groups of three fraction digits as it
needs. Reading takes any offset, blanks around the separators, and a `60`th
second, which is kept as a full second of nanoseconds.
-/

namespace Manifest

structure Instant where
  /-- Seconds since 1970. -/
  seconds : Int
  /-- Below two thousand million; beyond one in a leap second. -/
  nanos : Nat
deriving DecidableEq, Repr

namespace Instant

/-! ## The calendar -/

def isLeapYear (y : Int) : Bool := y % 4 = 0 && (y % 100 ≠ 0 || y % 400 = 0)

def daysInMonth (y : Int) (m : Nat) : Nat :=
  if m = 2 then if isLeapYear y then 29 else 28
  else if m = 4 || m = 6 || m = 9 || m = 11 then 30
  else 31

/-- Days from 1970 to a date. Years are counted from March, so that a leap day
ends its year. -/
def daysOf (y : Int) (m d : Nat) : Int :=
  let y := if m ≤ 2 then y - 1 else y
  let era := y.fdiv 400
  let yearOfEra := y - era * 400
  let dayOfYear : Int := (153 * ((m + 9) % 12) + 2) / 5 + d - 1
  let dayOfEra := yearOfEra * 365 + yearOfEra / 4 - yearOfEra / 100 + dayOfYear
  era * 146097 + dayOfEra - 719468

/-- The date of a number of days from 1970. -/
def dateOf (days : Int) : Int × Nat × Nat :=
  let z := days + 719468
  let era := z.fdiv 146097
  let dayOfEra := (z - era * 146097).toNat
  let yearOfEra := (dayOfEra - dayOfEra / 1460 + dayOfEra / 36524 - dayOfEra / 146096) / 365
  let dayOfYear := dayOfEra - (365 * yearOfEra + yearOfEra / 4 - yearOfEra / 100)
  let mp := (5 * dayOfYear + 2) / 153
  let d := dayOfYear - (153 * mp + 2) / 5 + 1
  let m := if mp < 10 then mp + 3 else mp - 9
  let y := (yearOfEra : Int) + era * 400
  (if m ≤ 2 then y + 1 else y, m, d)

/-! ## Writing -/

def padded (width n : Nat) : String :=
  let digits := toString n
  String.ofList (List.replicate (width - digits.length) '0') ++ digits

def yearText (y : Int) : String :=
  if 0 ≤ y && y ≤ 9999 then padded 4 y.toNat
  else (if y < 0 then "-" else "+") ++ padded 4 y.natAbs

def fractionText (nanos : Nat) : String :=
  if nanos = 0 then ""
  else if nanos % 1000000 = 0 then "." ++ padded 3 (nanos / 1000000)
  else if nanos % 1000 = 0 then "." ++ padded 6 (nanos / 1000)
  else "." ++ padded 9 nanos

/-- The instant in UTC. -/
def text (t : Instant) : String :=
  let days := t.seconds.fdiv 86400
  let ofDay := (t.seconds - days * 86400).toNat
  let (y, m, d) := dateOf days
  let leap := t.nanos / 1000000000
  yearText y ++ "-" ++ padded 2 m ++ "-" ++ padded 2 d ++ "T"
    ++ padded 2 (ofDay / 3600) ++ ":" ++ padded 2 (ofDay / 60 % 60) ++ ":"
    ++ padded 2 (ofDay % 60 + leap) ++ fractionText (t.nanos % 1000000000) ++ "Z"

/-! ## Reading -/

def digitsValue (ds : List Char) : Nat :=
  ds.foldl (fun n c => 10 * n + (c.toNat - '0'.toNat)) 0

/-- One to `width` digits after optional blanks. -/
def number? (width : Nat) (cs : List Char) : Option (Nat × List Char) :=
  let cs := Text.trimLeft cs
  let ds := (cs.takeWhile Char.isDigit).take width
  if ds.isEmpty then none else some (digitsValue ds, cs.drop ds.length)

/-- A year of four digits, or of any number of digits with a sign. -/
def year? (cs : List Char) : Option (Int × List Char) :=
  let cs := Text.trimLeft cs
  let signed (negative : Bool) (rest : List Char) : Option (Int × List Char) :=
    let ds := rest.takeWhile Char.isDigit
    if ds.isEmpty || 18 < ds.length then none
    else
      let n : Int := digitsValue ds
      some (if negative then -n else n, rest.drop ds.length)
  match cs with
  | '-' :: rest => signed true rest
  | '+' :: rest => signed false rest
  | _ => (number? 4 cs).map fun (n, rest) => ((n : Int), rest)

/-- A separator, with blanks in front of it. -/
def separator? (c : Char) (cs : List Char) : Option (List Char) :=
  match Text.trimLeft cs with
  | d :: rest => if d = c then some rest else none
  | [] => none

/-- The fraction of a second; digits beyond the ninth are dropped. -/
def fraction? : List Char → Option (Nat × List Char)
  | '.' :: cs =>
    let ds := cs.takeWhile Char.isDigit
    let kept := ds.take 9
    if ds.isEmpty then none
    else some (digitsValue kept * pow10 (9 - kept.length), cs.drop ds.length)
  | cs => some (0, cs)

/-- The offset from UTC in seconds. -/
def offset? (cs : List Char) : Option (Int × List Char) :=
  let twoDigits : List Char → Option (Nat × List Char)
    | a :: b :: rest => if a.isDigit && b.isDigit then some (digitsValue [a, b], rest) else none
    | _ => none
  let signed (negative : Bool) (cs : List Char) : Option (Int × List Char) := do
    let (hours, cs) ← twoDigits cs
    let (minutes, cs) ← twoDigits (cs.dropWhile fun c => c = ':' || Text.isBlank c)
    if 24 ≤ hours || 60 ≤ minutes then none
    else
      let n : Int := hours * 3600 + minutes * 60
      pure (if negative then -n else n, cs)
  match cs with
  | '+' :: rest => signed false rest
  | c :: rest =>
    if c = 'Z' || c = 'z' then some (0, rest)
    else if c = '-' || c = '−' then signed true rest
    else if String.ofList ((cs.take 3).map Char.toUpper) = "UTC" then some (0, cs.drop 3)
    else none
  | [] => none

/-- Reads a date, a time and an offset. -/
def read? (text : String) : Option Instant := do
  let (y, cs) ← year? text.toList
  let (m, cs) ← number? 2 (← separator? '-' cs)
  let (d, cs) ← number? 2 (← separator? '-' cs)
  let cs ←
    match cs with
    | c :: rest => if c = 'T' || c = 't' || c = ' ' then some rest else none
    | [] => none
  let (hour, cs) ← number? 2 cs
  let (minute, cs) ← number? 2 (← separator? ':' cs)
  let (second, cs) ← number? 2 (← separator? ':' cs)
  let (nanos, cs) ← fraction? cs
  let (offset, cs) ← offset? (Text.trimLeft cs)
  if !(Text.trimLeft cs).isEmpty || y < -262143 || 262142 < y || m < 1 || 12 < m || d < 1
      || daysInMonth y m < d || 23 < hour || 59 < minute || 60 < second then none
  else
    let leap := second / 60
    pure {
      seconds := daysOf y m d * 86400 + hour * 3600 + minute * 60 + (second - leap : Nat) - offset
      nanos := nanos + leap * 1000000000 }

end Instant

end Manifest
