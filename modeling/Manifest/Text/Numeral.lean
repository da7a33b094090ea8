import Manifest.Number.Power
/-!
# Numerals

A natural number of at most 64 bits is written in decimal digits, perhaps
behind a plus; leading zeros do not count.
-/

namespace Manifest.Text

def decimalValue (digits : List Char) : Nat :=
  digits.foldl (fun n c => 10 * n + (c.toNat - '0'.toNat)) 0

/-- Reads a numeral. -/
def natural? (text : String) : Option Nat :=
  let digits :=
    match text.toList with
    | '+' :: digits => digits
    | digits => digits
  if digits.isEmpty || !digits.all Char.isDigit then none
  else if decimalValue digits < pow2 64 then some (decimalValue digits)
  else none

end Manifest.Text
