/-!
# Reading decimal numbers

A decimal text is a sign, digits with at most one point, and an exponent; sign, point and exponent
may be missing. It stands for the nearest binary fraction, a tie going to the even one.

## Main definitions

* `Decimal` — the parts of a decimal text.
* `Decimal.ofText?` — the parts, when the text is one decimal number and nothing else.
* `Decimal.value?` — the nearest finite number, when there is one.
* `readNumber?` — both steps together.
-/

namespace Wireframe

/-- A sign, a whole number and a power of ten to multiply it with. -/
structure Decimal where
  negative : Bool
  digits : List Char
  exponent : Int
  deriving Repr, DecidableEq

namespace Decimal

/-- The number that a row of decimal digits denotes. -/
def natOfDigits (digits : List Char) : Nat :=
  digits.foldl (fun n c => 10 * n + (c.toNat - '0'.toNat)) 0

/-- A leading sign, and whether it is a minus. -/
def takeSign : List Char → Bool × List Char
  | '-' :: rest => (true, rest)
  | '+' :: rest => (false, rest)
  | text => (false, text)

/-- The digits after a point, if the text goes on with a point. -/
def takeFraction : List Char → List Char × List Char
  | '.' :: rest => (rest.takeWhile Char.isDigit, rest.dropWhile Char.isDigit)
  | text => ([], text)

/-- The exponent at the end of a number. It needs at least one digit. -/
def exponent? : List Char → Option Int
  | [] => some 0
  | mark :: rest =>
    let (negative, digits) := takeSign rest
    if (mark == 'e' || mark == 'E') && !digits.isEmpty && digits.all Char.isDigit then
      let size : Int := natOfDigits digits
      some (if negative then -size else size)
    else none

/-- The parts of a text that is one decimal number. It needs a digit before or after the point. -/
def ofText? (text : List Char) : Option Decimal := do
  let (negative, unsigned) := takeSign text
  let whole := unsigned.takeWhile Char.isDigit
  let (fraction, rest) := takeFraction (unsigned.dropWhile Char.isDigit)
  if (whole ++ fraction).isEmpty then none
  else
    let exponent ← exponent? rest
    return ⟨negative, whole ++ fraction, exponent - fraction.length⟩

/-- The nearest finite number. There is none when the number is too large.

Numbers with no digit left of the 400th decimal place are zero, and those with a digit left of the
400th whole place are too large, so that the powers of ten computed stay small. -/
def value? (d : Decimal) : Option Float :=
  let digits := d.digits.dropWhile (· == '0')
  let magnitude := d.exponent + digits.length
  let unsigned? :=
    if digits.isEmpty || magnitude < -400 then some 0.0
    else if magnitude > 400 then none
    else
      let x := Float.ofScientific (natOfDigits digits) (d.exponent < 0) d.exponent.natAbs
      if x.isFinite then some x else none
  unsigned?.map fun x => if d.negative then -x else x

end Decimal

/-- The finite number that a text denotes, if it is one decimal number. -/
def readNumber? (text : String) : Option Float :=
  (Decimal.ofText? text.toList).bind Decimal.value?

end Wireframe
