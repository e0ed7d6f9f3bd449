/-!
# The shortest decimal text of a number

Among all decimals that read back as a given number, the ones with the fewest digits are short
enough to print, and of those the nearest to the number is the right one. How the digits are then
laid out is a matter of style.

## Main definitions

* `BinaryFraction` — a positive number as a whole number times a power of two.
* `BinaryFraction.shortest` — the fewest digits that read back, nearest first.
* `NumberStyle` — where the point and the exponent go, and which way an exact tie is broken.
* `NumberStyle.render` — the text of a finite number.
-/

namespace Wireframe

/-- The number `significand * 2 ^ exponent`. `narrow` tells that the neighbour below lies at half
the distance of the neighbour above, which happens at powers of two. -/
structure BinaryFraction where
  significand : Nat
  exponent : Int
  narrow : Bool
  deriving Repr, DecidableEq

namespace BinaryFraction

/-- The sign of a number and its absolute value; none for zero. -/
def ofFloat (x : Float) : Bool × Option BinaryFraction :=
  let bits : Nat := x.toBits.toNat
  let negative := bits / Nat.pow 2 63 == 1
  let field : Nat := bits / Nat.pow 2 52 % Nat.pow 2 11
  let fraction : Nat := bits % Nat.pow 2 52
  -- an empty exponent field stands for zero and for numbers too small for a leading one
  if field == 0 then
    (negative, if fraction == 0 then none else some ⟨fraction, -1074, false⟩)
  else
    (negative, some ⟨Nat.pow 2 52 + fraction, (field : Int) - 1075, fraction == 0 && field != 1⟩)

/-- The factor that turns a power with a possibly negative exponent into a whole number. -/
def scale (base : Nat) (exponent : Int) : Nat :=
  Nat.pow base exponent.toNat

/-- Of the two multiples of `10 ^ place` next to the number, the one to print: it has to read back
as the number, so it lies no farther away than half the distance to a neighbour, ends included when
the significand is even. The nearer one wins, and `tieUp` decides between equally near ones. -/
def multipleAt? (b : BinaryFraction) (tieUp : Bool) (place : Int) : Option Nat :=
  -- quarters of the last binary place on one side, multiples of the decimal place on the other
  let quarter := scale 2 (b.exponent - 2) * scale 10 (-place)
  let unit := scale 10 place * scale 2 (2 - b.exponent)
  let middle := 4 * b.significand * quarter
  let low := middle - (if b.narrow then 1 else 2) * quarter
  let high := middle + 2 * quarter
  let reads (n : Nat) : Bool :=
    if b.significand % 2 == 0 then low ≤ n * unit && n * unit ≤ high
    else low < n * unit && n * unit < high
  let below := middle / unit
  let above := below + 1
  match reads below, reads above with
  | false, false => none
  | true, false => some below
  | false, true => some above
  | true, true =>
    let toBelow := middle - below * unit
    let toAbove := above * unit - middle
    let up := if tieUp then toAbove ≤ toBelow
      else toAbove < toBelow || (toAbove == toBelow && above % 2 == 0)
    some (if up then above else below)

/-- Drop the zeros at the end, moving the decimal place up. -/
def trim (n : Nat) (place : Int) : Nat × Int :=
  if divides : 0 < n ∧ n % 10 = 0 then trim (n / 10) (place + 1) else (n, place)
termination_by n
decreasing_by omega

/-- The fewest digits that read back as the number, and the decimal place of the last one.

A number `m * 2 ^ e` lies below ten to the power of `(log₂ m + 1 + e) * 0.30103` rounded up, and
seventeen digits always suffice, so the places tried hold the coarsest one that has a hit. -/
def shortest (b : BinaryFraction) (tieUp : Bool) : Nat × Int :=
  let top : Int := (((b.significand.log2 : Int) + 1 + b.exponent) * 30103).fdiv 100000 + 1
  -- from the coarsest place down, so that the first hit has the fewest digits
  let hit := (List.range 24).findSome? fun i : Nat =>
    let place : Int := top - (i : Int)
    (b.multipleAt? tieUp place).map fun n => trim n place
  hit.getD (b.significand, 0)

end BinaryFraction

/-- How a number is laid out. -/
structure NumberStyle where
  /-- Of two decimals that are equally near, take the larger one rather than the even one. -/
  tieUp : Bool
  /-- Write whole numbers with a zero after the point. -/
  keepPoint : Bool
  /-- The exponents of the first digit that are written out by position; all when absent. -/
  positional : Option (Int × Int)
  deriving Repr

namespace NumberStyle

/-- Numbers in running text: never an exponent, no point in whole numbers. -/
def plain : NumberStyle :=
  ⟨true, false, none⟩

/-- Numbers in data: always a point or an exponent, by position from `0.00001` to below `10¹⁶`. -/
def data : NumberStyle :=
  ⟨false, true, some (-5, 15)⟩

/-- Digits with the decimal point put at its place. -/
def positionalText (style : NumberStyle) (digits : List Char) (place : Int) : List Char :=
  if 0 ≤ place then
    digits ++ List.replicate place.toNat '0' ++ (if style.keepPoint then ".0".toList else [])
  else
    let decimals := (-place).toNat
    let padded := List.replicate (decimals + 1 - digits.length) '0' ++ digits
    padded.take (padded.length - decimals) ++ '.' :: padded.drop (padded.length - decimals)

/-- One digit, the others after a point, and a signed exponent. -/
def scientificText (digits : List Char) (exponent : Int) : List Char :=
  let mantissa := match digits with
    | first :: second :: rest => first :: '.' :: second :: rest
    | _ => digits
  mantissa ++ 'e' :: (if exponent < 0 then '-' else '+') :: (toString exponent.natAbs).toList

/-- The text of a finite number. -/
def render (style : NumberStyle) (x : Float) : String :=
  let (negative, magnitude) := BinaryFraction.ofFloat x
  let body := match magnitude with
    | none => style.positionalText ['0'] 0
    | some b =>
      let (n, place) := b.shortest style.tieUp
      let digits := Nat.toDigits 10 n
      let exponent := place + digits.length - 1
      match style.positional with
      | some (least, greatest) =>
        if least ≤ exponent && exponent ≤ greatest then style.positionalText digits place
        else scientificText digits exponent
      | none => style.positionalText digits place
  String.ofList (if negative then '-' :: body else body)

end NumberStyle

end Wireframe
