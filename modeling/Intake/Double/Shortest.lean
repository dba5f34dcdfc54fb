import Intake.Double

/-!
# Shortest decimals

The decimal text of a double: the fewest digits that no other double is nearest to, and of the
decimals with that many digits the one nearest to the number (of two equally near, the even one).

* `Decimal`: digits and the decimal exponent of the first of them.
* `Double.shortest`: the shortest decimal of a magnitude.
* `Double.text`: the written form.
-/

namespace Intake

/-- The decimal `d.ddd… · 10 ^ exponent`. -/
structure Decimal where
  /-- The digits, the first of which is not zero unless it is alone. -/
  digits : List Char
  /-- The exponent of the first digit. -/
  exponent : Int
deriving DecidableEq

namespace Double

/-! ### The interval of a number

Distances are measured in half steps, `2⁻¹⁰⁷⁵`, so that the midpoints between neighbours are
naturals. -/

/-- A comparison of `n · 10 ^ exponent` with a number of half steps, both made whole. -/
def compareHalfSteps (n : Nat) (exponent : Int) (halfSteps : Nat) : Ordering :=
  compare ((n * Nat.pow 10 exponent.toNat) <<< 1075) (halfSteps * Nat.pow 10 (-exponent).toNat)

/-- Whether the number at a magnitude is the nearest one to `n · 10 ^ exponent`.  The midpoints to
the neighbours belong to the even magnitude. -/
def isNearestTo (magnitude n : Nat) (exponent : Int) : Bool :=
  let low := units (magnitude - 1) + units magnitude
  let high := units magnitude + units (magnitude + 1)
  let atLow := compareHalfSteps n exponent low
  let atHigh := compareHalfSteps n exponent high
  let even := magnitude % 2 == 0
  (atLow == .gt || (even && atLow == .eq)) && (atHigh == .lt || (even && atHigh == .eq))

/-- The decimal exponent of the first digit of the number at a magnitude other than zero.  With 400
more places every such number has a whole part, and the length of that tells the exponent. -/
def firstExponent (magnitude : Nat) : Int :=
  (Nat.toDigits 10 ((units magnitude * Nat.pow 10 400) >>> 1074)).length - 401

/-- Of `below` and the next natural, those that read back, the nearer first. -/
def pick? (magnitude below : Nat) (exponent : Int) : Option Nat :=
  let reads := fun n => isNearestTo magnitude n exponent
  match reads below, reads (below + 1) with
  | false, false => none
  | true, false => some below
  | false, true => some (below + 1)
  | true, true =>
    -- The midpoint of the two candidates, in units of half a place.
    match compareHalfSteps (2 * below + 1) exponent (2 * (2 * units magnitude)) with
    | .lt => some (below + 1)
    | .gt => some below
    | .eq => some (below + below % 2)

/-- The two neighbours on the grid of decimals with `count` digits, tried in turn. -/
def onGrid? (magnitude count : Nat) : Option (Nat × Int) :=
  let exponent := firstExponent magnitude - (count - 1 : Nat)
  let below :=
    units magnitude * Nat.pow 10 (-exponent).toNat / (Nat.pow 10 exponent.toNat <<< 1074)
  (pick? magnitude below exponent).map (·, exponent)

/-- The shortest decimal of a magnitude.  Seventeen digits always read back. -/
def shortest (magnitude : Nat) : Decimal :=
  if magnitude = 0 then ⟨['0'], 0⟩
  else match (List.range' 1 17).findSome? (onGrid? magnitude) with
    | some (n, exponent) =>
      let digits := Nat.toDigits 10 n
      ⟨(digits.reverse.dropWhile (· == '0')).reverse, exponent + (digits.length - 1 : Nat)⟩
    | none => ⟨['0'], 0⟩

end Double

/-! ### Written form -/

/-- How decimals are written. -/
structure DecimalStyle where
  /-- The least exponent of a first digit that is written positionally. -/
  leastPlain : Int
  /-- The greatest exponent of a first digit that is written positionally. -/
  greatestPlain : Int

/-- A decimal in positional notation, with at least one digit on both sides of the point. -/
def Decimal.plain (d : Decimal) : List Char :=
  if d.exponent < 0 then
    '0' :: '.' :: (List.replicate ((-d.exponent).toNat - 1) '0' ++ d.digits)
  else
    let whole := d.exponent.toNat + 1
    let padded := d.digits ++ List.replicate (whole - d.digits.length) '0'
    let fraction := padded.drop whole
    padded.take whole ++ '.' :: (if fraction.isEmpty then ['0'] else fraction)

/-- A decimal as digits and a signed exponent, the point left out after a lone digit. -/
def Decimal.scientific (d : Decimal) : List Char :=
  let mantissa := match d.digits with
    | first :: more@(_ :: _) => first :: '.' :: more
    | lone => lone
  let sign := if d.exponent < 0 then '-' else '+'
  mantissa ++ 'e' :: sign :: Nat.toDigits 10 d.exponent.natAbs

/-- A decimal in the notation that the style chooses for its exponent. -/
def DecimalStyle.write (style : DecimalStyle) (d : Decimal) : List Char :=
  if style.leastPlain ≤ d.exponent ∧ d.exponent ≤ style.greatestPlain then d.plain
  else d.scientific

/-- Doubles are written positionally from `10⁻⁵` up to, but not at, `10¹⁶`. -/
def Double.style : DecimalStyle := ⟨-5, 15⟩

/-- The written form of a double. -/
def Double.text (d : Double) : List Char :=
  let digits := Double.style.write (Double.shortest d.magnitude)
  if d.negative then '-' :: digits else digits

end Intake
