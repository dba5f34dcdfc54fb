/-!
# Double-precision numbers

The finite numbers of the binary64 format as exact data.  A number is a sign and a *magnitude*: its
place among the non-negative numbers of the format in ascending order.  The number at magnitude `m`
is `units m` steps of `2⁻¹⁰⁷⁴`, so that every question about a number is one about naturals.

* `nearest`: the magnitude of the number nearest to a ratio, ties to the even magnitude.
* `ofRatio?`: the number nearest to a ratio, if it is finite.
* `ofNat`, `mul?`, `div?`: what the format's arithmetic gives, rounded once.
* `agrees`: equality as numbers, under which the two zeros are equal.
-/

namespace Intake

/-- A finite binary64 number. -/
structure Double where
  /-- Whether the number bears a minus sign; zero may. -/
  negative : Bool
  /-- The place of the absolute value among the non-negative numbers, zero first. -/
  magnitude : Nat
  /-- The magnitudes from `2047 · 2⁵²` on stand for no finite number. -/
  finite : magnitude < 2047 <<< 52
deriving DecidableEq

namespace Double

/-- How many steps of `2⁻¹⁰⁷⁴` the number at a magnitude has.  The first `2⁵³` magnitudes are one
step apart; after them the distance doubles every `2⁵²` magnitudes. -/
def units (magnitude : Nat) : Nat :=
  if magnitude < 1 <<< 53 then magnitude
  else (1 <<< 52 + magnitude % (1 <<< 52)) <<< (magnitude >>> 52 - 1)

/-! ### Rounding -/

/-- The natural nearest to `numerator / denominator`, ties to the even one. -/
def roundToEven (numerator denominator : Nat) : Nat :=
  let below := numerator / denominator
  let excess := 2 * (numerator % denominator)
  if excess < denominator then below
  else if denominator < excess then below + 1
  else below + below % 2

/-- The magnitude nearest to `numerator / denominator`, ties to the even one.  The ratio is scaled
so that its whole part has 53 bits, or to whole steps if it is smaller than that. -/
def nearest (numerator denominator : Nat) : Nat :=
  let steps := numerator <<< 1074
  let scale := (steps / denominator).log2 - 52
  scale <<< 52 + roundToEven steps (denominator <<< scale)

/-- The number nearest to `± numerator / denominator`, unless that is too large to be finite. -/
def ofRatio? (negative : Bool) (numerator denominator : Nat) : Option Double :=
  if h : nearest numerator denominator < 2047 <<< 52 then
    some ⟨negative, nearest numerator denominator, h⟩
  else none

/-- The number nearest to `± numerator / denominator`, or the largest finite one. -/
def ofRatio (negative : Bool) (numerator denominator : Nat) : Double :=
  (ofRatio? negative numerator denominator).getD ⟨negative, 2047 <<< 52 - 1, by decide⟩

/-- The number nearest to an integer of at most 64 bits, which is always finite. -/
def ofNat (negative : Bool) (n : Nat) : Double := ofRatio negative n 1

/-- The number nearest to `10 ^ exponent`, for exponents up to 308. -/
def powerOfTen (exponent : Nat) : Double := ofNat false (Nat.pow 10 exponent)

/-- The rounded product, if it is finite. -/
def mul? (x y : Double) : Option Double :=
  ofRatio? (x.negative ^^ y.negative) (units x.magnitude * units y.magnitude) (1 <<< 2148)

/-- The rounded quotient, if it is finite and the divisor is not zero. -/
def div? (x y : Double) : Option Double :=
  if units y.magnitude = 0 then none
  else ofRatio? (x.negative ^^ y.negative) (units x.magnitude) (units y.magnitude)

/-! ### Comparison -/

/-- Equality as numbers: the signs of zeros do not count. -/
def agrees (x y : Double) : Bool :=
  x.magnitude == y.magnitude && (x.negative == y.negative || x.magnitude == 0)

end Double
end Intake
