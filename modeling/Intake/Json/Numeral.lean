import Intake.Json.Basic

/-!
# Numerals

A number as it is written: an optional minus sign, digits without a superfluous zero in front, an
optional fraction and an optional exponent.

* `Numeral.read`: the numeral at the start of a text.
* `Numeral.toNumber?`: what a numeral denotes; none if it is too large for a double.

A numeral with a fraction or an exponent denotes a double that is computed in two roundings: as many
leading digits as fit 64 bits are rounded to a double, which is then multiplied or divided by the
double nearest to the power of ten.
-/

namespace Intake.Json

/-- The parts of a written number. -/
structure Numeral where
  /-- Whether a minus sign stands in front. -/
  negative : Bool
  /-- The digits before the point. -/
  whole : List Char
  /-- The digits after the point, if there is a point. -/
  fraction : Option (List Char)
  /-- The exponent, if there is one. -/
  exponent : Option Int
deriving DecidableEq

namespace Numeral

/-! ### Reading -/

/-- One digit or more. -/
def readDigits (text : List Char) : Except Malformed (List Char × List Char) :=
  match text.span Char.isDigit with
  | ([], []) => .error .endOfInput
  | ([], _ :: _) => .error .badSyntax
  | (digits, rest) => .ok (digits, rest)

/-- The digits before the point; a zero in front of other digits is refused. -/
def readWhole (text : List Char) : Except Malformed (List Char × List Char) := do
  let (digits, rest) ← readDigits text
  match digits with
  | '0' :: _ :: _ => .error .badSyntax
  | _ => .ok (digits, rest)

/-- A point and the digits after it, if there is a point. -/
def readFraction : List Char → Except Malformed (Option (List Char) × List Char)
  | '.' :: text => do
    let (digits, rest) ← readDigits text
    .ok (some digits, rest)
  | text => .ok (none, text)

/-- An exponent without its letter: an optional sign and digits. -/
def readSignedDigits : List Char → Except Malformed (Int × List Char)
  | '-' :: text => do
    let (digits, rest) ← readDigits text
    .ok (-(Nat.ofDigitChars 10 digits 0 : Int), rest)
  | '+' :: text => do
    let (digits, rest) ← readDigits text
    .ok (Nat.ofDigitChars 10 digits 0, rest)
  | text => do
    let (digits, rest) ← readDigits text
    .ok (Nat.ofDigitChars 10 digits 0, rest)

/-- An exponent, if there is one. -/
def readExponent : List Char → Except Malformed (Option Int × List Char)
  | [] => .ok (none, [])
  | c :: text =>
    if c = 'e' ∨ c = 'E' then do
      let (exponent, rest) ← readSignedDigits text
      .ok (some exponent, rest)
    else .ok (none, c :: text)

/-- The sign in front of a numeral. -/
def readSign : List Char → Bool × List Char
  | '-' :: text => (true, text)
  | text => (false, text)

/-- The numeral at the start of a text. -/
def read (text : List Char) : Except Malformed (Numeral × List Char) := do
  let (negative, rest) := readSign text
  let (whole, rest) ← readWhole rest
  let (fraction, rest) ← readFraction rest
  let (exponent, rest) ← readExponent rest
  .ok (⟨negative, whole, fraction, exponent⟩, rest)

/-! ### Meaning -/

/-- Appends digits to a significand while it fits 64 bits; gives the significand and how many digits
were left out. -/
def append (significand : Nat) : List Char → Nat × Nat
  | [] => (significand, 0)
  | digit :: digits =>
    let longer := 10 * significand + (digit.toNat - '0'.toNat)
    if longer < UInt64.size then append longer digits else (significand, digits.length + 1)

/-- A double times `10 ^ exponent`.  Powers up to `10³⁰⁸` are doubles, and one step suffices; a
smaller number is divided twice, and no significand survives a third division. -/
def scale (d : Double) : Int → Option Double
  | .ofNat exponent =>
    if exponent ≤ 308 then d.mul? (Double.powerOfTen exponent)
    else if d.magnitude = 0 then some d
    else none
  | .negSucc k =>
    if k + 1 ≤ 308 then d.div? (Double.powerOfTen (k + 1))
    else if k + 1 ≤ 616 then do
      (← d.div? (Double.powerOfTen 308)).div? (Double.powerOfTen (k + 1 - 308))
    else some ⟨d.negative, 0, by decide⟩

/-- The double that a numeral denotes, unless it is too large. -/
def toDouble? (numeral : Numeral) : Option Double :=
  let fraction := numeral.fraction.getD []
  let (significand, droppedWhole) := append 0 numeral.whole
  let (significand, droppedFraction) := append significand fraction
  let places : Int := (droppedWhole : Int) - (fraction.length - droppedFraction : Nat)
  scale (.ofNat numeral.negative significand) (numeral.exponent.getD 0 + places)

/-- The number that a numeral denotes, unless it is too large.  Digits alone denote an integer if it
has 64 bits; minus zero is a double. -/
def toNumber? (numeral : Numeral) : Option Number :=
  let magnitude := Nat.ofDigitChars 10 numeral.whole 0
  let integer : Option Number :=
    if numeral.fraction.isSome || numeral.exponent.isSome then none
    else if numeral.negative then
      if magnitude = 0 then none else Number.ofInt? (-(magnitude : Int))
    else Number.ofInt? magnitude
  match integer with
  | some n => some n
  | none => numeral.toDouble?.map .double

end Numeral
end Intake.Json
