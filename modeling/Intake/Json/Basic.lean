import Intake.Double.Shortest

/-!
# Numbers, blanks and faults

What the readers and the printer of the format share.

A number is an integer of 64 bits, of either sign, or a double.  The integer `1` and the double
`1.0` are different numbers.  A text that is no JSON text fails in one of two ways, and readers
report whichever they meet first from left to right.

* `Number.toInt?`, `Number.ofInt?`: the integers among the numbers.
* `Number.toDouble`: the double nearest to a number.
* `Number.text`: the written form.
* `Malformed`: the two ways to fail.
* `dropBlanks`: the text after leading blanks.
-/

namespace Intake.Json

/-! ### Numbers -/

/-- A number of a JSON text. -/
inductive Number where
  /-- An integer from zero to `2⁶⁴ - 1`. -/
  | natural (n : UInt64)
  /-- The negative integer `-(k + 1)`, down to `-2⁶³`. -/
  | negative (k : Fin 0x8000000000000000)
  /-- A number that was written with a fraction or an exponent, or is too large for 64 bits. -/
  | double (d : Double)
deriving DecidableEq

namespace Number

/-- The value of an integer. -/
def toInt? : Number → Option Int
  | natural n => some n.toNat
  | negative k => some (Int.negSucc k)
  | double _ => none

/-- The number of an integer between `-2⁶³` and `2⁶⁴ - 1`. -/
def ofInt? : Int → Option Number
  | .ofNat n => if h : n < UInt64.size then some (natural (UInt64.ofNatLT n h)) else none
  | .negSucc k => if h : k < 0x8000000000000000 then some (negative ⟨k, h⟩) else none

/-- The double nearest to a number. -/
def toDouble : Number → Double
  | natural n => .ofNat false n.toNat
  | negative k => .ofNat true (k + 1)
  | double d => d

/-- Equality as numbers of the same kind; the two zeros among the doubles are equal. -/
def agrees : Number → Number → Bool
  | double x, double y => x.agrees y
  | x, y => x == y

/-- The written form of a number: integers in decimal, doubles in their shortest decimal. -/
def text : Number → List Char
  | natural n => Nat.toDigits 10 n.toNat
  | negative k => '-' :: Nat.toDigits 10 (k + 1)
  | double d => d.text

end Number

/-! ### Faults and blanks -/

/-- Why a text is no JSON text. -/
inductive Malformed where
  /-- The text ends where more of it must follow. -/
  | endOfInput
  /-- A character stands where it may not. -/
  | badSyntax
deriving DecidableEq

/-- Blanks may surround every token: space, tab, line feed and carriage return. -/
def isBlank (c : Char) : Bool := c == ' ' || c == '\t' || c == '\n' || c == '\r'

/-- The text after leading blanks. -/
def dropBlanks (text : List Char) : List Char := text.dropWhile isBlank

end Intake.Json
