import Intake.Json.Reader
import Intake.Wire.Complaint

/-!
# Codecs

A codec fixes the wire form of a type: the tree of each of its values, and the value of each tree
that has one.

* `Codec`: the two directions, and what an absent payload of the type stands for.
* `Codec.wire`, `Codec.untyped`, `Codec.sorted`: the texts and the untyped form of a value.
* `Codec.octet` to `Codec.value`: the codecs of the plain types.
-/

namespace Intake.Wire
open Intake.Json

/-- Whether a tree is decoded where it was met, or was set aside until the rest of an outcome had
been read.  A few types are decoded more leniently, or report otherwise, when set aside. -/
inductive Setting where
  | direct
  | setAside
deriving DecidableEq

/-- The wire form of a type. -/
structure Codec (α : Type) where
  /-- The tree of a value, fields in the order of their declaration. -/
  encode : α → Tree
  /-- The value of a tree. -/
  decode : Setting → Tree → Except Complaint α
  /-- What an outcome without a payload of this type stands for, if for anything. -/
  absent : Option α := none

namespace Codec
variable {α : Type}

/-- The text of a value, fields in the order of their declaration. -/
def wire (codec : Codec α) (a : α) : String := (codec.encode a).text

/-- The untyped form of a value. -/
def untyped (codec : Codec α) (a : α) : Value := .ofTree (codec.encode a)

/-- The text of a value's untyped form. -/
def sorted (codec : Codec α) (a : α) : String := (codec.untyped a).text

/-- The value of an untyped form. -/
def ofValue (codec : Codec α) (v : Value) : Except Complaint α := codec.decode .direct v.tree

/-- The complaint that a tree is of the wrong kind. -/
def refuse (t : Tree) (expected : Expected) : Except Complaint α :=
  .error (.invalidType (.ofTree t) expected)

/-! ### Numbers -/

/-- The integer of a tree, as a value of a type that holds some integers. -/
def decodeInteger (expected : Expected) (ofInt? : Int → Option α) (t : Tree) :
    Except Complaint α :=
  match t with
  | .number n =>
    match n.toInt? with
    | none => refuse t expected
    | some i =>
      match ofInt? i with
      | some a => .ok a
      | none => .error (.invalidValue n expected)
  | t => refuse t expected

/-- The natural of an integer, if it is less than a bound. -/
def natBelow? (bound : Nat) : Int → Option Nat
  | .ofNat n => if n < bound then some n else none
  | .negSucc _ => none

/-- The tree of a natural of at most 64 bits. -/
def encodeNat (n : Nat) : Tree := .number (.natural (.ofNat n))

/-- Integers of 8 bits without sign. -/
def u8 : Codec UInt8 where
  encode n := encodeNat n.toNat
  decode _ := decodeInteger .u8 fun i => (natBelow? UInt8.size i).map .ofNat

/-- Integers of 32 bits without sign. -/
def u32 : Codec UInt32 where
  encode n := encodeNat n.toNat
  decode _ := decodeInteger .u32 fun i => (natBelow? UInt32.size i).map .ofNat

/-- Integers of 64 bits without sign, under the name that complaints give them. -/
def u64As (expected : Expected) : Codec UInt64 where
  encode n := .number (.natural n)
  decode _ := decodeInteger expected fun i => (natBelow? UInt64.size i).map .ofNat

/-- Integers of 64 bits without sign. -/
def u64 : Codec UInt64 := u64As .u64

/-- The number of a signed integer of 64 bits. -/
def signedNumber (n : Int64) : Number :=
  if n < 0 then .negative (Fin.ofNat _ (-n.toInt - 1).toNat) else .natural (.ofNat n.toInt.toNat)

/-- The signed integer of 64 bits with a value. -/
def signed? (i : Int) : Option Int64 :=
  if Int64.minValue.toInt ≤ i ∧ i ≤ Int64.maxValue.toInt then some (.ofInt i) else none

/-- Integers of 64 bits with sign. -/
def i64 : Codec Int64 where
  encode n := .number (signedNumber n)
  decode _ := decodeInteger .i64 signed?

/-- The number of a tree as a double; integers are rounded. -/
def decodeDouble : Tree → Except Complaint Double
  | .number n => .ok n.toDouble
  | t => refuse t .f64

/-- Doubles. -/
def f64 : Codec Double where
  encode d := .number (.double d)
  decode _ := decodeDouble

/-! ### Other plain types -/

/-- The truth value of a tree. -/
def decodeBool : Tree → Except Complaint Bool
  | .boolean b => .ok b
  | t => refuse t .boolean

/-- Truth values. -/
def bool : Codec Bool where
  encode := .boolean
  decode _ := decodeBool

/-- The string of a tree. -/
def decodeString : Tree → Except Complaint String
  | .string s => .ok s
  | t => refuse t .string

/-- Strings. -/
def string : Codec String where
  encode := .string
  decode _ := decodeString

/-- The unit value is null; where it was set aside, an object without members will do. -/
def decodeUnit : Setting → Tree → Except Complaint Unit
  | _, .null => .ok ()
  | .setAside, .object [] => .ok ()
  | _, t => refuse t .unit

/-- The unit value. -/
def unit : Codec Unit where
  encode _ := .null
  decode := decodeUnit

/-- Untyped values, which every tree is the form of one. -/
def value : Codec Value where
  encode := Value.tree
  decode _ t := .ok (.ofTree t)

/-- The octets of an array. -/
def decodeOctets (setting : Setting) : Tree → Except Complaint (List UInt8)
  | .array items => items.mapM (u8.decode setting)
  | t => refuse t .octets

/-- Lists of octets. -/
def octets : Codec (List UInt8) where
  encode ns := .array (ns.map u8.encode)
  decode := decodeOctets

/-- The tree of a value that may be missing. -/
def encodeOption (codec : Codec α) : Option α → Tree
  | none => .null
  | some a => codec.encode a

/-- Null is nothing; any other tree must be a value. -/
def decodeOption (codec : Codec α) (setting : Setting) : Tree → Except Complaint (Option α)
  | .null => .ok none
  | t => some <$> codec.decode setting t

/-- Values that may be missing; an outcome may leave such a payload out. -/
def option (codec : Codec α) : Codec (Option α) where
  encode := encodeOption codec
  decode := decodeOption codec
  absent := some none

end Codec
end Intake.Wire
