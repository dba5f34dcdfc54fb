import Intake.Wire.Record
import Intake.Wire.Tagged

/-!
# Payload shapes

The types that payloads of outcomes have.

* `Shape`: the shapes.
* `Shape.Carrier`, `Shape.codec`: the type of a shape and its wire form.
-/

namespace Intake.Wire
open Intake.Json

/-- A type of payloads. -/
inductive Shape where
  | u8 | u32 | u64 | i64 | f64
  | bool | string | unit
  /-- Untyped values. -/
  | value
  /-- Lists of octets. -/
  | octets
  /-- Integers of 32 bits that may be missing. -/
  | optionU32
  | location | sourceFile
  /-- Outcomes of an integer of 32 bits or a string. -/
  | outcome
deriving DecidableEq

namespace Shape

/-- The type of a shape's payloads. -/
abbrev Carrier : Shape → Type
  | u8 => UInt8
  | u32 => UInt32
  | u64 => UInt64
  | i64 => Int64
  | f64 => Double
  | bool => Bool
  | string => String
  | unit => Unit
  | value => Value
  | octets => List UInt8
  | optionU32 => Option UInt32
  | location => Location
  | sourceFile => SourceFile
  | outcome => Outcome UInt32 String

/-- The wire form of a shape's payloads. -/
def codec : (shape : Shape) → Codec shape.Carrier
  | u8 => .u8
  | u32 => .u32
  | u64 => .u64
  | i64 => .i64
  | f64 => .f64
  | bool => .bool
  | string => .string
  | unit => .unit
  | value => .value
  | octets => .octets
  | optionU32 => .option .u32
  | location => Record.location.codec
  | sourceFile => Record.sourceFile.codec
  | outcome => .outcome .u32 .string

end Shape
end Intake.Wire
