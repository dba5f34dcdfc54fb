import Intake.Json.Tree
import Intake.Outcome
import Intake.Text.Quoted

/-!
# Complaints

Why a well-formed content is not the wire form of the type that was asked for.  A complaint names
what was found and what was expected.

* `Expected`, `Extent`: what a decoder asks for, and how long an array it asks for.
* `Found`: what stands in a tree, without the contents of arrays and objects.
* `Tagged`: the names that the decoder of outcomes looks for.
* `Complaint.message`: the sentence that reports a complaint.
-/

namespace Intake.Wire
open Intake.Json

/-- What a decoder asks for. -/
inductive Expected where
  | u8 | u32 | u64 | i64 | f64
  /-- A coordinate of a location. -/
  | coordinate
  | boolean | string | unit
  /-- A list of octets. -/
  | octets
  | location | sourceFile | outcome
  /-- The tag of an outcome. -/
  | tag
  /-- The number of a variant in place of its tag. -/
  | variantNumber
deriving DecidableEq

/-- The name of what a decoder asks for. -/
def Expected.text : Expected → String
  | u8 => "u8"
  | u32 => "u32"
  | u64 => "u64"
  | i64 => "i64"
  | f64 => "f64"
  | coordinate => "usize"
  | boolean => "a boolean"
  | string => "a string"
  | unit => "unit"
  | octets => "a sequence"
  | location => "struct TextLocation"
  | sourceFile => "struct SourceFile"
  | outcome => "internally tagged enum TaggedOutcome"
  | tag => "variant identifier"
  | variantNumber => "variant index 0 <= i < 2"

/-- How long an array a decoder asks for. -/
inductive Extent where
  /-- The two fields of a record, of which one or both are absent. -/
  | record (expected : Expected)
  /-- The payload of an outcome, which is absent. -/
  | payload (variant : Variant)
  /-- Exactly so many elements, of a list that has more. -/
  | exactly (count : Nat)
  /-- Fewer elements than there are. -/
  | fewer
deriving DecidableEq

/-- The description of a length. -/
def Extent.text : Extent → String
  | record expected => expected.text ++ " with 2 elements"
  | payload .ok => "struct variant TaggedOutcome::Ok with 1 element"
  | payload .failure => "struct variant TaggedOutcome::Failure with 1 element"
  | exactly 1 => "1 element in sequence"
  | exactly count => String.ofList (Nat.toDigits 10 count) ++ " elements in sequence"
  | fewer => "fewer elements in array"

/-- What stands in a tree, without the contents of arrays and objects. -/
inductive Found where
  | null
  | boolean (b : Bool)
  | number (n : Number)
  | string (s : String)
  | sequence
  | map
deriving DecidableEq

/-- What stands in a tree. -/
def Found.ofTree : Tree → Found
  | .null => null
  | .boolean b => boolean b
  | .number n => number n
  | .string s => string s
  | .array _ => sequence
  | .object _ => map

/-- A text between back quotes. -/
def backQuoted (text : String) : String := "\x60" ++ text ++ "\x60"

/-- The description of what was found. -/
def Found.text : Found → String
  | null => "null"
  | boolean b => "boolean " ++ backQuoted (if b then "true" else "false")
  | number (.double d) => "floating point " ++ backQuoted (String.ofList d.text)
  | number n => "integer " ++ backQuoted (String.ofList n.text)
  | string s => "string " ++ Text.Quoted.encode s
  | sequence => "sequence"
  | map => "map"

/-! ### The names of outcomes

The decoder of outcomes has names of its own: it is declared for a type that is tagged from within,
and not in terms of the names that outcomes are written with. -/

namespace Tagged

/-- The field of the tag. -/
def tagField : String := "tag"

/-- The tag of a variant: its name in lower case. -/
def tag : Variant → String
  | .ok => "ok"
  | .failure => "failure"

/-- The one field of a variant. -/
def payloadField : Variant → String
  | .ok => "value"
  | .failure => "reason"

/-- The variant with a tag. -/
def ofTag? (s : String) : Option Variant :=
  if s = tag .ok then some .ok else if s = tag .failure then some .failure else none

/-! What is looked for is what is written. -/

@[simp] theorem tagField_eq : tagField = Variant.tagField := rfl

@[simp] theorem tag_eq (v : Variant) : tag v = v.tag := by
  cases v <;> rfl

@[simp] theorem payloadField_eq (v : Variant) : payloadField v = v.payloadField := by
  cases v <;> rfl

end Tagged

/-! ### Complaints -/

/-- Why a content is not the wire form of a type. -/
inductive Complaint where
  /-- The wrong kind of content. -/
  | invalidType (found : Found) (expected : Expected)
  /-- An integer out of range. -/
  | invalidValue (n : Number) (expected : Expected)
  /-- An array of the wrong length. -/
  | invalidLength (count : Nat) (extent : Extent)
  /-- An object without a field that it must have. -/
  | missingField (name : String)
  /-- An object with two members for one field. -/
  | duplicateField (name : String)
  /-- A tag that is none of the tags of outcomes. -/
  | unknownVariant (tag : String)
deriving DecidableEq

/-- The sentence that reports a complaint. -/
def Complaint.message : Complaint → String
  | invalidType found expected => "invalid type: " ++ found.text ++ ", expected " ++ expected.text
  | invalidValue n expected =>
    "invalid value: " ++ (Found.number n).text ++ ", expected " ++ expected.text
  | invalidLength count extent =>
    "invalid length " ++ String.ofList (Nat.toDigits 10 count) ++ ", expected " ++ extent.text
  | missingField name => "missing field " ++ backQuoted name
  | duplicateField name => "duplicate field " ++ backQuoted name
  | unknownVariant tag =>
    "unknown variant " ++ backQuoted tag ++ ", expected " ++ backQuoted (Tagged.tag .ok) ++
      " or " ++ backQuoted (Tagged.tag .failure)

end Intake.Wire
