import Intake.Source
import Intake.Wire.Codec

/-!
# Records

A record of two fields is an object with a member for each, in any order and among others, or an
array of the two in the order of their declaration.

* `Record`: what there is to know about a record type.
* `Record.codec`: its wire form.
* `Record.location`, `Record.sourceFile`: locations and source files.
-/

namespace Intake.Wire
open Intake.Json

/-- One field of a record. -/
structure Field (α : Type) where
  /-- The key of its member. -/
  name : String
  /-- What complaints call its type. -/
  expected : Expected
  /-- The wire form of its values. -/
  codec : Codec α

/-- A type of records with two fields. -/
structure Record (ρ α β : Type) where
  /-- What complaints call the type. -/
  expected : Expected
  first : Field α
  second : Field β
  /-- The record with two values. -/
  make : α → β → ρ
  /-- The values of a record. -/
  parts : ρ → α × β

namespace Record
variable {ρ α β : Type}

/-- The fields of a record that have been met so far. -/
abbrev Seen (α β : Type) := Option α × Option β

/-- A field that is met for the second time. -/
def refuseSecond {γ δ : Type} (name : String) : Option γ → Except Complaint δ → Except Complaint δ
  | some _, _ => .error (.duplicateField name)
  | none, value => value

/-- Takes in one member: a field's value is decoded unless it was there before, and a member for no
field is ignored. -/
def takeMember (record : Record ρ α β) (setting : Setting) (seen : Seen α β) :
    String × Tree → Except Complaint (Seen α β)
  | (key, t) =>
    if key = record.first.name then
      refuseSecond key seen.1 do return (some (← record.first.codec.decode setting t), seen.2)
    else if key = record.second.name then
      refuseSecond key seen.2 do return (seen.1, some (← record.second.codec.decode setting t))
    else .ok seen

/-- The record of the fields that were met; the first one that was not is reported. -/
def finish (record : Record ρ α β) : Seen α β → Except Complaint ρ
  | (none, _) => .error (.missingField record.first.name)
  | (some _, none) => .error (.missingField record.second.name)
  | (some a, some b) => .ok (record.make a b)

/-- The record of an object's members. -/
def decodeMembers (record : Record ρ α β) (setting : Setting) (members : List (String × Tree)) :
    Except Complaint ρ := do
  record.finish (← members.foldlM (record.takeMember setting) (none, none))

/-- How an array with more elements than fields is reported. -/
def tooLong : Setting → Extent
  | .direct => .fewer
  | .setAside => .exactly 2

/-- The record of an array's items.  The length is looked at when the items that are there have been
decoded. -/
def decodeItems (record : Record ρ α β) (setting : Setting) : List Tree → Except Complaint ρ
  | [] => .error (.invalidLength 0 (.record record.expected))
  | [t] => do
    let _ ← record.first.codec.decode setting t
    .error (.invalidLength 1 (.record record.expected))
  | t :: u :: more => do
    let a ← record.first.codec.decode setting t
    let b ← record.second.codec.decode setting u
    if more.isEmpty then .ok (record.make a b)
    else .error (.invalidLength (more.length + 2) (tooLong setting))

/-- The record of a tree. -/
def decode (record : Record ρ α β) (setting : Setting) : Tree → Except Complaint ρ
  | .object members => record.decodeMembers setting members
  | .array items => record.decodeItems setting items
  | t => Codec.refuse t record.expected

/-- The object of a record. -/
def encode (record : Record ρ α β) (r : ρ) : Tree :=
  .object [(record.first.name, record.first.codec.encode (record.parts r).1),
    (record.second.name, record.second.codec.encode (record.parts r).2)]

/-- The wire form of a record type. -/
def codec (record : Record ρ α β) : Codec ρ where
  encode := record.encode
  decode := record.decode

/-! ### The records -/

/-- A coordinate of a location. -/
def coordinate (name : String) : Field UInt64 := ⟨name, .coordinate, Codec.u64As .coordinate⟩

/-- A string field. -/
def stringField (name : String) : Field String := ⟨name, .string, Codec.string⟩

/-- Locations, the line before the column. -/
def location : Record Location UInt64 UInt64 where
  expected := .location
  first := coordinate "line_number"
  second := coordinate "column"
  make := Location.mk
  parts l := (l.line, l.column)

/-- Source files, the path before the contents. -/
def sourceFile : Record SourceFile String String where
  expected := .sourceFile
  first := stringField "file_path"
  second := stringField "file_contents"
  make := SourceFile.mk
  parts := SourceFile.parts

end Record
end Intake.Wire
