import Intake.Json.Reader
import Intake.Wire.Record
import Intake.Wire.Tagged

/-!
# Decoding from text

Outcomes and records are also decoded straight from text, without an untyped value in between.  The
text is read once from left to right and the first fault is reported, be it one of the text or a
complaint.  So two members under one key are noticed, which an untyped value would have merged.

* `TextError`: what can be wrong.
* `readOutcome`: an outcome from a text.  Its tag is looked at when it is met; everything else is
  set aside, and the payload is decoded when the whole outcome has been read.
* `readRecord`: a record from a text.  Fields are decoded when they are met, and members for no
  field are passed over.
-/

namespace Intake.Wire
open Intake.Json

/-- What can be wrong with a text that is to hold a typed value. -/
inductive TextError where
  /-- The text is no JSON text. -/
  | malformed (fault : Malformed)
  /-- The content is not the wire form of the type. -/
  | rejected (complaint : Complaint)
deriving DecidableEq

instance : MonadLift (Except Malformed) (Except TextError) := ⟨Except.mapError .malformed⟩

instance : MonadLift (Except Complaint) (Except TextError) := ⟨Except.mapError .rejected⟩

variable {α β ρ : Type}

/-- Decodes a word, number or string in place.  Where an array or an object stands instead, that is
complained about at its opening bracket. -/
def readInPlace (expected : Expected) (decode : Tree → Except Complaint α) (text : List Char) :
    Except TextError (α × List Char) :=
  match dropBlanks text with
  | '[' :: _ => .error (.rejected (.invalidType .sequence expected))
  | '{' :: _ => .error (.rejected (.invalidType .map expected))
  | rest => do
    let (t, rest) ← readScalar rest
    return (← decode t, rest)

/-- A word, number or string where an array or an object should stand. -/
def refuseScalar (expected : Expected) (text : List Char) : Except TextError α := do
  let (t, _) ← readScalar text
  Codec.refuse t expected

/-! ### Outcomes -/

/-- The tag of an outcome in a text. -/
def readVariant (text : List Char) : Except TextError (Variant × List Char) :=
  readInPlace .tag (decodeVariant .direct) text

/-- A value inside an outcome, which is one level deep itself. -/
def readInner (limit : Nat) (text : List Char) : Except Malformed (Tree × List Char) :=
  readTree limit (nestingLimit - 1) text

/-- Takes in a member of an outcome.  A second tag is refused at its key. -/
def openMember (limit : Nat) (opened : Opened) (text : List Char) :
    Except TextError (Opened × List Char) := do
  let (key, rest) ← readKey text
  if key = Tagged.tagField then
    match opened.variant with
    | some _ => throw (.rejected (.duplicateField Tagged.tagField))
    | none =>
      let (variant, rest) ← readVariant (← readColon rest)
      return ({ opened with variant := some variant }, rest)
  else
    let (t, rest) ← readInner limit (← readColon rest)
    return (opened.takeOther key t, rest)

/-- Takes in an item of an outcome; the first one is the tag. -/
def openItem (limit : Nat) (opened : Option Variant × List Tree) (text : List Char) :
    Except TextError ((Option Variant × List Tree) × List Char) := do
  match opened with
  | (none, items) =>
    let (variant, rest) ← readVariant text
    return ((some variant, items), rest)
  | (some variant, items) =>
    let (t, rest) ← readInner limit text
    return ((some variant, t :: items), rest)

/-- The tag of an outcome in a text, the rest of the outcome, and the text after it. -/
def readTagged (limit : Nat) (text : List Char) :
    Except TextError ((Variant × Body) × List Char) :=
  match dropBlanks text with
  | '{' :: rest => do
    let (opened, rest) ← foldElements '}' (openMember limit) limit .empty rest
    return (← opened.close, rest)
  | '[' :: rest => do
    let ((variant, items), rest) ← foldElements ']' (openItem limit) limit (none, []) rest
    match variant with
    | some variant => return ((variant, .items items.reverse), rest)
    | none => throw (.rejected (.missingField Tagged.tagField))
  | rest => refuseScalar .outcome rest

/-- The outcome of a whole text. -/
def readOutcome (values : Codec α) (reasons : Codec β) (text : String) :
    Except TextError (Outcome α β) := do
  let (tagged, rest) ← readTagged text.toList.length text.toList
  let o ← decodePayload values reasons tagged
  ensureEnd rest
  return o

/-! ### Records -/

/-- The value of a field in a text. -/
def Field.read (field : Field α) (text : List Char) : Except TextError (α × List Char) :=
  readInPlace field.expected (field.codec.decode .direct) text

/-- The value of a member for a field, which must not have been met before. -/
def Field.readMember (field : Field α) (seen : Option α) (text : List Char) :
    Except TextError (Option α × List Char) :=
  match seen with
  | some _ => .error (.rejected (.duplicateField field.name))
  | none => do
    let (a, rest) ← field.read (← readColon text)
    return (some a, rest)

namespace Record

/-- Takes in a member of a record. -/
def readMember (record : Record ρ α β) (limit : Nat) (seen : Seen α β) (text : List Char) :
    Except TextError (Seen α β × List Char) := do
  let (key, rest) ← readKey text
  if key = record.first.name then
    let (a, rest) ← record.first.readMember seen.1 rest
    return ((a, seen.2), rest)
  else if key = record.second.name then
    let (b, rest) ← record.second.readMember seen.2 rest
    return ((seen.1, b), rest)
  else
    return (seen, ← skipTree limit limit (← readColon rest))

/-- An array that is closed before its element number `count` is too short. -/
def readPresent (record : Record ρ α β) (count : Nat) (another : Bool) : Except TextError Unit :=
  if another then .ok () else .error (.rejected (.invalidLength count (.record record.expected)))

/-- The record of an array after its opening bracket, and the text after it. -/
def readItems (record : Record ρ α β) (text : List Char) : Except TextError (ρ × List Char) := do
  record.readPresent 0 ((dropBlanks text).head? != some ']')
  let (a, rest) ← record.first.read text
  let (another, rest) ← readSeparator ']' rest
  record.readPresent 1 another
  let (b, rest) ← record.second.read rest
  let (another, rest) ← readSeparator ']' rest
  if another then throw (.malformed .badSyntax) else return (record.make a b, rest)

/-- The record at the start of a text, and the text after it. -/
def read (record : Record ρ α β) (limit : Nat) (text : List Char) :
    Except TextError (ρ × List Char) :=
  match dropBlanks text with
  | '{' :: rest => do
    let (seen, rest) ← foldElements '}' (record.readMember limit) limit (none, none) rest
    return (← record.finish seen, rest)
  | '[' :: rest => record.readItems rest
  | rest => refuseScalar record.expected rest

end Record

/-- The record of a whole text. -/
def readRecord (record : Record ρ α β) (text : String) : Except TextError ρ := do
  let (r, rest) ← record.read text.toList.length text.toList
  ensureEnd rest
  return r

end Intake.Wire
