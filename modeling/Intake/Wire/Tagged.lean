import Intake.Wire.Codec

/-!
# Tagged outcomes

An outcome is an object with a tag and the payload of its variant, in any order and among other
members, or an array of the two.  It is decoded in two stages: the tag is split off and tells the
variant, and the payload is decoded from what remains, which was set aside.

* `splitTag`: the tag of a tree, and the rest.
* `decodePayload`: the outcome of a variant and the rest.
* `Codec.outcome`: the wire form of outcomes.
-/

namespace Intake.Wire
open Intake.Json

/-! ### The tag -/

/-- The variant with a number. -/
def variantOfNumber (n : Number) : Except Complaint Variant :=
  match n with
  | .natural 0 => .ok .ok
  | .natural 1 => .ok .failure
  | .natural _ => .error (.invalidValue n .variantNumber)
  | _ => Codec.refuse (.number n) .tag

/-- The variant with a tag. -/
def variantOfTag (tag : String) : Except Complaint Variant :=
  match Tagged.ofTag? tag with
  | some variant => .ok variant
  | none => .error (.unknownVariant tag)

/-- The variant that a tree names.  A tree that was set aside may name it by its number. -/
def decodeVariant : Setting → Tree → Except Complaint Variant
  | _, .string tag => variantOfTag tag
  | .setAside, .number n => variantOfNumber n
  | _, t => Codec.refuse t .tag

/-- What remains of an outcome when the tag has been split off. -/
inductive Body where
  /-- The other members of an object, in order. -/
  | members (members : List (String × Tree))
  /-- The items of an array after the first. -/
  | items (items : List Tree)

/-- What has been met of an object's members: the variant, and the others from last to first. -/
structure Opened where
  variant : Option Variant
  others : List (String × Tree)

namespace Opened

/-- Nothing has been met. -/
def empty : Opened := ⟨none, []⟩

/-- Takes in a tag, unless there was one before. -/
def takeTag (opened : Opened) (tag : Except Complaint Variant) : Except Complaint Opened :=
  match opened.variant with
  | some _ => .error (.duplicateField Tagged.tagField)
  | none => do return { opened with variant := some (← tag) }

/-- Takes in a member other than the tag. -/
def takeOther (opened : Opened) (key : String) (t : Tree) : Opened :=
  { opened with others := (key, t) :: opened.others }

/-- Takes in a member. -/
def take (setting : Setting) (opened : Opened) : String × Tree → Except Complaint Opened
  | (key, t) =>
    if key = Tagged.tagField then opened.takeTag (decodeVariant setting t)
    else .ok (opened.takeOther key t)

/-- The variant and the body of an object whose members have all been met. -/
def close (opened : Opened) : Except Complaint (Variant × Body) :=
  match opened.variant with
  | some variant => .ok (variant, .members opened.others.reverse)
  | none => .error (.missingField Tagged.tagField)

end Opened

/-- The tag of a tree, and the rest. -/
def splitTag (setting : Setting) : Tree → Except Complaint (Variant × Body)
  | .object members => do (← members.foldlM (Opened.take setting) .empty).close
  | .array [] => .error (.missingField Tagged.tagField)
  | .array (t :: items) => do return (← decodeVariant setting t, .items items)
  | t => Codec.refuse t .outcome

/-! ### The payload -/

variable {α β : Type}

/-- Takes in a member of an outcome whose payload field is known.  A second payload is refused;
other members are ignored. -/
def takePayload (codec : Codec α) (field : String) (payload : Option α) :
    String × Tree → Except Complaint (Option α)
  | (key, t) =>
    if key = field then
      match payload with
      | some _ => .error (.duplicateField field)
      | none => some <$> codec.decode .setAside t
    else .ok payload

/-- The payload of a variant.  An array holds it alone; its length is looked at when the payload has
been decoded. -/
def payloadOf (codec : Codec α) (variant : Variant) : Body → Except Complaint α
  | .members members => do
    match ← members.foldlM (takePayload codec (Tagged.payloadField variant)) none with
    | some a => .ok a
    | none =>
      match codec.absent with
      | some a => .ok a
      | none => .error (.missingField (Tagged.payloadField variant))
  | .items [] => .error (.invalidLength 0 (.payload variant))
  | .items (t :: more) => do
    let a ← codec.decode .setAside t
    if more.isEmpty then .ok a else .error (.invalidLength (more.length + 1) (.exactly 1))

/-- The outcome of a variant and the rest. -/
def decodePayload (values : Codec α) (reasons : Codec β) :
    Variant × Body → Except Complaint (Outcome α β)
  | (.ok, body) => .ok <$> payloadOf values .ok body
  | (.failure, body) => .failure <$> payloadOf reasons .failure body

/-! ### The codec -/

/-- The object of an outcome: its tag, then its payload. -/
def encodeOutcome (values : Codec α) (reasons : Codec β) (o : Outcome α β) : Tree :=
  .object [(Variant.tagField, .string o.tag),
    (o.variant.payloadField,
      match o with
      | .ok value => values.encode value
      | .failure reason => reasons.encode reason)]

/-- The wire form of outcomes. -/
def Codec.outcome (values : Codec α) (reasons : Codec β) : Codec (Outcome α β) where
  encode := encodeOutcome values reasons
  decode setting t := do decodePayload values reasons (← splitTag setting t)

end Intake.Wire
