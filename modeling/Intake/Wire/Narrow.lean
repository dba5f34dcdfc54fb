import Intake.Wire.Tagged

/-!
# Guards and narrowing

The guards tell from an untyped value's tag alone whether it has the shape of an outcome; narrowing
looks at the guards first and then decodes.

* `isOk`, `isFailure`, `isOutcome`: the guards.
* `narrow`: the outcome of an untyped value, or why there is none.
* `NarrowError.message`: the sentence that reports a failure.
-/

namespace Intake.Wire
open Intake.Json

/-- Whether a value is an object with the given tag. -/
def hasTag (v : Value) (tag : String) : Bool :=
  match v.member? Variant.tagField with
  | some (.string s) => s == tag
  | _ => false

/-- Whether a value has the shape of a successful outcome. -/
def isOk (v : Value) : Bool := hasTag v Variant.ok.tag

/-- Whether a value has the shape of a failed outcome. -/
def isFailure (v : Value) : Bool := hasTag v Variant.failure.tag

/-- Whether a value has the shape of any outcome. -/
def isOutcome (v : Value) : Bool := isOk v || isFailure v

/-- Why a value cannot be narrowed to an outcome. -/
inductive NarrowError where
  /-- The value is no object with the tag of an outcome. -/
  | notAnOutcome (candidate : Value)
  /-- The tag is right, and the payload is not. -/
  | payload (complaint : Complaint)

/-- The sentence that reports a failure. -/
def NarrowError.message : NarrowError → String
  | notAnOutcome candidate => "Value is not an outcome: " ++ candidate.text
  | payload complaint => "Invalid outcome payload: " ++ complaint.message

/-- The complaint behind a failure, if there is one. -/
def NarrowError.cause? : NarrowError → Option Complaint
  | notAnOutcome _ => none
  | payload complaint => some complaint

/-- The outcome of an untyped value. -/
def narrow {α β : Type} (values : Codec α) (reasons : Codec β) (v : Value) :
    Except NarrowError (Outcome α β) :=
  if isOutcome v then ((Codec.outcome values reasons).ofValue v).mapError .payload
  else .error (.notAnOutcome v)

end Intake.Wire
