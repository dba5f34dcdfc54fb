/-!
# Outcomes

An outcome is the value of an operation that may fail: a success value or a failure reason.

* `Outcome.map`, `Outcome.mapFailure`, `Outcome.andThen`: pipelines of steps.
* `Outcome.mapM`, `Outcome.mapFailureM`, `Outcome.andThenM`: the same with steps that have effects;
  a step's effects are those of its one run, or none.
* `Outcome.toExcept`, `Outcome.ofExcept`: outcomes are the results of `Except`.
* `Variant`: which of the two an outcome is, with the names that it is written with and guarded by.
-/

namespace Intake

/-- The value of an operation that may fail. -/
inductive Outcome (α β : Type) where
  /-- The operation succeeded with a value. -/
  | ok (value : α)
  /-- The operation failed with a reason. -/
  | failure (reason : β)
deriving DecidableEq

/-- Which of the two an outcome is. -/
inductive Variant where
  | ok
  | failure
deriving DecidableEq

namespace Variant

/-- The field that tells the variant on the wire. -/
def tagField : String := "tag"

/-- The tag of a variant. -/
def tag : Variant → String
  | ok => "ok"
  | failure => "failure"

/-- The field that holds a variant's payload on the wire. -/
def payloadField : Variant → String
  | ok => "value"
  | failure => "reason"

end Variant

namespace Outcome
variable {α β γ : Type}

/-! ### Parts -/

/-- The variant of an outcome. -/
def variant : Outcome α β → Variant
  | ok _ => .ok
  | failure _ => .failure

/-- The tag of an outcome. -/
def tag (o : Outcome α β) : String := o.variant.tag

/-- Whether the operation succeeded. -/
def isOk (o : Outcome α β) : Bool := o.variant == .ok

/-- Whether the operation failed. -/
def isFailure (o : Outcome α β) : Bool := o.variant == .failure

/-- The success value, if there is one. -/
def value? : Outcome α β → Option α
  | ok value => some value
  | failure _ => none

/-- The failure reason, if there is one. -/
def reason? : Outcome α β → Option β
  | ok _ => none
  | failure reason => some reason

/-! ### Pipelines -/

/-- Transforms the success value. -/
def map (f : α → γ) : Outcome α β → Outcome γ β
  | ok value => ok (f value)
  | failure reason => failure reason

/-- Transforms the failure reason. -/
def mapFailure (f : β → γ) : Outcome α β → Outcome α γ
  | ok value => ok value
  | failure reason => failure (f reason)

/-- Goes on with another operation after a success. -/
def andThen (f : α → Outcome γ β) : Outcome α β → Outcome γ β
  | ok value => f value
  | failure reason => failure reason

section
variable {m : Type → Type} [Monad m]

/-- Transforms the success value by a step with effects. -/
def mapM (f : α → m γ) : Outcome α β → m (Outcome γ β)
  | ok value => ok <$> f value
  | failure reason => pure (failure reason)

/-- Transforms the failure reason by a step with effects. -/
def mapFailureM (f : β → m γ) : Outcome α β → m (Outcome α γ)
  | ok value => pure (ok value)
  | failure reason => failure <$> f reason

/-- Goes on with another operation with effects after a success. -/
def andThenM (f : α → m (Outcome γ β)) : Outcome α β → m (Outcome γ β)
  | ok value => f value
  | failure reason => pure (failure reason)

end

/-! ### Results -/

/-- The outcome as a result. -/
def toExcept : Outcome α β → Except β α
  | ok value => .ok value
  | failure reason => .error reason

/-- The outcome of a result. -/
def ofExcept : Except β α → Outcome α β
  | .ok value => ok value
  | .error reason => failure reason

@[simp] theorem ofExcept_toExcept (o : Outcome α β) : ofExcept o.toExcept = o := by
  cases o <;> rfl

@[simp] theorem toExcept_ofExcept (r : Except β α) : (ofExcept r).toExcept = r := by
  cases r <;> rfl

/-- Equality of outcomes, given equality of values and of reasons. -/
def agrees (values : α → α → Bool) (reasons : β → β → Bool) : Outcome α β → Outcome α β → Bool
  | ok v, ok w => values v w
  | failure r, failure s => reasons r s
  | _, _ => false

end Outcome
end Intake
