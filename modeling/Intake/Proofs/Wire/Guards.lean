import Intake.Proofs.Json.Members
import Intake.Proofs.Wire.Codec
import Intake.Wire.Narrow

/-!
# Guards and untyped forms

The guards look at one member of a value, its tag.  They are related here to what the value's
object holds (`hasTag_iff`), and to the untyped form of an outcome, whose tag is that of its
variant.

* `isOutcome_iff`: the values that pass a guard hold the tag of a variant.
* `guards_of_tag`: a tag passes the guards of its variant and no others.
* `guards_and_narrow_untyped`: the untyped form of an outcome passes the guards of its variant, and
  is narrowed to the outcome.
-/

namespace Intake.Wire
open Intake.Json

/-! ### The guards -/

theorem hasTag_of_member? {v : Value} {s : String}
    (h : v.member? Variant.tagField = some (.string s)) (tag : String) :
    hasTag v tag = (s == tag) := by
  rw [hasTag, h]

/-- A value has a tag if it holds that string under the key of the tag. -/
theorem hasTag_iff {v : Value} {tag : String} :
    hasTag v tag = true ↔ v.member? Variant.tagField = some (.string tag) := by
  constructor
  · intro h
    rw [hasTag] at h
    split at h
    next s hs => rw [hs, eq_of_beq h]
    next => cases h
  · intro h
    rw [hasTag_of_member? h, beq_self_eq_true]

theorem isOutcome_iff {v : Value} :
    isOutcome v = true ↔
      ∃ variant : Variant, v.member? Variant.tagField = some (.string variant.tag) := by
  rw [isOutcome, Bool.or_eq_true, isOk, isFailure, hasTag_iff, hasTag_iff]
  constructor
  · rintro (h | h)
    · exact ⟨.ok, h⟩
    · exact ⟨.failure, h⟩
  · rintro ⟨variant, h⟩
    cases variant with
    | ok => exact Or.inl h
    | failure => exact Or.inr h

/-- The tag of a variant is that of no other variant. -/
theorem hasTag_of_tag {v : Value} {variant : Variant}
    (h : v.member? Variant.tagField = some (.string variant.tag)) (other : Variant) :
    hasTag v other.tag = (variant == other) := by
  rw [hasTag_of_member? h]
  cases variant <;> cases other <;> rfl

/-- The tag of a variant passes the guards of this variant. -/
theorem guards_of_tag {α β : Type} {v : Value} {o : Outcome α β}
    (h : v.member? Variant.tagField = some (.string o.tag)) :
    isOutcome v = true ∧ isOk v = o.isOk ∧ isFailure v = o.isFailure :=
  ⟨isOutcome_iff.mpr ⟨o.variant, h⟩, hasTag_of_tag h .ok, hasTag_of_tag h .failure⟩

/-! ### Untyped forms of outcomes -/

section
variable {α β : Type} {values : Codec α} {reasons : Codec β}

/-- The untyped form of an outcome holds the tag of its variant. -/
theorem member?_tag_untyped (o : Outcome α β) :
    ((Codec.outcome values reasons).untyped o).member? Variant.tagField =
      some (.string o.variant.tag) := by
  cases o with
  | ok a => exact Value.member?_ofTree (t := .string _) rfl
  | failure b => exact Value.member?_ofTree (t := .string _) rfl

theorem Codec.Lawful.ofValue_untyped {codec : Codec α} (h : codec.Lawful) (a : α) :
    codec.ofValue (codec.untyped a) = .ok a :=
  h.decode_normalize (h.decode_encode .direct a)

theorem narrow_of_ofValue {v : Value} {o : Outcome α β} (hg : isOutcome v = true)
    (h : (Codec.outcome values reasons).ofValue v = .ok o) : narrow values reasons v = .ok o := by
  rw [narrow, if_pos hg, h]
  rfl

end

/-- **The round trip through the untyped form.**  For payloads of every shape, the untyped form of
an outcome passes exactly the guards of its variant, and is narrowed to the outcome. -/
theorem guards_and_narrow_untyped (S E : Shape) (o : Outcome S.Carrier E.Carrier) :
    isOk ((Codec.outcome S.codec E.codec).untyped o) = o.isOk ∧
      isFailure ((Codec.outcome S.codec E.codec).untyped o) = o.isFailure ∧
      isOutcome ((Codec.outcome S.codec E.codec).untyped o) = true ∧
      narrow S.codec E.codec ((Codec.outcome S.codec E.codec).untyped o) = .ok o := by
  obtain ⟨hg, hok, hfailure⟩ := guards_of_tag (o := o) (member?_tag_untyped o)
  refine ⟨hok, hfailure, hg, ?_⟩
  exact narrow_of_ofValue hg ((S.codec_lawful.outcome E.codec_lawful).ofValue_untyped o)

end Intake.Wire
