import Intake.Proofs.Wire.Acceptance
import Intake.Wire.Shape

/-!
# Outcomes inside outcomes

The value of an outcome may be an outcome again.  Narrowing gets it in one step, which decodes the
inner outcome as a payload that was set aside and asks no guard about it; or in two, which keep the
payload untyped and narrow it in its turn, so that the guards are asked twice.

What two steps accept one step accepts.  The converse holds for all inner values but those that get
past the guards when set aside: arrays, and objects that name their variant by a number.

* `narrowTwice`: narrowing in two steps.
* `decode_setAside_of_narrow`, `narrow_of_decode_setAside`: an inner outcome, set aside and narrowed.
* `narrow_of_narrowTwice`, `narrowTwice_of_narrow`: the outer outcome.
* `narrow_nested`: one step and two, for reasons of every shape.
-/

namespace Intake.Wire
open Intake.Json

section
variable {α β γ : Type}

/-- Narrows an outcome and keeps its value untyped, and then narrows the value. -/
def narrowTwice (values : Codec α) (inner : Codec β) (reasons : Codec γ) (v : Value) :
    Except NarrowError (Outcome (Outcome α β) γ) := do
  match ← narrow Codec.value reasons v with
  | .ok w => Outcome.ok <$> narrow values inner w
  | .failure reason => return .failure reason

/-! ### The inner outcome -/

/-- An array, or an object with an integer in the place of its tag.  No guard lets it pass, and yet
an outcome may be decoded from it once it has been set aside. -/
def SlipsThrough (w : Value) : Prop :=
  (∃ items, w.tree = .array items) ∨
    ∃ (n : Number) (i : Int), w.member? "tag" = some (.number n) ∧ n.toInt? = some i

/-- Unless it is an integer, a tag that was set aside must be the string of its variant. -/
theorem decodeVariant_setAside_eq_ok {t : Tree} {variant : Variant}
    (h : ∀ n i, t = .number n → n.toInt? ≠ some i) :
    decodeVariant .setAside t = .ok variant ↔ t = .string variant.tag := by
  cases t with
  | string s =>
      change decodeVariant .direct (.string s) = .ok variant ↔ _
      exact decodeVariant_direct_eq_ok
  | number n =>
      cases n with
      | natural n => exact absurd rfl (h (.natural n) n.toNat rfl)
      | negative k => exact absurd rfl (h (.negative k) (.negSucc k) rfl)
      | double d => exact ⟨nofun, nofun⟩
  | null | boolean _ | array _ | object _ => exact ⟨nofun, nofun⟩

section
variable {values : Codec α} {inner : Codec β} {w : Value} {o : Outcome α β}

/-- What is narrowed to an outcome is decoded as this outcome when it has been set aside. -/
theorem decode_setAside_of_narrow (h : narrow values inner w = .ok o) :
    (Codec.outcome values inner).decode .setAside w.tree = .ok o := by
  obtain ⟨htag, hp⟩ := narrow_eq_ok.mp h
  obtain ⟨members, hw, hu⟩ := Value.member?_eq_some_iff.mp htag
  rw [Value.toList_member? hw] at hp
  rw [hw]
  exact outcome_decode_eq_ok.mpr (.object hu (decodeVariant_tag .setAside o.variant) hp)

/-- The converse holds for what does not slip through. -/
theorem narrow_of_decode_setAside (hs : ¬ SlipsThrough w)
    (h : (Codec.outcome values inner).decode .setAside w.tree = .ok o) :
    narrow values inner w = .ok o := by
  generalize hw : w.tree = t at h
  cases outcome_decode_eq_ok.mp h with
  | array => exact absurd (Or.inl ⟨_, hw⟩) hs
  | @object members t variant o hu hv hp =>
      obtain rfl := hp.variant_eq
      have htag := Value.member?_eq_some_iff.mpr ⟨members, hw, hu⟩
      -- no integer stands in the place of the tag
      have hinteger : ∀ n i, t = .number n → n.toInt? ≠ some i := by
        rintro n i rfl hi
        exact hs (Or.inr ⟨n, i, htag, hi⟩)
      obtain rfl := (decodeVariant_setAside_eq_ok hinteger).mp hv
      exact narrow_eq_ok.mpr ⟨htag, Value.toList_member? hw _ ▸ hp⟩

end

/-! ### The outer outcome -/

section
variable {values : Codec α} {inner : Codec β} {reasons : Codec γ} {v : Value}

/-- One step decodes the inner outcome from a payload that was set aside. -/
theorem narrow_outcome_eq_ok_ok {o : Outcome α β} :
    narrow (Codec.outcome values inner) reasons v = .ok (.ok o) ↔
      v.member? Variant.tagField = some (.string Variant.ok.tag) ∧
        ∃ w : Value, v.member? Variant.ok.payloadField = some w.tree ∧
          (Codec.outcome values inner).decode .setAside w.tree = .ok o := by
  rw [narrow_eq_ok_ok, isPayload_toList_iff_of_absent rfl]
  refine and_congr_right fun _ => ⟨?_, fun ⟨w, hw, hd⟩ => ⟨w.tree, hw, hd⟩⟩
  rintro ⟨t, ht, hd⟩
  obtain ⟨w, rfl⟩ := Value.exists_value_of_member? ht
  exact ⟨w, ht, hd⟩

/-- Two steps narrow it. -/
theorem narrowTwice_eq_ok_ok {o : Outcome α β} :
    narrowTwice values inner reasons v = .ok (.ok o) ↔
      v.member? Variant.tagField = some (.string Variant.ok.tag) ∧
        ∃ w : Value, v.member? Variant.ok.payloadField = some w.tree ∧
          narrow values inner w = .ok o := by
  rw [narrowTwice, bind_eq_ok]
  constructor
  · rintro ⟨w | reason, hv, h⟩
    · obtain ⟨htag, hp⟩ := narrow_eq_ok_ok.mp hv
      obtain ⟨o, ho, heq⟩ := map_eq_ok.mp h
      cases heq
      exact ⟨htag, w, isPayload_value_iff.mp hp, ho⟩
    · cases h
  · rintro ⟨htag, w, hw, h⟩
    exact ⟨.ok w, narrow_eq_ok_ok.mpr ⟨htag, isPayload_value_iff.mpr hw⟩, map_eq_ok.mpr ⟨o, h, rfl⟩⟩

/-- A failure is the same in one step and in two. -/
theorem narrowTwice_eq_ok_failure {reason : γ} :
    narrowTwice values inner reasons v = .ok (.failure reason) ↔
      narrow (Codec.outcome values inner) reasons v = .ok (.failure reason) := by
  have hvalue : narrow Codec.value reasons v = .ok (.failure reason) ↔
      narrow (Codec.outcome values inner) reasons v = .ok (.failure reason) :=
    narrow_eq_ok_failure.trans narrow_eq_ok_failure.symm
  rw [← hvalue, narrowTwice, bind_eq_ok]
  constructor
  · rintro ⟨w | reason, hv, h⟩
    · obtain ⟨o, -, heq⟩ := map_eq_ok.mp h
      cases heq
    · cases h
      exact hv
  · intro h
    exact ⟨_, h, rfl⟩

/-- What two steps accept, one step accepts. -/
theorem narrow_of_narrowTwice {o : Outcome (Outcome α β) γ}
    (h : narrowTwice values inner reasons v = .ok o) :
    narrow (Codec.outcome values inner) reasons v = .ok o := by
  cases o with
  | ok o =>
      obtain ⟨htag, w, hw, hinner⟩ := narrowTwice_eq_ok_ok.mp h
      exact narrow_outcome_eq_ok_ok.mpr ⟨htag, w, hw, decode_setAside_of_narrow hinner⟩
  | failure reason => exact narrowTwice_eq_ok_failure.mp h

theorem narrowTwice_of_narrow {o : Outcome (Outcome α β) γ}
    (hs : ¬ (isOk v = true ∧ ∃ w : Value, v.member? "value" = some w.tree ∧ SlipsThrough w))
    (h : narrow (Codec.outcome values inner) reasons v = .ok o) :
    narrowTwice values inner reasons v = .ok o := by
  cases o with
  | ok o =>
      obtain ⟨htag, w, hw, hinner⟩ := narrow_outcome_eq_ok_ok.mp h
      have hw' : ¬ SlipsThrough w := fun hslips => hs ⟨hasTag_iff.mpr htag, w, hw, hslips⟩
      exact narrowTwice_eq_ok_ok.mpr ⟨htag, w, hw, narrow_of_decode_setAside hw' hinner⟩
  | failure reason => exact narrowTwice_eq_ok_failure.mpr h

end

end

/-- **One step and two.**  With reasons of every shape: what narrowing accepts in two steps it
accepts in one, as the same outcome.  The converse holds unless the value is tagged as a success and
holds, in the place of the inner outcome, an array or an object with an integer for its tag. -/
theorem narrow_nested (E : Shape) (v : Value)
    (o : Outcome (Outcome UInt32 String) E.Carrier) :
    (narrowTwice Codec.u32 Codec.string E.codec v = .ok o →
      narrow Shape.outcome.codec E.codec v = .ok o) ∧
    (¬ (isOk v = true ∧ ∃ w : Value, v.member? "value" = some w.tree ∧ SlipsThrough w) →
      (narrow Shape.outcome.codec E.codec v = .ok o ↔
        narrowTwice Codec.u32 Codec.string E.codec v = .ok o)) :=
  ⟨narrow_of_narrowTwice, fun hs => ⟨narrowTwice_of_narrow hs, narrow_of_narrowTwice⟩⟩

/-- A failure among other members, in the place of a success value. -/
def failureInside : Value :=
  .ofTree (.object [("reason", .string "late"), ("tag", .string "failure"), ("value", .null)])

/-- A success that names its variant by a number. -/
def numberedInside : Value :=
  .ofTree (.object [("tag", .number (.natural 0)), ("value", .number (.natural 5))])

/-- A successful outcome of a value. -/
def enclosing (w : Value) : Value := .ofTree (.object [("tag", .string "ok"), ("value", w.tree)])

/-- A failure inside a success is found in one step and in two, and a number in the place of the
inner tag in one step only. -/
theorem narrow_nested_failureInside :
    (narrow Shape.outcome.codec Shape.u8.codec (enclosing failureInside) =
        .ok (.ok (.failure "late")) ∧
      narrowTwice Codec.u32 Codec.string Shape.u8.codec (enclosing failureInside) =
        .ok (.ok (.failure "late"))) ∧
      narrow Shape.outcome.codec Shape.u8.codec (enclosing numberedInside) = .ok (.ok (.ok 5)) ∧
      narrowTwice Codec.u32 Codec.string Shape.u8.codec (enclosing numberedInside) =
        .error (.notAnOutcome numberedInside) := by
  have hs : ¬ (isOk (enclosing failureInside) = true ∧ ∃ w : Value,
      (enclosing failureInside).member? "value" = some w.tree ∧ SlipsThrough w) := by
    rintro ⟨-, w, hw, hslips⟩
    obtain rfl : failureInside = w := Value.ext (Option.some.inj hw)
    rcases hslips with ⟨items, h⟩ | ⟨n, i, h, -⟩
    · cases h
    · cases h
  have honce : narrow Shape.outcome.codec Shape.u8.codec (enclosing failureInside) =
      .ok (.ok (.failure "late")) := rfl
  have hspec := narrow_nested .u8 (enclosing failureInside) (.ok (.failure "late"))
  exact ⟨⟨honce, (hspec.2 hs).mp honce⟩, rfl, rfl⟩

end Intake.Wire
