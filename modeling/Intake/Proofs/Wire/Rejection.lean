import Intake.Proofs.Json.Identity
import Intake.Proofs.Json.Reordering
import Intake.Proofs.Wire.Narrowing
import Intake.Proofs.Wire.TextRoundTrip

/-!
# Rejections tell values apart

The sentence about a value that is no outcome ends with the value's text, and the words before it
are always the same.  So nothing of the value is lost in the sentence, as long as it has no doubles.
A bad payload is reported in other words, so that narrowing reports a rejected value in a sentence
that is given for no other value, be it an outcome or not.

* `message_notAnOutcome_eq_iff`: sentences of rejections and the texts in them.
* `message_notAnOutcome_of_reordered`: objects are shown in one order.
* `mapError_message_narrow_eq_iff`: what is reported as a rejection in a given sentence.
* `rejection_identifies`: rejected values are told apart by their sentences.
-/

namespace Intake.Wire
open Intake.Json

section
variable {v w : Value}

/-! ### The sentences -/

theorem message_notAnOutcome (v : Value) :
    (NarrowError.notAnOutcome v).message = "Value is not an outcome: " ++ v.text := rfl

theorem message_payload (complaint : Complaint) :
    (NarrowError.payload complaint).message =
      "Invalid outcome payload: " ++ complaint.message := rfl

theorem message_notAnOutcome_eq_iff :
    (NarrowError.notAnOutcome v).message = (NarrowError.notAnOutcome w).message ↔
      v.text = w.text := by
  rw [message_notAnOutcome, message_notAnOutcome, String.append_right_inj]

/-- The order in which members were put into objects, at any depth, is not seen in the sentence. -/
theorem message_notAnOutcome_of_reordered {t u : Tree} (h : t.Reordered u) (hd : t.DistinctKeys) :
    (NarrowError.notAnOutcome (.ofTree t)).message =
      (NarrowError.notAnOutcome (.ofTree u)).message := by
  have hvalue : Value.ofTree t = .ofTree u := Value.ext (h.normalize_eq hd).2
  rw [hvalue]

/-- A rejection and a bad payload are told apart by their first letters. -/
theorem message_payload_ne (complaint : Complaint) :
    (NarrowError.payload complaint).message ≠ (NarrowError.notAnOutcome v).message := by
  intro h
  have hletter := congrArg (fun s => s.toList.head?) h
  simp [message_payload, message_notAnOutcome] at hletter

/-! ### Narrowing -/

section
variable {α β : Type} {values : Codec α} {reasons : Codec β}

/-- **The report of a rejection** is given for values that are no outcomes and have one text. -/
theorem mapError_message_narrow_eq_iff :
    (narrow values reasons w).mapError NarrowError.message =
        .error (NarrowError.notAnOutcome v).message ↔
      isOutcome w = false ∧ w.text = v.text := by
  cases hw : isOutcome w with
  | false =>
      rw [narrow_of_not_isOutcome hw, error_mapError, Except.error.injEq,
        message_notAnOutcome_eq_iff]
      exact (and_iff_right rfl).symm
  | true =>
      refine iff_of_false (fun h => ?_) fun h => Bool.noConfusion h.1
      rw [narrow, if_pos hw] at h
      obtain ⟨e, he, hmessage⟩ := mapError_eq_error.mp h
      obtain ⟨complaint, -, rfl⟩ := mapError_eq_error.mp he
      exact message_payload_ne complaint hmessage

end

/-- **Rejections identify values.**  Two values without doubles, however deep, are rejected in the
same sentence exactly if they are one value, which is what equality of such values means.  And
whatever payloads are asked for, a value that is no outcome is reported in a sentence in which no
other value is. -/
theorem rejection_identifies (hv : v.tree.DoubleFree) (hw : w.tree.DoubleFree) :
    ((NarrowError.notAnOutcome v).message = (NarrowError.notAnOutcome w).message ↔ v = w) ∧
      (v.agrees w = true ↔ v = w) ∧
      ∀ {α β : Type} (values : Codec α) (reasons : Codec β), isOutcome v = false →
        ((narrow values reasons v).mapError NarrowError.message =
            (narrow values reasons w).mapError NarrowError.message ↔ v = w) := by
  refine ⟨?_, Value.agrees_iff hv, fun values reasons hrejected => ?_⟩
  · rw [message_notAnOutcome_eq_iff, Value.text_inj hv hw]
  · rw [narrow_of_not_isOutcome hrejected, error_mapError, eq_comm, mapError_message_narrow_eq_iff,
      Value.text_inj hw hv]
    exact ⟨fun h => h.2.symm, fun h => ⟨h ▸ hrejected, h.symm⟩⟩

end

/-- Two strings. -/
def twoStrings : Value := .ofTree (.array [.string "a", .string "b"])

/-- One string that holds what stands between the two. -/
def oneString : Value := .ofTree (.array [.string "a\",\"b"])

/-- The marks inside the string are escaped.  And values are told apart that are nested too deep for
their texts to be read. -/
theorem rejection_identifies_oneString :
    (NarrowError.notAnOutcome twoStrings).message = "Value is not an outcome: [\"a\",\"b\"]" ∧
      (NarrowError.notAnOutcome oneString).message =
        "Value is not an outcome: [\"a\\\",\\\"b\"]" ∧
      (narrow Codec.value Codec.string twoStrings).mapError NarrowError.message ≠
        (narrow Codec.value Codec.string oneString).mapError NarrowError.message ∧
      (NarrowError.notAnOutcome (nested 128)).message ≠
        (NarrowError.notAnOutcome (nested 129)).message := by
  have hstrings : twoStrings ≠ oneString := fun h => by
    have hitems := Tree.array.inj (congrArg Value.tree h)
    exact absurd (congrArg List.length hitems) (by decide)
  have hnested : nested 128 ≠ nested 129 := fun h => by
    have hdepth := congrArg (fun v => v.tree.depth) h
    simp only [depth_nested] at hdepth
    omega
  have hshallow := rejection_identifies (v := twoStrings) (w := oneString)
    ⟨trivial, trivial, trivial⟩ ⟨trivial, trivial⟩
  have hdeep := rejection_identifies (doubleFree_nested 128) (doubleFree_nested 129)
  refine ⟨rfl, rfl, fun h => ?_, fun h => hnested (hdeep.1.mp h)⟩
  exact hstrings ((hshallow.2.2 _ _ rfl).mp h)

end Intake.Wire
