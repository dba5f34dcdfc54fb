import Intake.Proofs.Wire.Acceptance

/-!
# Narrowed values, encoded again

If values and reasons stay untyped, narrowing takes from an object its tag and the payload of its
variant, as they stand there, and forgets the other members.  The untyped form of the outcome is what
it took.  So an object comes back if there was nothing to forget, and the untyped forms of outcomes
are the objects of a tag and the payload that belongs to it.

* `isObjectOf_untyped`: the members of an outcome's untyped form.
* `narrow_value_eq_ok`: what is narrowed to an outcome with an untyped payload.
* `untyped_narrow`: the untyped form of a narrowed value, and which values come back.
-/

namespace Intake

/-- The payload of an outcome whose values and reasons are of one type. -/
def Outcome.payload {α : Type} : Outcome α α → α
  | ok value => value
  | failure reason => reason

end Intake

namespace Intake.Wire
open Intake.Json

/-- The two members of an outcome with an untyped payload. -/
def taggedMembers (o : Outcome Value Value) : List (String × Tree) :=
  [(Variant.tagField, .string o.tag), (o.variant.payloadField, o.payload.tree)]

theorem encode_eq_taggedMembers (o : Outcome Value Value) :
    (Codec.outcome Codec.value Codec.value).encode o = .object (taggedMembers o) := by
  cases o with
  | ok value => rfl
  | failure reason => rfl

/-- The untyped form of an outcome has its tag and its payload and nothing else. -/
theorem isObjectOf_untyped (o : Outcome Value Value) :
    ((Codec.outcome Codec.value Codec.value).untyped o).IsObjectOf (taggedMembers o) := by
  rw [Codec.untyped, encode_eq_taggedMembers]
  refine Value.isObjectOf_ofTree ?_ ⟨trivial, o.payload.canonical, trivial⟩
  simpa [taggedMembers] using (payloadField_ne_tagField o.variant).symm

section
variable {v : Value} {o : Outcome Value Value}

/-- A value is narrowed to the outcome whose tag and payload it holds. -/
theorem narrow_value_eq_ok :
    narrow Codec.value Codec.value v = .ok o ↔
      v.member? Variant.tagField = some (.string o.tag) ∧
        v.member? o.variant.payloadField = some o.payload.tree := by
  cases o with
  | ok value => rw [narrow_eq_ok_ok, isPayload_value_iff]; rfl
  | failure reason => rw [narrow_eq_ok_failure, isPayload_value_iff]; rfl

/-- The untyped form of what a value is narrowed to is the value without its other members. -/
theorem untyped_eq_restrict (h : narrow Codec.value Codec.value v = .ok o) :
    (Codec.outcome Codec.value Codec.value).untyped o =
      v.restrict [Variant.tagField, o.variant.payloadField] := by
  obtain ⟨htag, hp⟩ := narrow_value_eq_ok.mp h
  have hne := (payloadField_ne_tagField o.variant).symm
  exact (isObjectOf_untyped o).unique (Value.isObjectOf_restrict hne htag hp)

/-- A value comes back if it has no other members. -/
theorem untyped_eq_self_iff (h : narrow Codec.value Codec.value v = .ok o) :
    (Codec.outcome Codec.value Codec.value).untyped o = v ↔
      v.keys.Perm [Variant.tagField, o.variant.payloadField] := by
  constructor
  · intro heq
    exact heq ▸ (isObjectOf_untyped o).keys_perm
  · intro hkeys
    obtain ⟨members, hv, -⟩ := Value.member?_eq_some_iff.mp (narrow_value_eq_ok.mp h).1
    rw [untyped_eq_restrict h]
    exact (Value.restrict_eq_self_iff hv).mpr fun key hkey => hkeys.mem_iff.mp hkey

end

/-- **Narrowing and encoding again.**  With untyped payloads: the untyped form of what a value is
narrowed to is the value with no other members than its tag and the payload of its variant.  The
value comes back exactly if it has these two members and no others.  And a value is the untyped form
of some outcome exactly if it is an object of a tag and the payload of that variant. -/
theorem untyped_narrow (v : Value) :
    (∀ o : Outcome Value Value, narrow Codec.value Codec.value v = .ok o →
      (Codec.outcome Codec.value Codec.value).untyped o =
          v.restrict ["tag", o.variant.payloadField] ∧
        ((Codec.outcome Codec.value Codec.value).untyped o = v ↔
          v.keys.Perm ["tag", o.variant.payloadField])) ∧
      ((∃ o : Outcome Value Value, (Codec.outcome Codec.value Codec.value).untyped o = v) ↔
        ∃ w : Value, v.IsObjectOf [("tag", .string "ok"), ("value", w.tree)] ∨
          v.IsObjectOf [("tag", .string "failure"), ("reason", w.tree)]) := by
  refine ⟨fun o h => ⟨untyped_eq_restrict h, untyped_eq_self_iff h⟩, ?_, ?_⟩
  · rintro ⟨o, rfl⟩
    cases o with
    | ok w => exact ⟨w, Or.inl (isObjectOf_untyped (.ok w))⟩
    | failure w => exact ⟨w, Or.inr (isObjectOf_untyped (.failure w))⟩
  · rintro ⟨w, h | h⟩
    · exact ⟨.ok w, (isObjectOf_untyped (.ok w)).unique h⟩
    · exact ⟨.failure w, (isObjectOf_untyped (.failure w)).unique h⟩

/-- A reason that looks like an outcome. -/
def lookalike : Value :=
  .ofTree (.object [("tag", .string "ok"), ("value", .number (.natural 5)), ("x", .null)])

/-- A failure for this reason. -/
def unencumbered : Value :=
  .ofTree (.object [("tag", .string "failure"), ("reason", lookalike.tree)])

/-- The same among other members, one of them a payload of the other variant. -/
def encumbered : Value :=
  .ofTree (.object [("tag", .string "failure"), ("value", .array [.null]), ("note", .boolean true),
    ("reason", lookalike.tree)])

/-- The other members are lost, at the top and not in the payload. -/
theorem untyped_narrow_encumbered :
    narrow Codec.value Codec.value encumbered = .ok (.failure lookalike) ∧
      (Codec.outcome Codec.value Codec.value).untyped (.failure lookalike) =
        encumbered.restrict ["tag", "reason"] ∧
      (Codec.outcome Codec.value Codec.value).untyped (.failure lookalike) ≠ encumbered ∧
      (Codec.outcome Codec.value Codec.value).untyped (.failure lookalike) = unencumbered ∧
      ∃ o : Outcome Value Value, (Codec.outcome Codec.value Codec.value).untyped o =
        unencumbered := by
  have hnarrow : narrow Codec.value Codec.value encumbered = .ok (.failure lookalike) :=
    narrow_value_eq_ok.mpr ⟨rfl, rfl⟩
  have hmany := (untyped_narrow encumbered).1 (.failure lookalike) hnarrow
  obtain ⟨hback, himage⟩ := untyped_narrow unencumbered
  have htwo := (hback (.failure lookalike) (narrow_value_eq_ok.mpr ⟨rfl, rfl⟩)).2
  refine ⟨hnarrow, hmany.1, fun heq => ?_, htwo.mpr (List.Perm.swap _ _ _), ?_⟩
  · exact absurd (hmany.2.mp heq).length_eq (by decide)
  · exact himage.mpr ⟨lookalike, Or.inr ⟨_, rfl, List.Perm.swap _ _ _⟩⟩

end Intake.Wire
