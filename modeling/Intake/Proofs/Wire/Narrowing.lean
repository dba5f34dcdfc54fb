import Intake.Proofs.Wire.Acceptance
import Intake.Proofs.Wire.SetAside

/-!
# What narrowing accepts

In a value no key is repeated, so that decoding an outcome from a value that bears the tag of a
variant comes down to what stands under the payload field of this variant (`ofValue_outcome`).
Narrowing is described from there: what it accepts, as what, which of its two errors it reports, and
that no other member matters.

A payload is decoded as one that was set aside.  For all shapes but the unit and the nested outcome
this accepts what decoding the payload on its own accepts (`Codec.Indifferent`).

* `ofValue_outcome`: an outcome that bears a tag, decoded from its payload member.
* `Narrows`: the grammar of narrowing.
* `narrow_spec`: narrowing follows its grammar.
-/

namespace Intake.Wire
open Intake.Json
open Intake.Json.Tree (under)

/-! ### The payload member -/

section
variable {α β : Type}

theorem foldlM_takePayload_of_singleton {codec : Codec α} {field : String} {t : Tree}
    {members : List (String × Tree)} (h : under field members = [t]) :
    members.foldlM (takePayload codec field) none = some <$> codec.decode .setAside t := by
  induction members with
  | nil => cases h
  | cons m members ih =>
      obtain ⟨key, u⟩ := m
      rw [List.foldlM_cons, takePayload]
      by_cases hk : key = field
      -- the payload: nothing further stands under its key
      · subst hk
        obtain ⟨rfl, hnil⟩ := List.cons.inj (Tree.under_cons_self key u members ▸ h)
        rw [if_pos rfl]
        cases codec.decode .setAside u with
        | error e => rfl
        | ok a => exact foldlM_takePayload_eq_ok.mpr (hnil.symm ▸ met_nil_iff.mpr rfl)
      · rw [if_neg hk]
        exact ih (Tree.under_cons_of_ne hk u members ▸ h)

/-- What the member under a payload's field stands for.  Without one, an absent payload does. -/
def payloadIn (codec : Codec α) (field : String) : Option Tree → Except Complaint α
  | some t => codec.decode .setAside t
  | none =>
    match codec.absent with
    | some a => .ok a
    | none => .error (.missingField field)

theorem payloadOf_eq_payloadIn {codec : Codec α} {v : Variant} {members : List (String × Tree)}
    (h : under v.payloadField members = [] ∨ ∃ t, under v.payloadField members = [t]) :
    payloadOf codec v (.members members) =
      payloadIn codec v.payloadField (under v.payloadField members).head? := by
  rw [payloadOf, Tagged.payloadField_eq]
  rcases h with h | ⟨t, h⟩
  · have hfold : members.foldlM (takePayload codec v.payloadField) none = .ok none :=
      foldlM_takePayload_eq_ok.mpr (h.symm ▸ met_nil_iff.mpr rfl)
    rw [hfold, h]
    rfl
  · rw [foldlM_takePayload_of_singleton h, h]
    cases hd : codec.decode .setAside t with
    | error e => simp [payloadIn, hd]
    | ok a => simp [payloadIn, hd]

variable {values : Codec α} {reasons : Codec β}

/-- The outcome of a variant, given the payloads of both. -/
def outcomeOf (value : Except Complaint α) (reason : Except Complaint β) :
    Variant → Except Complaint (Outcome α β)
  | .ok => .ok <$> value
  | .failure => .failure <$> reason

/-- **An outcome that bears a tag.**  What is decoded, and every complaint, comes from the payload
member of the variant. -/
theorem ofValue_outcome {v : Value} {variant : Variant}
    (h : v.member? Variant.tagField = some (.string variant.tag)) :
    (Codec.outcome values reasons).ofValue v =
      outcomeOf (payloadIn values Variant.ok.payloadField (v.member? Variant.ok.payloadField))
        (payloadIn reasons Variant.failure.payloadField
          (v.member? Variant.failure.payloadField)) variant := by
  obtain ⟨members, hv, htag⟩ := Value.member?_eq_some_iff.mp h
  have hsplit := splitTag_object_eq_ok.mpr
    ⟨_, htag, decodeVariant_tag .direct variant, rfl⟩
  -- setting the tag aside changes nothing under the payload's field
  have hu := under_filter_ne (payloadField_ne_tagField variant) members
  have hpay : ∀ {γ : Type} (codec : Codec γ), payloadOf codec variant
      (.members (members.filter (·.1 != Variant.tagField))) =
        payloadIn codec variant.payloadField (v.member? variant.payloadField) := by
    intro γ codec
    rw [payloadOf_eq_payloadIn (hu.symm ▸ Value.under_of_tree_eq hv variant.payloadField), hu,
      Value.member?_of_tree_eq hv]
  rw [Codec.ofValue, hv]
  change splitTag .direct (.object members) >>= decodePayload values reasons = _
  rw [hsplit, ok_bind]
  cases variant with
  | ok => rw [decodePayload, hpay]; rfl
  | failure => rw [decodePayload, hpay]; rfl

theorem narrow_of_not_isOutcome {v : Value} (h : isOutcome v = false) :
    narrow values reasons v = .error (.notAnOutcome v) := by
  rw [narrow, h]
  rfl

/-- A value that bears a tag is narrowed by its payload member alone. -/
theorem narrow_of_tag {v : Value} (variant : Variant)
    (h : v.member? Variant.tagField = some (.string variant.tag)) :
    narrow values reasons v =
      (outcomeOf (payloadIn values Variant.ok.payloadField (v.member? Variant.ok.payloadField))
        (payloadIn reasons Variant.failure.payloadField
          (v.member? Variant.failure.payloadField)) variant).mapError .payload := by
  rw [narrow, if_pos (isOutcome_iff.mpr ⟨variant, h⟩), ofValue_outcome h]

end

/-! ### Payloads that were set aside -/

/-- Decoding a tree that was set aside accepts what decoding it on its own accepts. -/
def Codec.Indifferent {α : Type} (codec : Codec α) : Prop :=
  ∀ t a, codec.decode .setAside t = .ok a ↔ codec.decode .direct t = .ok a

/-- Only the unit and the nested outcome are decoded otherwise when set aside. -/
theorem Shape.indifferent {shape : Shape} (hu : shape ≠ .unit) (ho : shape ≠ .outcome) :
    shape.codec.Indifferent := by
  intro t a
  rw [Shape.rewords hu ho, mapError_eq_ok]

/-- An absent payload stands for something only if it is optional, and then for nothing. -/
theorem Shape.absent_eq_some_iff {shape : Shape} {a : shape.Carrier} :
    shape.codec.absent = some a ↔
      (⟨shape, a⟩ : Σ shape : Shape, shape.Carrier) = ⟨.optionU32, none⟩ := by
  cases shape with
  | optionU32 =>
      constructor
      · intro h
        cases h
        rfl
      · intro h
        cases h
        rfl
  | u8 | u32 | u64 | i64 | f64 | bool | string | unit | value | octets | location | sourceFile
  | outcome => exact ⟨nofun, nofun⟩

/-! ### The grammar -/

/-- What a value holds under a key stands for a payload: on its own it is decoded as the payload,
or there is nothing under the key and the payload is an optional one that is missing. -/
def Holds (shape : Shape) (v : Value) (key : String) (a : shape.Carrier) : Prop :=
  (∃ w : Value, v.member? key = some w.tree ∧ shape.codec.ofValue w = .ok a) ∨
    v.member? key = none ∧ (⟨shape, a⟩ : Σ shape : Shape, shape.Carrier) = ⟨.optionU32, none⟩

/-- The grammar of narrowing: the tag of a variant, and its payload under the field of the
variant. -/
def Narrows (S E : Shape) (v : Value) : Outcome S.Carrier E.Carrier → Prop
  | .ok x => v.member? "tag" = some (.string "ok") ∧ Holds S v "value" x
  | .failure y => v.member? "tag" = some (.string "failure") ∧ Holds E v "reason" y

theorem isPayload_iff_holds {shape : Shape} (hu : shape ≠ .unit) (ho : shape ≠ .outcome) {v : Value}
    {key : String} {a : shape.Carrier} :
    IsPayload shape.codec (v.member? key).toList a ↔ Holds shape v key a := by
  rw [isPayload_toList_iff, Shape.absent_eq_some_iff, Holds]
  refine or_congr_left ⟨?_, ?_⟩
  · rintro ⟨t, ht, hd⟩
    obtain ⟨w, rfl⟩ := Value.exists_value_of_member? ht
    exact ⟨w, ht, (Shape.indifferent hu ho w.tree a).mp hd⟩
  · rintro ⟨w, hw, hd⟩
    exact ⟨w.tree, hw, (Shape.indifferent hu ho w.tree a).mpr hd⟩

section
variable {S E : Shape} {v : Value}

theorem narrow_eq_ok_iff (hS : S ≠ .unit ∧ S ≠ .outcome) (hE : E ≠ .unit ∧ E ≠ .outcome)
    {o : Outcome S.Carrier E.Carrier} :
    narrow S.codec E.codec v = .ok o ↔ Narrows S E v o := by
  cases o with
  | ok x => exact narrow_eq_ok_ok.trans (and_congr_right fun _ => isPayload_iff_holds hS.1 hS.2)
  | failure y =>
      exact narrow_eq_ok_failure.trans (and_congr_right fun _ => isPayload_iff_holds hE.1 hE.2)

theorem narrow_eq_notAnOutcome_iff {w : Value} :
    narrow S.codec E.codec v = .error (.notAnOutcome w) ↔ isOutcome v = false ∧ w = v := by
  cases hg : isOutcome v with
  | false =>
      rw [narrow_of_not_isOutcome hg]
      constructor
      · intro h
        cases h
        exact ⟨rfl, rfl⟩
      · rintro ⟨-, rfl⟩
        rfl
  | true =>
      obtain ⟨variant, htag⟩ := isOutcome_iff.mp hg
      rw [narrow_of_tag variant htag, mapError_eq_error]
      exact ⟨fun ⟨_, _, h⟩ => (by cases h), nofun⟩

/-- What is neither accepted nor handed back is a complaint about the payload. -/
theorem narrow_eq_payload_iff :
    (∃ c, narrow S.codec E.codec v = .error (.payload c)) ↔
      isOutcome v = true ∧ ∀ o, narrow S.codec E.codec v ≠ .ok o := by
  constructor
  · rintro ⟨c, h⟩
    refine ⟨?_, fun o ho => by rw [h] at ho; cases ho⟩
    cases hg : isOutcome v with
    | true => rfl
    | false => rw [narrow_of_not_isOutcome hg] at h; cases h
  · rintro ⟨hg, hno⟩
    cases hn : narrow S.codec E.codec v with
    | ok o => exact absurd hn (hno o)
    | error e =>
        cases e with
        | payload c => exact ⟨c, rfl⟩
        | notAnOutcome w =>
            obtain ⟨hf, -⟩ := narrow_eq_notAnOutcome_iff.mp hn
            rw [hf] at hg
            cases hg

/-- Only the tag and the payload of its variant matter. -/
theorem narrow_congr {w : Value} {variant : Variant}
    (hv : v.member? Variant.tagField = some (.string variant.tag))
    (ht : w.member? Variant.tagField = v.member? Variant.tagField)
    (hp : w.member? variant.payloadField = v.member? variant.payloadField) :
    narrow S.codec E.codec w = narrow S.codec E.codec v := by
  rw [narrow_of_tag variant (ht.trans hv), narrow_of_tag variant hv]
  cases variant with
  | ok => rw [hp]; rfl
  | failure => rw [hp]; rfl

end

/-- **Narrowing follows its grammar.**  For payloads of every shape but the unit and the nested
outcome, it accepts what the grammar describes, hands back what does not pass the guards and
complains about the payload of everything else.  No member but the tag and the payload of its
variant matters. -/
theorem narrow_spec (S E : Shape) (hS : S ≠ .unit ∧ S ≠ .outcome) (hE : E ≠ .unit ∧ E ≠ .outcome)
    (v : Value) :
    (∀ o, narrow S.codec E.codec v = .ok o ↔ Narrows S E v o) ∧
      (∀ w, narrow S.codec E.codec v = .error (.notAnOutcome w) ↔ isOutcome v = false ∧ w = v) ∧
      ((∃ c, narrow S.codec E.codec v = .error (.payload c)) ↔
        isOutcome v = true ∧ ∀ o, ¬ Narrows S E v o) ∧
      ∀ w : Value, w.member? "tag" = v.member? "tag" →
        isOutcome w = isOutcome v ∧
          ∀ variant : Variant, v.member? "tag" = some (.string variant.tag) →
            w.member? variant.payloadField = v.member? variant.payloadField →
            narrow S.codec E.codec w = narrow S.codec E.codec v := by
  refine ⟨fun o => narrow_eq_ok_iff hS hE, fun w => narrow_eq_notAnOutcome_iff, ?_, ?_⟩
  · rw [narrow_eq_payload_iff]
    simp only [ne_eq, narrow_eq_ok_iff hS hE]
  · intro w ht
    refine ⟨?_, fun variant hv hp => narrow_congr hv ht hp⟩
    have hiff : isOutcome w = true ↔ isOutcome v = true := by
      rw [isOutcome_iff, isOutcome_iff]
      exact exists_congr fun variant => by rw [Variant.tagField, ht]
    exact Bool.eq_iff_iff.mpr hiff

/-- A successful outcome without a payload. -/
def bare : Value := .ofTree (.object [("tag", .string "ok")])

/-- The same beside a payload of the other variant, of the wrong shape. -/
def beside : Value := .ofTree (.object [("tag", .string "ok"), ("reason", .array [.null])])

/-- An optional payload may be missing, whatever stands under the field of the other variant. -/
theorem narrow_spec_beside :
    narrow Shape.optionU32.codec Shape.string.codec beside = .ok (.ok none) ∧
      narrow Shape.optionU32.codec Shape.string.codec bare =
        narrow Shape.optionU32.codec Shape.string.codec beside := by
  have hspec := narrow_spec .optionU32 .string ⟨nofun, nofun⟩ ⟨nofun, nofun⟩ beside
  refine ⟨(hspec.1 (.ok none)).mpr ⟨rfl, Or.inr ⟨rfl, rfl⟩⟩, ?_⟩
  exact (hspec.2.2.2 bare rfl).2 .ok rfl rfl

end Intake.Wire
