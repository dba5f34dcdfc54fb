import Intake.Proofs.Wire.Guards

/-!
# What decoding accepts

An outcome that is decoded where it stands bears its tag as a string: under the key of the tag if it
is an object, or in front of its payload if it is an array of the two.  The guards look at objects
only.  On objects they agree with decoding, and the arrays are what decoding accepts beyond them.

* `decodeVariant_direct_eq_ok`: a tag where it stands is the string of its variant.
* `outcome_decode_direct_eq_ok`: the grammar of the outcomes that are decoded where they stand.
* `narrow_eq_ok`: the grammar of narrowing, which takes the objects among them.
* `guards_iff_object`: the values among them that pass the guards.
-/

namespace Intake.Wire
open Intake.Json
open Intake.Json.Tree (under)

/-! ### The grammar -/

theorem ofTag?_eq_some {s : String} {variant : Variant} :
    Tagged.ofTag? s = some variant ↔ s = variant.tag := by
  rw [Tagged.ofTag?, Tagged.tag_eq, Tagged.tag_eq]
  by_cases hok : s = Variant.ok.tag
  · subst hok
    cases variant with
    | ok => simp
    | failure => simp [Variant.tag]
  · rw [if_neg hok]
    cases variant with
    | ok => simp [hok]
    | failure => simp

theorem tag_injective {v w : Variant} (h : v.tag = w.tag) : v = w :=
  Option.some.inj ((ofTag?_eq_some.mpr rfl).symm.trans (ofTag?_eq_some.mpr h))

/-- A tag is the string of its variant, unless it was set aside. -/
theorem decodeVariant_direct_eq_ok {t : Tree} {variant : Variant} :
    decodeVariant .direct t = .ok variant ↔ t = .string variant.tag := by
  cases t with
  | string s =>
      rw [Tree.string.injEq, ← ofTag?_eq_some, decodeVariant, variantOfTag]
      cases Tagged.ofTag? s with
      | none => simp
      | some w => simp
  | null | boolean _ | number _ | array _ | object _ => exact ⟨nofun, nofun⟩

section
variable {α β : Type} {values : Codec α} {reasons : Codec β} {o : Outcome α β}

/-- An outcome is of the variant whose payload it holds. -/
theorem HasPayload.variant_eq {variant : Variant} {ts : List Tree}
    (h : HasPayload values reasons variant ts o) : o.variant = variant := by
  cases h with
  | ok => rfl
  | failure => rfl

/-- **The grammar of outcomes that are decoded where they stand.** -/
theorem outcome_decode_direct_eq_ok {t : Tree} :
    (Codec.outcome values reasons).decode .direct t = .ok o ↔
      (∃ members, t = .object members ∧ under Variant.tagField members = [.string o.tag] ∧
        HasPayload values reasons o.variant (under o.variant.payloadField members) o) ∨
      ∃ u, t = .array [.string o.tag, u] ∧ HasPayload values reasons o.variant [u] o := by
  rw [outcome_decode_eq_ok]
  constructor
  · intro h
    cases h with
    | object htag hv hp =>
        obtain rfl := hp.variant_eq
        obtain rfl := decodeVariant_direct_eq_ok.mp hv
        exact Or.inl ⟨_, rfl, htag, hp⟩
    | array hv hp =>
        obtain rfl := hp.variant_eq
        obtain rfl := decodeVariant_direct_eq_ok.mp hv
        exact Or.inr ⟨_, rfl, hp⟩
  · have hv : decodeVariant .direct (.string o.tag) = .ok o.variant := decodeVariant_tag .direct _
    rintro (⟨members, rfl, htag, hp⟩ | ⟨u, rfl, hp⟩)
    · exact .object htag hv hp
    · exact .array hv hp

end

/-! ### The guards -/

/-- What passes the guards is an object. -/
theorem exists_object_of_isOutcome {v : Value} (h : isOutcome v = true) :
    ∃ members, v.tree = .object members := by
  obtain ⟨variant, htag⟩ := isOutcome_iff.mp h
  obtain ⟨members, hv, -⟩ := Value.member?_eq_some_iff.mp htag
  exact ⟨members, hv⟩

section
variable {α β : Type} {values : Codec α} {reasons : Codec β} {v : Value}

theorem narrow_eq_ok_iff_ofValue {o : Outcome α β} :
    narrow values reasons v = .ok o ↔
      isOutcome v = true ∧ (Codec.outcome values reasons).ofValue v = .ok o := by
  rw [narrow]
  split
  next hg => rw [mapError_eq_ok, and_iff_right hg]
  next hg => exact ⟨fun h => (by cases h), fun h => absurd h.1 hg⟩

/-- **The grammar of narrowing.**  It takes the objects that hold a tag and the payload of its
variant. -/
theorem narrow_eq_ok {o : Outcome α β} :
    narrow values reasons v = .ok o ↔
      v.member? Variant.tagField = some (.string o.tag) ∧
        HasPayload values reasons o.variant (v.member? o.variant.payloadField).toList o := by
  rw [narrow_eq_ok_iff_ofValue, Codec.ofValue, outcome_decode_direct_eq_ok]
  constructor
  · rintro ⟨hg, hform⟩
    obtain ⟨members, hv⟩ := exists_object_of_isOutcome hg
    rcases hform with ⟨ms, hms, htag, hp⟩ | ⟨u, hu, -⟩
    · exact ⟨Value.member?_eq_some_iff.mpr ⟨ms, hms, htag⟩, Value.toList_member? hms _ ▸ hp⟩
    · rw [hv] at hu
      cases hu
  · rintro ⟨htag, hp⟩
    obtain ⟨members, hv, hu⟩ := Value.member?_eq_some_iff.mp htag
    rw [Value.toList_member? hv] at hp
    exact ⟨(guards_of_tag htag).1, Or.inl ⟨members, hv, hu, hp⟩⟩

theorem narrow_eq_ok_ok {a : α} :
    narrow values reasons v = .ok (.ok a) ↔
      v.member? Variant.tagField = some (.string Variant.ok.tag) ∧
        IsPayload values (v.member? Variant.ok.payloadField).toList a := by
  refine narrow_eq_ok.trans (and_congr_right fun _ => ⟨fun h => ?_, .ok⟩)
  cases h with
  | ok h => exact h

theorem narrow_eq_ok_failure {b : β} :
    narrow values reasons v = .ok (.failure b) ↔
      v.member? Variant.tagField = some (.string Variant.failure.tag) ∧
        IsPayload reasons (v.member? Variant.failure.payloadField).toList b := by
  refine narrow_eq_ok.trans (and_congr_right fun _ => ⟨fun h => ?_, .failure⟩)
  cases h with
  | failure h => exact h

/-- A payload is decoded from the member under its key, or stands for the absence of one. -/
theorem isPayload_toList_iff {codec : Codec α} {member : Option Tree} {a : α} :
    IsPayload codec member.toList a ↔
      (∃ t, member = some t ∧ codec.decode .setAside t = .ok a) ∨
        member = none ∧ codec.absent = some a := by
  cases member with
  | none =>
      rw [Option.toList_none]
      constructor
      · intro hp
        cases hp with
        | absent ha => exact Or.inr ⟨rfl, ha⟩
      · rintro (⟨t, h, -⟩ | ⟨-, ha⟩)
        · cases h
        · exact .absent ha
  | some t =>
      rw [Option.toList_some]
      constructor
      · intro hp
        cases hp with
        | present hd => exact Or.inl ⟨t, rfl, hd⟩
      · rintro (⟨u, hu, hd⟩ | ⟨h, -⟩)
        · cases hu
          exact .present hd
        · cases h

theorem isPayload_toList_iff_of_absent {codec : Codec α} (h : codec.absent = none)
    {member : Option Tree} {a : α} :
    IsPayload codec member.toList a ↔ ∃ t, member = some t ∧ codec.decode .setAside t = .ok a := by
  refine isPayload_toList_iff.trans (or_iff_left ?_)
  rintro ⟨-, ha⟩
  rw [h] at ha
  cases ha

/-- An untyped payload is what the value holds, as it stands there. -/
theorem isPayload_value_iff {key : String} {w : Value} :
    IsPayload Codec.value (v.member? key).toList w ↔ v.member? key = some w.tree := by
  rw [isPayload_toList_iff_of_absent rfl]
  constructor
  · rintro ⟨t, ht, hd⟩
    obtain ⟨u, rfl⟩ := Value.exists_value_of_member? ht
    obtain rfl : u = w := (Value.ofTree_tree u).symm.trans (Except.ok.inj hd)
    exact ht
  · intro h
    exact ⟨w.tree, h, congrArg Except.ok (Value.ofTree_tree w)⟩

end

/-- **Decoding and the guards.**  A value from which an outcome is decoded passes the guards of the
outcome exactly if it is an object.  Else it is an array of the outcome's tag and a payload. -/
theorem guards_iff_object (S E : Shape) {v : Value} {o : Outcome S.Carrier E.Carrier}
    (h : (Codec.outcome S.codec E.codec).ofValue v = .ok o) :
    ((isOutcome v = true ∧ isOk v = o.isOk ∧ isFailure v = o.isFailure) ↔
        ∃ members, v.tree = .object members) ∧
      ((∃ members, v.tree = .object members) ∨
        ∃ payload, v.tree = .array [.string o.tag, payload]) := by
  rcases outcome_decode_direct_eq_ok.mp h with ⟨members, hv, htag, -⟩ | ⟨payload, hv, -⟩
  · have hguards := guards_of_tag (o := o) (Value.member?_eq_some_iff.mpr ⟨members, hv, htag⟩)
    exact ⟨⟨fun _ => ⟨members, hv⟩, fun _ => hguards⟩, Or.inl ⟨members, hv⟩⟩
  · refine ⟨⟨fun hguards => exists_object_of_isOutcome hguards.1, ?_⟩, Or.inr ⟨payload, hv⟩⟩
    rintro ⟨members, hv'⟩
    rw [hv] at hv'
    cases hv'

/-- A tag and a payload in an object, beside the payload of the other variant. -/
def taggedObject : Value :=
  .ofTree (.object [("reason", .null), ("tag", .string "ok"), ("value", .number (.natural 5))])

/-- The same tag and payload in an array. -/
def taggedArray : Value := .ofTree (.array [.string "ok", .number (.natural 5)])

/-- One outcome is decoded from both; the object passes the guards, and the array does not. -/
theorem guards_iff_object_tagged :
    (isOutcome taggedObject = true ∧ isOk taggedObject = true ∧ isFailure taggedObject = false) ∧
      ¬ (isOutcome taggedArray = true ∧ isOk taggedArray = true ∧
        isFailure taggedArray = false) := by
  have hobject := guards_iff_object .u32 .string (v := taggedObject) (o := .ok 5) rfl
  have harray := guards_iff_object .u32 .string (v := taggedArray) (o := .ok 5) rfl
  refine ⟨hobject.1.mpr ⟨_, rfl⟩, fun hguards => ?_⟩
  obtain ⟨members, hv⟩ := harray.1.mp hguards
  cases hv

/-- An outcome is decoded from an array, which no guard lets pass. -/
theorem ofValue_taggedArray :
    (Codec.outcome Shape.u32.codec Shape.string.codec).ofValue taggedArray = .ok (.ok 5) ∧
      isOutcome taggedArray = false ∧ isOk taggedArray = false := by
  refine ⟨rfl, ?_, ?_⟩
  · decide
  · decide

end Intake.Wire
