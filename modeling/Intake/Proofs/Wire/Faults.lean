import Intake.Proofs.Wire.Acceptance
import Intake.Proofs.Wire.Narrowing

/-!
# What is wrong with an object

An object from which no outcome is decoded has a fault of its tag or a fault of its payload.  The
guards tell which: what they refuse has a fault of its tag, and it is this fault that decoding
complains about, whatever else the object holds.  Of what they let pass, decoding complains about
the payload only; if the payload is itself an outcome, this may be a complaint about a tag again,
but one inside the payload.

* `TagFault`, `PayloadFault`: the faults, each with the complaint about it.
* `ofValue_of_tagFault`: a fault of the tag is what is complained about.
* `ofValue_eq_error_iff`: where there is none, it is a fault of the payload.
* `ofValue_object`: both, with what narrowing makes of them.
-/

namespace Intake.Wire
open Intake.Json
open Intake.Json.Tree (under)

/-! ### Faults of the tag -/

/-- What can be wrong with the tag of an object, and the complaint about it. -/
inductive TagFault : Option Tree → Complaint → Prop where
  | missing : TagFault none (.missingField "tag")
  | unknown {s : String} (hok : s ≠ "ok") (hfailure : s ≠ "failure") :
      TagFault (some (.string s)) (.unknownVariant s)
  | noString {t : Tree} (h : ∀ s, t ≠ .string s) :
      TagFault (some t) (.invalidType (.ofTree t) .tag)

/-- What is not the tag of a variant has a fault. -/
theorem exists_tagFault {tag : Option Tree}
    (h : ∀ variant : Variant, tag ≠ some (.string variant.tag)) : ∃ c, TagFault tag c := by
  cases tag with
  | none => exact ⟨_, .missing⟩
  | some t =>
      cases t with
      | string s =>
          exact ⟨_, .unknown (fun hs => h .ok (hs ▸ rfl)) fun hs => h .failure (hs ▸ rfl)⟩
      | null | boolean _ | number _ | array _ | object _ => exact ⟨_, .noString nofun⟩

theorem decodeVariant_of_tagFault {t : Tree} {c : Complaint} (h : TagFault (some t) c) :
    decodeVariant .direct t = .error c := by
  cases h with
  | unknown hok hfailure =>
      have hnone : Tagged.ofTag? _ = none := (if_neg hok).trans (if_neg hfailure)
      rw [decodeVariant, variantOfTag, hnone]
  | noString h =>
      cases t with
      | string s => exact absurd rfl (h s)
      | null | boolean _ | number _ | array _ | object _ => rfl

/-- The members in front of a tag are set aside, and a fault of the tag ends it. -/
theorem foldlM_take_of_error {setting : Setting} {t : Tree} {c : Complaint}
    {members : List (String × Tree)} {opened : Opened} (h : under Variant.tagField members = [t])
    (hd : decodeVariant setting t = .error c) (hn : opened.variant = none) :
    members.foldlM (Opened.take setting) opened = .error c := by
  induction members generalizing opened with
  | nil => cases h
  | cons m members ih =>
      obtain ⟨key, u⟩ := m
      rw [List.foldlM_cons, Opened.take, Tagged.tagField_eq]
      by_cases hk : key = Variant.tagField
      · subst hk
        obtain ⟨rfl, -⟩ := List.cons.inj (Tree.under_cons_self _ u members ▸ h)
        rw [if_pos rfl, Opened.takeTag, hn, hd]
        rfl
      · rw [if_neg hk]
        exact ih (Tree.under_cons_of_ne hk u members ▸ h) hn

section
variable {v : Value} {members : List (String × Tree)} {c : Complaint}

theorem splitTag_of_tagFault (hv : v.tree = .object members)
    (h : TagFault (v.member? Variant.tagField) c) :
    splitTag .direct (.object members) = .error c := by
  rw [Value.member?_of_tree_eq hv] at h
  rw [splitTag]
  rcases Value.under_of_tree_eq hv Variant.tagField with hnil | ⟨t, ht⟩
  -- without a tag nothing is refused on the way, and the tag is missed at the end
  · rw [hnil] at h
    cases h
    have hfold : members.foldlM (Opened.take .direct) .empty =
        .ok ⟨none, (members.filter (·.1 != Variant.tagField)).reverse ++ []⟩ :=
      foldlM_take_eq_ok.mpr ⟨hnil.symm ▸ .nothing none, rfl⟩
    rw [hfold]
    rfl
  · rw [ht] at h
    rw [foldlM_take_of_error ht (decodeVariant_of_tagFault h) rfl]
    rfl

/-- **A fault of the tag.**  It is what decoding an object complains about, whatever else the object
holds and whatever the types of the payloads. -/
theorem ofValue_of_tagFault {α β : Type} {values : Codec α} {reasons : Codec β}
    (hv : v.tree = .object members) (h : TagFault (v.member? Variant.tagField) c) :
    (Codec.outcome values reasons).ofValue v = .error c := by
  rw [Codec.ofValue, hv]
  change splitTag .direct (.object members) >>= decodePayload values reasons = _
  rw [splitTag_of_tagFault hv h]
  rfl

end

/-! ### Faults of the payload -/

/-- The shape of the payloads of a variant. -/
def payloadShape (S E : Shape) : Variant → Shape
  | .ok => S
  | .failure => E

/-- What can be wrong with the payload of an object, and the complaint about it. -/
inductive PayloadFault (shape : Shape) (field : String) : Option Tree → Complaint → Prop where
  | missing (h : shape ≠ .optionU32) : PayloadFault shape field none (.missingField field)
  | refused {t : Tree} {c : Complaint} (h : shape.codec.decode .setAside t = .error c) :
      PayloadFault shape field (some t) c

theorem Shape.absent_eq_none_iff {shape : Shape} :
    shape.codec.absent = none ↔ shape ≠ .optionU32 := by
  cases shape with
  | optionU32 => exact ⟨nofun, fun h => absurd rfl h⟩
  | u8 | u32 | u64 | i64 | f64 | bool | string | unit | value | octets | location | sourceFile
  | outcome => exact ⟨fun _ => nofun, fun _ => rfl⟩

section
variable {shape : Shape} {field : String} {c : Complaint}

theorem payloadIn_eq_error {member : Option Tree} :
    payloadIn shape.codec field member = .error c ↔ PayloadFault shape field member c := by
  cases member with
  | none =>
      rw [payloadIn]
      constructor
      · intro h
        cases ha : shape.codec.absent with
        | none =>
            rw [ha] at h
            cases h
            exact .missing (Shape.absent_eq_none_iff.mp ha)
        | some a => rw [ha] at h; cases h
      · intro h
        cases h with
        | missing h => rw [Shape.absent_eq_none_iff.mpr h]
  | some t =>
      constructor
      · exact .refused
      · intro h
        cases h with
        | refused h => exact h

/-- A payload that is there has the fault that it has on its own. -/
theorem payloadFault_some_iff (hu : shape ≠ .unit) (ho : shape ≠ .outcome) {w : Value} :
    PayloadFault shape field (some w.tree) c ↔
      ∃ d, shape.codec.ofValue w = .error d ∧ d.setAside = c := by
  rw [← payloadIn_eq_error, payloadIn, Shape.rewords hu ho, mapError_eq_error]
  rfl

end

section
variable {S E : Shape} {v : Value} {variant : Variant}
  (h : v.member? Variant.tagField = some (.string variant.tag))
include h

theorem variant_of_ofValue {o : Outcome S.Carrier E.Carrier}
    (ho : (Codec.outcome S.codec E.codec).ofValue v = .ok o) : o.variant = variant := by
  rw [ofValue_outcome h] at ho
  cases variant with
  | ok =>
      obtain ⟨x, -, rfl⟩ := map_eq_ok.mp ho
      rfl
  | failure =>
      obtain ⟨y, -, rfl⟩ := map_eq_ok.mp ho
      rfl

/-- **A fault of the payload.**  It is what decoding complains about in an object that bears the tag
of a variant. -/
theorem ofValue_eq_error_iff {c : Complaint} :
    (Codec.outcome S.codec E.codec).ofValue v = .error c ↔
      PayloadFault (payloadShape S E variant) variant.payloadField
        (v.member? variant.payloadField) c := by
  rw [ofValue_outcome h, ← payloadIn_eq_error]
  cases variant with
  | ok => exact map_eq_error
  | failure => exact map_eq_error

end

/-! ### Objects -/

/-- **What is wrong with an object.**  If the guards refuse it, decoding complains about its tag.
If they let it pass, the tag names the variant that is decoded, decoding complains about the payload
of this variant and about nothing else, and narrowing gives the same outcome or the same complaint.
What a payload is refused with is what it is refused with on its own, up to the words for its
length, unless it is the unit or an outcome. -/
theorem ofValue_object (S E : Shape) {v : Value} {members : List (String × Tree)}
    (hv : v.tree = .object members) :
    (isOutcome v = false →
      ∃ c, TagFault (v.member? "tag") c ∧
        (Codec.outcome S.codec E.codec).ofValue v = .error c) ∧
    (isOutcome v = true →
      ∃ variant : Variant, v.member? "tag" = some (.string variant.tag) ∧
        (∀ o, (Codec.outcome S.codec E.codec).ofValue v = .ok o → o.variant = variant) ∧
        (∀ c, (Codec.outcome S.codec E.codec).ofValue v = .error c ↔
          PayloadFault (payloadShape S E variant) variant.payloadField
            (v.member? variant.payloadField) c) ∧
        narrow S.codec E.codec v =
          ((Codec.outcome S.codec E.codec).ofValue v).mapError .payload ∧
        ∀ c, (NarrowError.payload c).message = "Invalid outcome payload: " ++ c.message) ∧
    ∀ shape : Shape, shape ≠ .unit → shape ≠ .outcome →
      ∀ (field : String) (w : Value) (c : Complaint),
        PayloadFault shape field (some w.tree) c ↔
          ∃ d, shape.codec.ofValue w = .error d ∧ d.setAside = c := by
  refine ⟨fun hg => ?_, fun hg => ?_, fun _ hu ho _ _ _ => payloadFault_some_iff hu ho⟩
  · have hno : ∀ variant : Variant, v.member? Variant.tagField ≠ some (.string variant.tag) := by
      intro variant htag
      rw [isOutcome_iff.mpr ⟨variant, htag⟩] at hg
      cases hg
    obtain ⟨c, hc⟩ := exists_tagFault hno
    exact ⟨c, hc, ofValue_of_tagFault hv hc⟩
  · obtain ⟨variant, htag⟩ := isOutcome_iff.mp hg
    exact ⟨variant, htag, fun _ => variant_of_ofValue htag, fun _ => ofValue_eq_error_iff htag,
      if_pos hg, fun _ => rfl⟩

/-- The number of a variant in place of its tag. -/
def numbered : Value :=
  .ofTree (.object [("tag", .number (.natural 0)), ("value", .number (.natural 5))])

/-- A payload that should be an outcome, and has a fault of its own tag. -/
def wrongInside : Value :=
  .ofTree (.object [("tag", .string "ok"), ("value", .object [("tag", .string "maybe")])])

/-- A number is no tag, and a fault of the tag inside a payload is a fault of the payload. -/
theorem ofValue_object_wrongInside :
    (Codec.outcome Shape.outcome.codec Shape.string.codec).ofValue wrongInside =
        .error (.unknownVariant "maybe") ∧
      narrow Shape.outcome.codec Shape.string.codec wrongInside =
        .error (.payload (.unknownVariant "maybe")) ∧
      (Codec.outcome Shape.u32.codec Shape.string.codec).ofValue numbered =
        .error (.invalidType (.number (.natural 0)) .tag) := by
  obtain ⟨-, hinside, -⟩ := ofValue_object .outcome .string (v := wrongInside) rfl
  obtain ⟨hnumbered, -, -⟩ := ofValue_object .u32 .string (v := numbered) rfl
  obtain ⟨variant, htag, -, hfault, hnarrow, -⟩ := hinside (by decide)
  obtain rfl : variant = .ok := tag_injective (Tree.string.inj (Option.some.inj htag)).symm
  have hvalue := (hfault (.unknownVariant "maybe")).mpr (.refused rfl)
  obtain ⟨c, hc, herror⟩ := hnumbered (by decide)
  cases hc with
  | noString => exact ⟨hvalue, by rw [hnarrow, hvalue]; rfl, herror⟩

end Intake.Wire
