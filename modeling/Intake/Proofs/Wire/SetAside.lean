import Intake.Proofs.Wire.Codec

/-!
# Payloads that were set aside

The payload of an outcome is decoded when the whole outcome has been met, from what was set aside.
For all shapes but the unit and the nested outcome this accepts what decoding the payload where it
stands accepts, and refuses the rest with the same complaint, save that an array that is too long is
described in other words.

The law is handed on from the fields to a record and from a type to lists and options of it: their
decoders are stages, and errors may be translated stage by stage (`mapError_bind`).

* `Complaint.setAside`: the words for a payload that was set aside.
* `Codec.Rewords`: the law.
* `Shape.rewords`: the shapes that obey it.
-/

namespace Intake.Wire
open Intake.Json

/-- The complaint about a payload that was set aside, given the complaint about it where it
stands. -/
def Complaint.setAside : Complaint → Complaint
  | .invalidLength count .fewer => .invalidLength count (.exactly 2)
  | c => c

/-- A tree that was set aside is decoded as it is where it stands, up to the words of the
complaint. -/
def Codec.Rewords {α : Type} (codec : Codec α) : Prop :=
  ∀ t, codec.decode .setAside t = (codec.decode .direct t).mapError .setAside

/-! ### Plain types -/

namespace Codec
variable {α : Type}

/-- No complaint about an integer is about a length. -/
theorem decodeInteger_mapError_setAside (expected : Expected) (ofInt? : Int → Option α) (t : Tree) :
    (decodeInteger expected ofInt? t).mapError .setAside = decodeInteger expected ofInt? t := by
  cases t with
  | number n =>
      cases hn : n.toInt? with
      | none => simp only [decodeInteger, hn]; rfl
      | some i =>
          cases hi : ofInt? i with
          | none => simp only [decodeInteger, hn, hi]; rfl
          | some a => simp only [decodeInteger, hn, hi]; rfl
  | null | boolean _ | string _ | array _ | object _ => rfl

theorem u8_rewords : u8.Rewords := fun t => (decodeInteger_mapError_setAside _ _ t).symm

theorem u32_rewords : u32.Rewords := fun t => (decodeInteger_mapError_setAside _ _ t).symm

theorem u64As_rewords (expected : Expected) : (u64As expected).Rewords := fun t =>
  (decodeInteger_mapError_setAside _ _ t).symm

theorem i64_rewords : i64.Rewords := fun t => (decodeInteger_mapError_setAside _ _ t).symm

theorem string_rewords : string.Rewords := by
  intro t
  cases t with
  | null | boolean _ | number _ | string _ | array _ | object _ => rfl

theorem octets_rewords : octets.Rewords := by
  intro t
  cases t with
  | array items =>
      change items.mapM (u8.decode .setAside) = (items.mapM (u8.decode .direct)).mapError _
      rw [mapError_mapM, funext u8_rewords]
  | null | boolean _ | number _ | string _ | object _ => rfl

theorem Rewords.option {codec : Codec α} (h : codec.Rewords) : (option codec).Rewords := by
  intro t
  by_cases ht : t = .null
  · subst ht
    rfl
  · change decodeOption codec .setAside t = (decodeOption codec .direct t).mapError _
    rw [decodeOption_of_ne ht, decodeOption_of_ne ht, mapError_map, h t]

end Codec

/-! ### Records -/

namespace Record
variable {ρ α β : Type} {record : Record ρ α β}

theorem refuseSecond_mapError {γ δ : Type} {name : String} {seen : Option γ}
    {value : Except Complaint δ} :
    (refuseSecond name seen value).mapError .setAside =
      refuseSecond name seen (value.mapError .setAside) := by
  cases seen with
  | none => rfl
  | some c => rfl

theorem finish_mapError {seen : Seen α β} :
    (record.finish seen).mapError .setAside = record.finish seen := by
  obtain ⟨_ | a, _ | b⟩ := seen
  · rfl
  · rfl
  · rfl
  · rfl

section
variable (h₁ : record.first.codec.Rewords) (h₂ : record.second.codec.Rewords)
include h₁ h₂

theorem takeMember_setAside (seen : Seen α β) (m : String × Tree) :
    record.takeMember .setAside seen m =
      (record.takeMember .direct seen m).mapError .setAside := by
  obtain ⟨key, t⟩ := m
  rw [takeMember, takeMember]
  split
  · rw [refuseSecond_mapError, h₁ t, mapError_bind]
    rfl
  · split
    · rw [refuseSecond_mapError, h₂ t, mapError_bind]
      rfl
    · rfl

theorem decodeMembers_setAside (members : List (String × Tree)) :
    record.decodeMembers .setAside members =
      (record.decodeMembers .direct members).mapError .setAside := by
  have htake : record.takeMember .setAside =
      fun seen m => (record.takeMember .direct seen m).mapError .setAside :=
    funext fun seen => funext (takeMember_setAside h₁ h₂ seen)
  simp only [decodeMembers, mapError_bind, mapError_foldlM, finish_mapError, htake]

/-- The length of an array is looked at behind its items, and put in other words. -/
theorem decodeItems_setAside (items : List Tree) :
    record.decodeItems .setAside items =
      (record.decodeItems .direct items).mapError .setAside := by
  match items with
  | [] => rfl
  | [t] =>
      simp only [decodeItems, mapError_bind, h₁ t]
      rfl
  | t :: u :: more =>
      simp only [decodeItems, mapError_bind, h₁ t, h₂ u]
      cases more with
      | nil => rfl
      | cons => rfl

theorem rewords : record.codec.Rewords
  | .object members => decodeMembers_setAside h₁ h₂ members
  | .array items => decodeItems_setAside h₁ h₂ items
  | .null | .boolean _ | .number _ | .string _ => rfl

end

end Record

/-! ### Shapes -/

/-- **Payloads that were set aside.**  Only the unit and the nested outcome are decoded otherwise
than where they stand. -/
theorem Shape.rewords {shape : Shape} (hu : shape ≠ .unit) (ho : shape ≠ .outcome) :
    shape.codec.Rewords := by
  cases shape with
  | unit => exact absurd rfl hu
  | outcome => exact absurd rfl ho
  | u8 => exact Codec.u8_rewords
  | u32 => exact Codec.u32_rewords
  | u64 => exact Codec.u64As_rewords .u64
  | i64 => exact Codec.i64_rewords
  | f64 | bool | value =>
      intro t
      cases t with
      | null | boolean _ | number _ | string _ | array _ | object _ => rfl
  | string => exact Codec.string_rewords
  | octets => exact Codec.octets_rewords
  | optionU32 => exact Codec.u32_rewords.option
  | location =>
      exact Record.rewords (Codec.u64As_rewords .coordinate) (Codec.u64As_rewords .coordinate)
  | sourceFile => exact Record.rewords Codec.string_rewords Codec.string_rewords

end Intake.Wire
