import Intake.Proofs.Wire.Grammar
import Intake.Wire.Shape

/-!
# Laws of codecs

A codec is lawful if decoding undoes encoding and if a tree and its normal form are decoded alike,
as far as they can be: the normal form has forgotten what stood under a key before the last tree,
so that it may be decoded where the tree itself is refused.

The laws are proved for the plain codecs, and are handed on from the fields to a record
(`Record.Lawful.codec`) and from the payloads to an outcome (`Codec.Lawful.outcome`).  They hold
for every shape of payload (`Shape.codec_lawful`).
-/

namespace Intake.Wire
open Intake.Json
open Intake.Json.Tree (under normalizeMembers)

namespace Codec

/-- The laws of a codec. -/
structure Lawful {α : Type} (codec : Codec α) : Prop where
  /-- The tree of a value repeats no key. -/
  distinctKeys : ∀ a, (codec.encode a).DistinctKeys
  /-- The tree of a value is decoded as that value. -/
  decode_encode : ∀ setting a, codec.decode setting (codec.encode a) = .ok a
  /-- The normal form of a tree is decoded as the tree is. -/
  decode_normalize : ∀ {setting t a}, codec.decode setting t = .ok a →
    codec.decode setting t.normalize = .ok a
  /-- A tree that repeats no key is decoded as its normal form is. -/
  decode_of_normalize : ∀ {setting} {t : Tree} {a}, t.DistinctKeys →
    codec.decode setting t.normalize = .ok a → codec.decode setting t = .ok a

variable {α β : Type}

/-- A codec that decodes neither arrays nor objects need not care about normal forms. -/
theorem lawful_of_scalar {codec : Codec α}
    (h : ∀ setting a, codec.decode setting (codec.encode a) = .ok a)
    (hi : ∀ setting items a, codec.decode setting (.array items) ≠ .ok a)
    (hm : ∀ setting members a, codec.decode setting (.object members) ≠ .ok a) :
    codec.Lawful := by
  have hs : ∀ {setting t a}, codec.decode setting t = .ok a → t.IsScalar := by
    intro setting t a hd
    cases t with
    | array items => exact hi setting items a hd
    | object members => exact hm setting members a hd
    | null | boolean _ | number _ | string _ => trivial
  refine ⟨fun a => ?_, h, fun hd => ?_, fun _ hd => ?_⟩
  · have hscalar := hs (h .direct a)
    cases he : codec.encode a with
    | null | boolean _ | number _ | string _ => trivial
    | array _ | object _ => rw [he] at hscalar; exact hscalar.elim
  · rwa [Tree.normalize_of_isScalar (hs hd)]
  · rwa [Tree.normalize_of_isScalar (Tree.isScalar_of_normalize (hs hd))] at hd

/-! ### Numbers -/

theorem decodeInteger_number {expected : Expected} {ofInt? : Int → Option α} {n : Number} {i : Int}
    {a : α} (hn : n.toInt? = some i) (ha : ofInt? i = some a) :
    decodeInteger expected ofInt? (.number n) = .ok a := by
  simp [decodeInteger, hn, ha]

theorem decode_natural {expected : Expected} {bound : Nat} {f : Nat → α} {n : UInt64} {a : α}
    (hb : n.toNat < bound) (ha : f n.toNat = a) :
    decodeInteger expected (fun i => (natBelow? bound i).map f) (.number (.natural n)) = .ok a :=
  decodeInteger_number (i := n.toNat) rfl (by simp [natBelow?, hb, ha])

theorem decode_encodeNat {expected : Expected} {bound : Nat} {f : Nat → α} {n : Nat} {a : α}
    (hn : n < UInt64.size) (hb : n < bound) (ha : f n = a) :
    decodeInteger expected (fun i => (natBelow? bound i).map f) (encodeNat n) = .ok a := by
  have hto : (UInt64.ofNat n).toNat = n := UInt64.toNat_ofNat_of_lt' hn
  exact decode_natural (hto.symm ▸ hb) (hto.symm ▸ ha)

theorem u8_lawful : u8.Lawful := by
  refine lawful_of_scalar (fun _ n => ?_) nofun nofun
  have hn : n.toNat < UInt64.size := Nat.lt_trans n.toNat_lt (by decide)
  exact decode_encodeNat hn n.toNat_lt UInt8.ofNat_toNat

theorem u32_lawful : u32.Lawful := by
  refine lawful_of_scalar (fun _ n => ?_) nofun nofun
  have hn : n.toNat < UInt64.size := Nat.lt_trans n.toNat_lt (by decide)
  exact decode_encodeNat hn n.toNat_lt UInt32.ofNat_toNat

theorem u64As_lawful (expected : Expected) : (u64As expected).Lawful := by
  refine lawful_of_scalar (fun _ n => ?_) nofun nofun
  exact decode_natural n.toNat_lt UInt64.ofNat_toNat

theorem toInt?_signedNumber (n : Int64) : (signedNumber n).toInt? = some n.toInt := by
  have hle := n.le_toInt
  have hlt := n.toInt_lt
  have hiff : n < 0 ↔ n.toInt < 0 := Int64.lt_iff_toInt_lt
  by_cases h : n < 0
  -- a negative integer is written as the distance from minus one
  · have hneg : n.toInt < 0 := hiff.mp h
    have hk : (-n.toInt - 1).toNat < 0x8000000000000000 := by omega
    simp only [signedNumber, h, if_true, Number.toInt?, Fin.ofNat, Nat.mod_eq_of_lt hk]
    congr 1
    omega
  · have hnat : 0 ≤ n.toInt := Int.not_lt.mp (mt hiff.mpr h)
    have hk : n.toInt.toNat < UInt64.size := by
      rw [UInt64.size]
      omega
    simp only [signedNumber, h, if_false, Number.toInt?, UInt64.toNat_ofNat_of_lt' hk,
      Int.toNat_of_nonneg hnat]

theorem signed?_toInt (n : Int64) : signed? n.toInt = some n := by
  rw [signed?, if_pos ⟨n.minValue_le_toInt, n.toInt_le⟩, Int64.ofInt_toInt]

theorem i64_lawful : i64.Lawful :=
  lawful_of_scalar (fun _ n => decodeInteger_number (toInt?_signedNumber n) (signed?_toInt n))
    nofun nofun

theorem f64_lawful : f64.Lawful :=
  lawful_of_scalar (fun _ _ => rfl) nofun nofun

/-! ### Other plain types -/

theorem bool_lawful : bool.Lawful :=
  lawful_of_scalar (fun _ _ => rfl) nofun nofun

theorem string_lawful : string.Lawful :=
  lawful_of_scalar (fun _ _ => rfl) nofun nofun

theorem unit_lawful : unit.Lawful where
  distinctKeys _ := trivial
  decode_encode setting _ := by cases setting <;> rfl
  decode_normalize {setting t a} h := by
    cases t with
    | object members =>
        cases members with
        | nil => exact h
        | cons => cases setting <;> cases h
    | array _ => cases setting <;> cases h
    | null | boolean _ | number _ | string _ => exact h
  decode_of_normalize {setting t a} _ h := by
    cases t with
    | object members =>
        cases members with
        | nil => exact h
        | cons m members =>
            obtain ⟨m', members', hcons⟩ := Tree.normalizeMembers_cons_eq_cons m members
            rw [Tree.normalize, hcons] at h
            cases setting <;> cases h
    | array _ => cases setting <;> cases h
    | null | boolean _ | number _ | string _ => exact h

/-- Every tree is decoded as the value that it means. -/
theorem value_lawful : value.Lawful where
  distinctKeys v := v.canonical.distinctKeys
  decode_encode _ v := congrArg Except.ok (Value.ofTree_tree v)
  decode_normalize {_ t _} h := (congrArg Except.ok (Value.ofTree_normalize t)).trans h
  decode_of_normalize {_ t _} _ h := (congrArg Except.ok (Value.ofTree_normalize t)).symm.trans h

/-! ### Lists -/

section
variable {codec : Codec α} (h : codec.Lawful) {setting : Setting}
include h

theorem Lawful.distinctKeysItems (as : List α) : Tree.DistinctKeysItems (as.map codec.encode) := by
  induction as with
  | nil => trivial
  | cons a as ih => exact ⟨h.distinctKeys a, ih⟩

theorem Lawful.mapM_decode_encode (as : List α) :
    (as.map codec.encode).mapM (codec.decode setting) = .ok as := by
  induction as with
  | nil => rfl
  | cons a as ih => exact mapM_cons_eq_ok.mpr ⟨a, h.decode_encode setting a, as, ih, rfl⟩

theorem Lawful.mapM_decode_normalize {items : List Tree} {as : List α}
    (hd : items.mapM (codec.decode setting) = .ok as) :
    (Tree.normalizeItems items).mapM (codec.decode setting) = .ok as := by
  induction items generalizing as with
  | nil => exact hd
  | cons t items ih =>
      obtain ⟨a, ha, as, has, rfl⟩ := mapM_cons_eq_ok.mp hd
      exact mapM_cons_eq_ok.mpr ⟨a, h.decode_normalize ha, as, ih has, rfl⟩

theorem Lawful.mapM_decode_of_normalize {items : List Tree} {as : List α}
    (hi : Tree.DistinctKeysItems items)
    (hd : (Tree.normalizeItems items).mapM (codec.decode setting) = .ok as) :
    items.mapM (codec.decode setting) = .ok as := by
  induction items generalizing as with
  | nil => exact hd
  | cons t items ih =>
      obtain ⟨a, ha, as, has, rfl⟩ := mapM_cons_eq_ok.mp hd
      exact mapM_cons_eq_ok.mpr ⟨a, h.decode_of_normalize hi.1 ha, as, ih hi.2 has, rfl⟩

end

theorem octets_lawful : octets.Lawful where
  distinctKeys ns := u8_lawful.distinctKeysItems ns
  decode_encode _ ns := u8_lawful.mapM_decode_encode ns
  decode_normalize {setting t ns} h := by
    cases t with
    | array items => exact u8_lawful.mapM_decode_normalize h
    | null | boolean _ | number _ | string _ | object _ => cases h
  decode_of_normalize {setting t ns} hi h := by
    cases t with
    | array items => exact u8_lawful.mapM_decode_of_normalize hi h
    | null | boolean _ | number _ | string _ | object _ => cases h

/-! ### Options -/

theorem decodeOption_of_ne {codec : Codec α} {setting : Setting} {t : Tree} (ht : t ≠ .null) :
    decodeOption codec setting t = some <$> codec.decode setting t := by
  cases t with
  | null => exact absurd rfl ht
  | boolean _ | number _ | string _ | array _ | object _ => rfl

theorem normalize_ne_null {t : Tree} (ht : t ≠ .null) : t.normalize ≠ .null := by
  cases t with
  | null => exact absurd rfl ht
  | boolean _ | number _ | string _ | array _ | object _ => exact nofun

/-- Null may stand for nothing if it stands for no value. -/
theorem Lawful.option {codec : Codec α} (h : codec.Lawful) (hn : ∀ a, codec.encode a ≠ .null) :
    (option codec).Lawful where
  distinctKeys a := by
    cases a with
    | none => trivial
    | some a => exact h.distinctKeys a
  decode_encode setting a := by
    cases a with
    | none => rfl
    | some a =>
        exact (decodeOption_of_ne (hn a)).trans (map_eq_ok.mpr ⟨a, h.decode_encode setting a, rfl⟩)
  decode_normalize {setting t a} hd := by
    by_cases ht : t = .null
    · subst ht; exact hd
    · obtain ⟨a, ha, rfl⟩ := map_eq_ok.mp ((decodeOption_of_ne ht).symm.trans hd)
      exact (decodeOption_of_ne (normalize_ne_null ht)).trans
        (map_eq_ok.mpr ⟨a, h.decode_normalize ha, rfl⟩)
  decode_of_normalize {setting t a} hi hd := by
    by_cases ht : t = .null
    · subst ht; exact hd
    · obtain ⟨a, ha, rfl⟩ :=
        map_eq_ok.mp ((decodeOption_of_ne (normalize_ne_null ht)).symm.trans hd)
      exact (decodeOption_of_ne ht).trans (map_eq_ok.mpr ⟨a, h.decode_of_normalize hi ha, rfl⟩)

end Codec

/-! ### Records -/

/-- The laws of a record type: its fields differ in name and are lawful, and a record is made of
its parts. -/
structure Record.Lawful {ρ α β : Type} (record : Record ρ α β) : Prop where
  names : record.first.name ≠ record.second.name
  first : record.first.codec.Lawful
  second : record.second.codec.Lawful
  make_parts : ∀ r, record.make (record.parts r).1 (record.parts r).2 = r

namespace Record.Lawful
variable {ρ α β : Type} {record : Record ρ α β}

theorem codec (h : record.Lawful) : record.codec.Lawful where
  distinctKeys r := by
    refine ⟨?_, h.first.distinctKeys _, h.second.distinctKeys _, trivial⟩
    simpa using h.names
  decode_encode setting r := by
    have hform : Form record setting (record.encode r)
        (record.make (record.parts r).1 (record.parts r).2) :=
      .object (by simp [Ne.symm h.names]) (by simp [h.names]) (h.first.decode_encode setting _)
        (h.second.decode_encode setting _)
    rw [h.make_parts] at hform
    exact (decode_eq_ok h.names).mpr hform
  decode_normalize {setting t r} hd := by
    refine (decode_eq_ok h.names).mpr ?_
    cases (decode_eq_ok h.names).mp hd with
    | object hfirst hsecond ha hb =>
        exact .object (Tree.under_normalizeMembers_of_singleton hfirst)
          (Tree.under_normalizeMembers_of_singleton hsecond) (h.first.decode_normalize ha)
          (h.second.decode_normalize hb)
    | array ha hb => exact .array (h.first.decode_normalize ha) (h.second.decode_normalize hb)
  decode_of_normalize {setting t r} hi hd := by
    refine (decode_eq_ok h.names).mpr ?_
    have hform := (decode_eq_ok h.names).mp hd
    cases t with
    | object members =>
        cases hform with
        | object hfirst hsecond ha hb =>
            obtain ⟨t, ht, rfl⟩ := Tree.under_of_normalizeMembers hi.1 hfirst
            obtain ⟨u, hu, rfl⟩ := Tree.under_of_normalizeMembers hi.1 hsecond
            have hit := hi.2.of_mem (ht ▸ List.mem_singleton_self t)
            have hiu := hi.2.of_mem (hu ▸ List.mem_singleton_self u)
            exact .object ht hu (h.first.decode_of_normalize hit ha)
              (h.second.decode_of_normalize hiu hb)
    | array items =>
        match items, hi, hform with
        | [], _, hform | [_], _, hform | _ :: _ :: _ :: _, _, hform => cases hform
        | [t, u], hi, .array ha hb =>
            exact .array (h.first.decode_of_normalize hi.1 ha)
              (h.second.decode_of_normalize hi.2.1 hb)
    | null | boolean _ | number _ | string _ => cases hform

end Record.Lawful

theorem Record.location_lawful : Record.location.Lawful where
  names := by decide
  first := Codec.u64As_lawful .coordinate
  second := Codec.u64As_lawful .coordinate
  make_parts _ := rfl

theorem Record.sourceFile_lawful : Record.sourceFile.Lawful where
  names := by decide
  first := Codec.string_lawful
  second := Codec.string_lawful
  make_parts _ := rfl

/-! ### Outcomes -/

theorem isScalar_of_decodeVariant {setting : Setting} {t : Tree} {v : Variant}
    (h : decodeVariant setting t = .ok v) : t.IsScalar := by
  cases t with
  | array _ | object _ => cases setting <;> cases h
  | null | boolean _ | number _ | string _ => trivial

theorem decodeVariant_tag (setting : Setting) (v : Variant) :
    decodeVariant setting (.string v.tag) = .ok v := by
  cases setting <;> cases v <;> rfl

section
variable {α β : Type} {values : Codec α} {reasons : Codec β}

theorem IsPayload.normalize {codec : Codec α} (h : codec.Lawful) {ts : List Tree} {a : α}
    (hp : IsPayload codec ts a) :
    IsPayload codec (ts.getLast?.map Tree.normalize).toList a := by
  cases hp with
  | present hd => exact .present (h.decode_normalize hd)
  | absent ha => exact .absent ha

theorem IsPayload.of_normalize {codec : Codec α} (h : codec.Lawful) {ts : List Tree}
    (hi : ∀ t ∈ ts, t.DistinctKeys) {a : α} (hp : IsPayload codec (ts.map Tree.normalize) a) :
    IsPayload codec ts a := by
  generalize hus : ts.map Tree.normalize = us at hp
  cases hp with
  | present hd =>
      obtain ⟨t, rfl, rfl⟩ := List.map_eq_singleton_iff.mp hus
      exact .present (h.decode_of_normalize (hi t (List.mem_singleton_self t)) hd)
  | absent ha =>
      rw [List.map_eq_nil_iff.mp hus]
      exact .absent ha

variable (hv : values.Lawful) (hr : reasons.Lawful)
include hv hr

theorem HasPayload.normalize {v : Variant} {ts : List Tree} {o : Outcome α β}
    (hp : HasPayload values reasons v ts o) :
    HasPayload values reasons v (ts.getLast?.map Tree.normalize).toList o := by
  cases hp with
  | ok hp => exact .ok (hp.normalize hv)
  | failure hp => exact .failure (hp.normalize hr)

theorem HasPayload.of_normalize {v : Variant} {ts : List Tree} (hi : ∀ t ∈ ts, t.DistinctKeys)
    {o : Outcome α β} (hp : HasPayload values reasons v (ts.map Tree.normalize) o) :
    HasPayload values reasons v ts o := by
  cases hp with
  | ok hp => exact .ok (hp.of_normalize hv hi)
  | failure hp => exact .failure (hp.of_normalize hr hi)

/-- **The laws of outcomes.**  They are handed on from the payloads. -/
theorem Codec.Lawful.outcome : (Codec.outcome values reasons).Lawful where
  distinctKeys o := by
    refine ⟨by simpa using Ne.symm (payloadField_ne_tagField o.variant), trivial, ?_, trivial⟩
    cases o with
    | ok a => exact hv.distinctKeys a
    | failure b => exact hr.distinctKeys b
  decode_encode setting o := by
    refine outcome_decode_eq_ok.mpr ?_
    cases o with
    | ok a =>
        exact .object (t := .string Variant.ok.tag) rfl (decodeVariant_tag setting .ok)
          (.ok (.present (hv.decode_encode .setAside a)))
    | failure b =>
        exact .object (t := .string Variant.failure.tag) rfl (decodeVariant_tag setting .failure)
          (.failure (.present (hr.decode_encode .setAside b)))
  decode_normalize {setting t o} hd := by
    refine outcome_decode_eq_ok.mpr ?_
    cases outcome_decode_eq_ok.mp hd with
    | object htag hvar hp =>
        refine .object (Tree.under_normalizeMembers_of_singleton htag) ?_
          (Tree.under_normalizeMembers .. ▸ hp.normalize hv hr)
        rwa [Tree.normalize_of_isScalar (isScalar_of_decodeVariant hvar)]
    | array hvar hp =>
        refine .array ?_ (hp.normalize hv hr)
        rwa [Tree.normalize_of_isScalar (isScalar_of_decodeVariant hvar)]
  decode_of_normalize {setting t o} hi hd := by
    refine outcome_decode_eq_ok.mpr ?_
    have hform := outcome_decode_eq_ok.mp hd
    cases t with
    | object members =>
        cases hform with
        | object htag hvar hp =>
            -- the tag is a scalar, and its own normal form
            obtain ⟨t, ht, rfl⟩ := Tree.under_of_normalizeMembers hi.1 htag
            rw [Tree.normalize_of_isScalar
              (Tree.isScalar_of_normalize (isScalar_of_decodeVariant hvar))] at hvar
            rw [Tree.under_normalizeMembers_of_nodup hi.1] at hp
            exact .object ht hvar (hp.of_normalize hv hr fun _ => hi.2.of_mem)
    | array items =>
        match items, hi, hform with
        | [], _, hform | [_], _, hform | _ :: _ :: _ :: _, _, hform => cases hform
        | [t, u], hi, .array hvar hp =>
            -- the tag is a scalar, and its own normal form
            rw [Tree.normalize_of_isScalar
              (Tree.isScalar_of_normalize (isScalar_of_decodeVariant hvar))] at hvar
            refine .array hvar (hp.of_normalize hv hr fun t ht => ?_)
            rw [List.mem_singleton.mp ht]
            exact hi.2.1
    | null | boolean _ | number _ | string _ => cases hform

end

/-- **The laws hold for every shape of payload.** -/
theorem Shape.codec_lawful : ∀ shape : Shape, shape.codec.Lawful
  | .u8 => Codec.u8_lawful
  | .u32 => Codec.u32_lawful
  | .u64 => Codec.u64As_lawful .u64
  | .i64 => Codec.i64_lawful
  | .f64 => Codec.f64_lawful
  | .bool => Codec.bool_lawful
  | .string => Codec.string_lawful
  | .unit => Codec.unit_lawful
  | .value => Codec.value_lawful
  | .octets => Codec.octets_lawful
  | .optionU32 => Codec.u32_lawful.option nofun
  | .location => Record.location_lawful.codec
  | .sourceFile => Record.sourceFile_lawful.codec
  | .outcome => Codec.u32_lawful.outcome Codec.string_lawful

end Intake.Wire
