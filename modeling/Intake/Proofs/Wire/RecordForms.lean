import Intake.Proofs.Json.Members
import Intake.Proofs.Wire.Grammar

/-!
# The values of records

An untyped value is decoded as a record if it holds the two fields of the record: under their names
if it is an object, where other members do not matter, or in the order of their declaration if it is
an array, which must then hold nothing else.  What each field may be is known apart: a coordinate is
an integer that has 64 bits and no sign, and a double is none, whatever its value; a text is a
string.

* `Value.HoldsPair`: two trees in a value, by name or by position.
* `Record.ofValue_eq_ok`: the values of any record type.
* `Tree.integer?`, `Codec.u64As_decode_eq_ok`: the values of a coordinate.
* `ofValue_record_iff`: the values of locations and of source files.
-/

namespace Intake.Json

/-- The value is an object with the two trees under the two names, or the array of the two. -/
inductive Value.HoldsPair (v : Value) (first second : String) (t u : Tree) : Prop where
  | named (ht : v.member? first = some t) (hu : v.member? second = some u)
  | placed (h : v.tree = .array [t, u])

/-- The integer that a tree is; a double is no integer. -/
def Tree.integer? : Tree → Option Int
  | .number n => n.toInt?
  | _ => none

end Intake.Json

namespace Intake.Wire
open Intake.Json
open Intake.Json.Tree (under)

/-! ### Record types -/

section
variable {ρ α β : Type} {record : Record ρ α β}

/-- **The values of a record type.**  A value is decoded as a record if it holds both fields and
each of them is decoded. -/
theorem Record.ofValue_eq_ok (hne : record.first.name ≠ record.second.name) {v : Value} {r : ρ} :
    record.codec.ofValue v = .ok r ↔
      ∃ t u a b, v.HoldsPair record.first.name record.second.name t u ∧
        record.first.codec.decode .direct t = .ok a ∧
        record.second.codec.decode .direct u = .ok b ∧ record.make a b = r := by
  rw [Codec.ofValue, Record.decode_eq_ok hne]
  constructor
  · intro h
    generalize hv : v.tree = tree at h
    cases h with
    | object ht hu ha hb =>
        have hfirst := Value.member?_eq_some_iff.mpr ⟨_, hv, ht⟩
        have hsecond := Value.member?_eq_some_iff.mpr ⟨_, hv, hu⟩
        exact ⟨_, _, _, _, .named hfirst hsecond, ha, hb, rfl⟩
    | array ha hb => exact ⟨_, _, _, _, .placed hv, ha, hb, rfl⟩
  · rintro ⟨t, u, a, b, hpair, ha, hb, rfl⟩
    cases hpair with
    | named ht hu =>
        obtain ⟨members, hv, ht⟩ := Value.member?_eq_some_iff.mp ht
        have hsecond : under record.second.name members = [u] := by
          rw [← Value.toList_member? hv, hu]
          rfl
        rw [hv]
        exact .object ht hsecond ha hb
    | placed hv =>
        rw [hv]
        exact .array ha hb

end

/-! ### Fields -/

section
variable {setting : Setting} {t : Tree}

theorem Codec.natBelow?_eq_some {bound n : Nat} {i : Int} :
    Codec.natBelow? bound i = some n ↔ i = n ∧ n < bound := by
  cases i with
  | ofNat m =>
      rw [Codec.natBelow?, Int.ofNat_eq_natCast, Int.natCast_inj]
      by_cases hm : m < bound
      · rw [if_pos hm, Option.some.injEq]
        exact ⟨fun h => ⟨h, h ▸ hm⟩, fun h => h.1⟩
      · rw [if_neg hm]
        exact ⟨nofun, fun h => absurd (h.1 ▸ h.2) hm⟩
  | negSucc k => exact ⟨nofun, fun h => (by cases h.1)⟩

theorem Codec.decodeInteger_eq_ok {α : Type} {expected : Expected} {ofInt? : Int → Option α}
    {a : α} :
    Codec.decodeInteger expected ofInt? t = .ok a ↔
      ∃ i, t.integer? = some i ∧ ofInt? i = some a := by
  cases t with
  | number n =>
      rw [Codec.decodeInteger, Tree.integer?]
      cases hn : n.toInt? with
      | none => simp [Codec.refuse]
      | some i =>
          cases ha : ofInt? i with
          | none => simp [ha]
          | some b => simp [ha]
  | null | boolean _ | string _ | array _ | object _ =>
      simp [Codec.decodeInteger, Codec.refuse, Tree.integer?]

/-- **The values of a coordinate.**  It is decoded from its integer and from nothing else. -/
theorem Codec.u64As_decode_eq_ok {expected : Expected} {n : UInt64} :
    (Codec.u64As expected).decode setting t = .ok n ↔ t.integer? = some (n.toNat : Int) := by
  change Codec.decodeInteger expected (fun i => (Codec.natBelow? UInt64.size i).map .ofNat) t =
    .ok n ↔ _
  simp only [Codec.decodeInteger_eq_ok, Option.map_eq_some_iff, Codec.natBelow?_eq_some]
  constructor
  · rintro ⟨_, hi, m, ⟨rfl, hm⟩, rfl⟩
    rw [UInt64.toNat_ofNat_of_lt' hm]
    exact hi
  · intro h
    exact ⟨_, h, n.toNat, ⟨rfl, n.toNat_lt⟩, UInt64.ofNat_toNat⟩

theorem Codec.string_decode_eq_ok {s : String} :
    Codec.string.decode setting t = .ok s ↔ t = .string s := by
  cases t with
  | string s' =>
      rw [Tree.string.injEq]
      exact ⟨Except.ok.inj, congrArg Except.ok⟩
  | null | boolean _ | number _ | array _ | object _ => exact ⟨nofun, nofun⟩

end

/-! ### Locations and source files -/

section
variable {v : Value}

theorem location_ofValue_eq_ok {l : Location} :
    Record.location.codec.ofValue v = .ok l ↔
      ((v.member? "line_number").bind Tree.integer? = some (l.line.toNat : Int) ∧
          (v.member? "column").bind Tree.integer? = some (l.column.toNat : Int)) ∨
        ∃ t u, v.tree = .array [t, u] ∧ t.integer? = some (l.line.toNat : Int) ∧
          u.integer? = some (l.column.toNat : Int) := by
  rw [Record.ofValue_eq_ok (by decide)]
  simp only [Option.bind_eq_some_iff]
  constructor
  · rintro ⟨t, u, line, column, hpair, hline, hcolumn, rfl⟩
    have hline := Codec.u64As_decode_eq_ok.mp hline
    have hcolumn := Codec.u64As_decode_eq_ok.mp hcolumn
    cases hpair with
    | named ht hu => exact Or.inl ⟨⟨t, ht, hline⟩, u, hu, hcolumn⟩
    | placed hv => exact Or.inr ⟨t, u, hv, hline, hcolumn⟩
  · rintro (⟨⟨t, ht, hline⟩, u, hu, hcolumn⟩ | ⟨t, u, hv, hline, hcolumn⟩)
    · exact ⟨t, u, l.line, l.column, .named ht hu, Codec.u64As_decode_eq_ok.mpr hline,
        Codec.u64As_decode_eq_ok.mpr hcolumn, rfl⟩
    · exact ⟨t, u, l.line, l.column, .placed hv, Codec.u64As_decode_eq_ok.mpr hline,
        Codec.u64As_decode_eq_ok.mpr hcolumn, rfl⟩

theorem sourceFile_ofValue_eq_ok {file : SourceFile} :
    Record.sourceFile.codec.ofValue v = .ok file ↔
      (v.member? "file_path" = some (.string file.path) ∧
          v.member? "file_contents" = some (.string file.contents)) ∨
        v.tree = .array [.string file.path, .string file.contents] := by
  rw [Record.ofValue_eq_ok (by decide)]
  constructor
  · rintro ⟨t, u, path, contents, hpair, hpath, hcontents, rfl⟩
    obtain rfl := Codec.string_decode_eq_ok.mp hpath
    obtain rfl := Codec.string_decode_eq_ok.mp hcontents
    cases hpair with
    | named ht hu => exact Or.inl ⟨ht, hu⟩
    | placed hv => exact Or.inr hv
  · rintro (⟨ht, hu⟩ | hv)
    · exact ⟨_, _, file.path, file.contents, .named ht hu, rfl, rfl, rfl⟩
    · exact ⟨_, _, file.path, file.contents, .placed hv, rfl, rfl, rfl⟩

end

/-- **The values of records.**  A location is decoded from an object whose line number and column
are the integers of the location, whatever else the object holds, or from the array of the two, the
line before the column; a source file from an object that holds its path and its contents under
their names, or from the array of the two strings.  Nothing else is decoded. -/
theorem ofValue_record_iff (v : Value) :
    (∀ l : Location, Record.location.codec.ofValue v = .ok l ↔
      ((v.member? "line_number").bind Tree.integer? = some (l.line.toNat : Int) ∧
          (v.member? "column").bind Tree.integer? = some (l.column.toNat : Int)) ∨
        ∃ t u, v.tree = .array [t, u] ∧ t.integer? = some (l.line.toNat : Int) ∧
          u.integer? = some (l.column.toNat : Int)) ∧
    ∀ file : SourceFile, Record.sourceFile.codec.ofValue v = .ok file ↔
      (v.member? "file_path" = some (.string file.path) ∧
          v.member? "file_contents" = some (.string file.contents)) ∨
        v.tree = .array [.string file.path, .string file.contents] :=
  ⟨fun _ => location_ofValue_eq_ok, fun _ => sourceFile_ofValue_eq_ok⟩

/-- In an array the line stands before the column. -/
example : Record.location.codec.ofValue
    (.ofTree (.array [.number (.natural 7), .number (.natural 12)])) = .ok ⟨7, 12⟩ := rfl

end Intake.Wire
