import Intake.Proofs.Json.RoundTrip
import Intake.Proofs.Wire.RecordDecoder

/-!
# Records through their texts

A record can be written in three ways: as the object of its fields in the order of their
declaration, as the same object with its keys sorted, and as the array of its fields without their
names.  It is decoded from each of these texts, in one pass and by way of the untyped value, and
from its untyped form.  Of the values of the fields it is needed that they are scalars and no
doubles; then no text is nested too deep, and every one is read back as the tree that was printed.

* `Record.ReadsBack`: a text from which both decoders get a record.
* `Record.Plain.readsBack_text`: any printed tree from which a record is decoded.
* `Record.RoundTrips`, `Record.Plain.roundTrips`: the three texts and the untyped form.
* `records_roundTrip`: locations and source files.
-/

namespace Intake.Wire
open Intake.Json

section
variable {ρ α β : Type} {record : Record ρ α β} {r : ρ}

/-! ### Printed trees -/

/-- Both decoders get the record from the text. -/
structure Record.ReadsBack (record : Record ρ α β) (text : String) (r : ρ) : Prop where
  /-- The decoder that reads the text in one pass. -/
  pass : readRecord record text = .ok r
  /-- The decoder of untyped values, from the value of the text. -/
  value : ∃ v, Value.read text = .ok v ∧ record.codec.ofValue v = .ok r

/-- **Printed trees.**  What is decoded from a tree without doubles is decoded from its text. -/
theorem Record.Plain.readsBack_text (hp : record.Plain) (hl : record.Lawful) {t : Tree}
    (hd : t.DoubleFree) (hn : t.depth ≤ nestingLimit)
    (h : record.codec.decode .direct t = .ok r) : record.ReadsBack t.text r := by
  have hread : Tree.read t.text = .ok t := (Tree.read_text hd).trans (if_pos hn)
  refine ⟨(hp.readRecord_eq_ok hread).mpr h, .ofTree t, ?_, hl.codec.decode_normalize h⟩
  exact Value.read_eq_ok.mpr ⟨t, hread, rfl⟩

/-! ### The trees of a record -/

/-- The two fields of a record in the order of their declaration, without their names. -/
def Record.row (record : Record ρ α β) (r : ρ) : Tree :=
  .array [record.first.codec.encode (record.parts r).1,
    record.second.codec.encode (record.parts r).2]

/-- The record is decoded from everything that is written of it. -/
structure Record.RoundTrips (record : Record ρ α β) (r : ρ) : Prop where
  wire : record.ReadsBack (record.codec.wire r) r
  sorted : record.ReadsBack (record.codec.sorted r) r
  untyped : record.codec.ofValue (record.codec.untyped r) = .ok r
  row : record.ReadsBack (record.row r).text r

/-- The values of a plain field are written as scalars. -/
theorem Field.Plain.isScalar_encode {field : Field α} (hp : field.Plain) (hl : field.codec.Lawful)
    (a : α) : (field.codec.encode a).IsScalar :=
  hp.isScalar_of_decode (hl.decode_encode .direct a)

theorem Record.Plain.depth_row (hp : record.Plain) (hl : record.Lawful) (r : ρ) :
    (record.row r).depth = 1 := by
  have hfirst := Tree.depth_of_isScalar (hp.first.isScalar_encode hl.first (record.parts r).1)
  have hsecond := Tree.depth_of_isScalar (hp.second.isScalar_encode hl.second (record.parts r).2)
  rw [Record.row, Tree.depth, Tree.depthItems, Tree.depthItems, Tree.depthItems, hfirst, hsecond]
  rfl

theorem Record.Lawful.decode_row (hl : record.Lawful) (r : ρ) :
    record.codec.decode .direct (record.row r) = .ok r := by
  have hform : Record.Form record .direct (record.row r)
      (record.make (record.parts r).1 (record.parts r).2) :=
    .array (hl.first.decode_encode .direct _) (hl.second.decode_encode .direct _)
  rw [hl.make_parts] at hform
  exact (Record.decode_eq_ok hl.names).mpr hform

/-- **The round trip of records.**  The names of the fields add nothing to the depth of a record,
and no double. -/
theorem Record.Plain.roundTrips (hp : record.Plain) (hl : record.Lawful)
    (hd : (record.row r).DoubleFree) : record.RoundTrips r := by
  have hrow : (record.row r).depth ≤ nestingLimit := by
    rw [hp.depth_row hl r]
    decide
  have hobject : (record.encode r).depth ≤ nestingLimit := hrow
  have hfree : (record.encode r).DoubleFree := hd
  have hsorted : (record.encode r).normalize.depth ≤ nestingLimit :=
    Nat.le_trans (Nat.le_of_eq (Tree.depth_normalize (hl.codec.distinctKeys r))) hobject
  have hdecode := hl.codec.decode_encode .direct r
  constructor
  · exact hp.readsBack_text hl hfree hobject hdecode
  · exact hp.readsBack_text hl hfree.normalize hsorted (hl.codec.decode_normalize hdecode)
  · exact hl.codec.ofValue_untyped r
  · exact hp.readsBack_text hl hd hrow (hl.decode_row r)

end

/-- **Records through their texts.**  Every location and every source file is decoded from its wire
text, from its sorted text, from its untyped form, and from the text of the array of its two fields:
the line before the column, and the path before the contents. -/
theorem records_roundTrip :
    (∀ l : Location, Record.location.RoundTrips l ∧
      Record.location.row l = .array [.number (.natural l.line), .number (.natural l.column)]) ∧
    ∀ file : SourceFile, Record.sourceFile.RoundTrips file ∧
      Record.sourceFile.row file = .array [.string file.path, .string file.contents] := by
  constructor
  · intro l
    exact ⟨Record.location_plain.roundTrips Record.location_lawful ⟨id, id, trivial⟩, rfl⟩
  · intro file
    exact ⟨Record.sourceFile_plain.roundTrips Record.sourceFile_lawful
      ⟨trivial, trivial, trivial⟩, rfl⟩

end Intake.Wire
