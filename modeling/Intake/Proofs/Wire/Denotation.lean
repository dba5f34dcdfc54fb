import Intake.Proofs.Json.RoundTrip
import Intake.Proofs.Wire.Codec

/-!
# What the texts of a value mean

A value of a type has two texts: its wire text, written from the type with fields in the order of
their declaration, and its sorted text, written from the untyped form with keys in ascending order.
Read as untyped values, both mean the untyped form, or are both nested too deep.

Each text is that of a tree, and is read back as that tree.  The two trees have one normal form, and
since the encoders repeat no key, they are equally deep.

* `Value.read_text`: a value and its own text.
* `Codec.ReadsAs`: what both texts of a value are read as.
* `Codec.Lawful.readsAs`: the texts of any lawful codec.
* `readsAs_untyped`: outcomes with payloads of every shape, locations and source files.
-/

namespace Intake.Json

/-- A value without doubles is read back from its text, as far as the nesting limit allows. -/
theorem Value.read_text {v : Value} (hd : v.tree.DoubleFree) :
    Value.read v.text = if v.tree.depth ≤ nestingLimit then .ok v else .error .badSyntax := by
  rw [Value.read, Value.text, Tree.read_text hd]
  split
  · exact congrArg Except.ok (Value.ofTree_tree v)
  · rfl

end Intake.Json

namespace Intake.Wire
open Intake.Json

section
variable {α : Type} {codec : Codec α} {a : α}

/-- What both texts of a value are read as. -/
def Codec.ReadsAs (codec : Codec α) (a : α) (result : Except Malformed Value) : Prop :=
  Value.read (codec.wire a) = result ∧ Value.read (codec.sorted a) = result

/-- **The two texts** of a value whose tree has no doubles. -/
theorem Codec.Lawful.readsAs (h : codec.Lawful) (hd : (codec.encode a).DoubleFree) :
    codec.ReadsAs a (if (codec.encode a).depth ≤ nestingLimit then .ok (codec.untyped a)
      else .error .badSyntax) := by
  constructor
  · rw [Codec.wire, Value.read, Tree.read_text hd]
    split
    · rfl
    · rfl
  · rw [Codec.sorted, Value.read_text hd.normalize, ← Tree.depth_normalize (h.distinctKeys a)]
    rfl

/-- The same for a value whose untyped form has no doubles. -/
theorem Codec.Lawful.readsAs_of_untyped (h : codec.Lawful)
    (hd : (codec.untyped a).tree.DoubleFree) :
    codec.ReadsAs a (if (codec.untyped a).tree.depth ≤ nestingLimit then .ok (codec.untyped a)
      else .error .badSyntax) := by
  have hkeys := h.distinctKeys a
  have hall := h.readsAs (Tree.DoubleFree.of_normalize hkeys hd)
  rwa [← Tree.depth_normalize hkeys] at hall

end

theorem location_readsAs (l : Location) :
    Record.location.codec.ReadsAs l (.ok (Record.location.codec.untyped l)) :=
  Record.location_lawful.codec.readsAs ⟨id, id, trivial⟩

theorem sourceFile_readsAs (file : SourceFile) :
    Record.sourceFile.codec.ReadsAs file (.ok (Record.sourceFile.codec.untyped file)) :=
  Record.sourceFile_lawful.codec.readsAs ⟨trivial, trivial, trivial⟩

/-- **The encoders agree.**  For payloads of every shape: if the untyped form of an outcome has no
doubles, then both its texts are read as the untyped form if this is nested at most 127 levels deep,
and are both faults of syntax otherwise.  The two texts of a location or of a source file are always
read as its untyped form. -/
theorem readsAs_untyped (S E : Shape) :
    (∀ o : Outcome S.Carrier E.Carrier,
      ((Codec.outcome S.codec E.codec).untyped o).tree.DoubleFree →
        (Codec.outcome S.codec E.codec).ReadsAs o
          (if ((Codec.outcome S.codec E.codec).untyped o).tree.depth ≤ 127
            then .ok ((Codec.outcome S.codec E.codec).untyped o) else .error .badSyntax)) ∧
      (∀ l : Location, Record.location.codec.ReadsAs l (.ok (Record.location.codec.untyped l))) ∧
      ∀ file : SourceFile,
        Record.sourceFile.codec.ReadsAs file (.ok (Record.sourceFile.codec.untyped file)) := by
  refine ⟨fun o hd => ?_, location_readsAs, sourceFile_readsAs⟩
  exact (S.codec_lawful.outcome E.codec_lawful).readsAs_of_untyped hd

/-- The members of the location stand in one order in the wire text, and in the other in the sorted
text. -/
theorem readsAs_untyped_location :
    Value.read "\x7b\"tag\":\"ok\",\"value\":\x7b\"line_number\":7,\"column\":12\x7d\x7d" =
        Value.read "\x7b\"tag\":\"ok\",\"value\":\x7b\"column\":12,\"line_number\":7\x7d\x7d" ∧
      Value.read "\x7b\"tag\":\"ok\",\"value\":\x7b\"line_number\":7,\"column\":12\x7d\x7d" =
        .ok ((Codec.outcome Shape.location.codec Shape.string.codec).untyped (.ok ⟨7, 12⟩)) := by
  have hfree : ((Codec.outcome Shape.location.codec Shape.string.codec).untyped
      (.ok ⟨7, 12⟩)).tree.DoubleFree :=
    Tree.DoubleFree.normalize ⟨trivial, ⟨id, id, trivial⟩, trivial⟩
  obtain ⟨hwire, hsorted⟩ := (readsAs_untyped .location .string).1 (.ok ⟨7, 12⟩) hfree
  exact ⟨hwire.trans hsorted.symm, hwire⟩

end Intake.Wire
