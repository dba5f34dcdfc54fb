import Intake.Proofs.Json.Blanks
import Intake.Proofs.Json.Reordering
import Intake.Proofs.Wire.TextDecoder

/-!
# The two decoders agree

An outcome can be decoded straight from a text, or from the untyped value of the text.  What the
first accepts the second accepts, with the same outcome.  The converse holds where no object of the
text repeats a key; where one does, the value has kept the last of what stood under the key, and the
text decoder may have refused the second.

It follows that neither the order of members nor the blanks between tokens make a difference.

* `readOutcome_of_ofValue`: from the value to the text.
* `readOutcome_congr`: texts with the same value.
* `readOutcome_agrees`: the agreement for payloads of every shape.
-/

namespace Intake.Wire
open Intake.Json

section
variable {α β : Type} {values : Codec α} {reasons : Codec β} {text text' : String} {t t' : Tree}
  {o : Outcome α β}

/-- Texts of the same tree are decoded alike, even if the tree repeats a key. -/
theorem readOutcome_congr_tree (ht : Tree.read text = .ok t) (ht' : Tree.read text' = .ok t) :
    readOutcome values reasons text = .ok o ↔ readOutcome values reasons text' = .ok o := by
  simp only [readOutcome_eq_ok, ht, ht']

variable (hv : values.Lawful) (hr : reasons.Lawful)
include hv hr

/-- What is decoded from a text is decoded from its value. -/
theorem ofValue_of_readOutcome (h : readOutcome values reasons text = .ok o) :
    ∃ v, Value.read text = .ok v ∧ (Codec.outcome values reasons).ofValue v = .ok o := by
  obtain ⟨t, ht, hd⟩ := readOutcome_eq_ok.mp h
  exact ⟨.ofTree t, Value.read_eq_ok.mpr ⟨t, ht, rfl⟩, (hv.outcome hr).decode_normalize hd⟩

/-- What is decoded from the value of a text that repeats no key is decoded from the text. -/
theorem readOutcome_of_ofValue (ht : Tree.read text = .ok t) (hk : t.DistinctKeys)
    (h : (Codec.outcome values reasons).ofValue (.ofTree t) = .ok o) :
    readOutcome values reasons text = .ok o :=
  readOutcome_eq_ok.mpr ⟨t, ht, (hv.outcome hr).decode_of_normalize hk h⟩

theorem readOutcome_iff_ofValue (ht : Tree.read text = .ok t) (hk : t.DistinctKeys) :
    readOutcome values reasons text = .ok o ↔
      (Codec.outcome values reasons).ofValue (.ofTree t) = .ok o := by
  constructor
  · intro h
    obtain ⟨v, hread, hd⟩ := ofValue_of_readOutcome hv hr h
    obtain ⟨u, hu, rfl⟩ := Value.read_eq_ok.mp hread
    rw [ht] at hu
    cases hu
    exact hd
  · exact readOutcome_of_ofValue hv hr ht hk

/-- Texts that repeat no key and have the same value are decoded alike. -/
theorem readOutcome_congr (ht : Tree.read text = .ok t) (ht' : Tree.read text' = .ok t')
    (hk : t.DistinctKeys) (hk' : t'.DistinctKeys) (he : t.normalize = t'.normalize) :
    readOutcome values reasons text = .ok o ↔ readOutcome values reasons text' = .ok o := by
  rw [readOutcome_iff_ofValue hv hr ht hk, readOutcome_iff_ofValue hv hr ht' hk',
    Value.ext (v := .ofTree t) (w := .ofTree t') he]

end

/-- **The two decoders agree.**  For payloads of every shape: what is decoded from a text is decoded
from its value; the converse holds for texts that repeat no key; and for such texts the order of
members makes no difference, and for any texts the blanks between tokens make none. -/
theorem readOutcome_agrees (S E : Shape) :
    (∀ text o, readOutcome S.codec E.codec text = .ok o →
      ∃ v, Value.read text = .ok v ∧ (Codec.outcome S.codec E.codec).ofValue v = .ok o) ∧
    (∀ text t v o, Tree.read text = .ok t → t.DistinctKeys → Value.read text = .ok v →
      (Codec.outcome S.codec E.codec).ofValue v = .ok o →
        readOutcome S.codec E.codec text = .ok o) ∧
    (∀ text text' t t' o, Tree.read text = .ok t → Tree.read text' = .ok t' → t.DistinctKeys →
      t.Reordered t' →
        (readOutcome S.codec E.codec text = .ok o ↔ readOutcome S.codec E.codec text' = .ok o)) ∧
    (∀ text text' t t' o, Tree.read text = .ok t → Tree.read text' = .ok t' →
      squeeze .outside text.toList = squeeze .outside text'.toList →
        (readOutcome S.codec E.codec text = .ok o ↔
          readOutcome S.codec E.codec text' = .ok o)) := by
  have hS := S.codec_lawful
  have hE := E.codec_lawful
  refine ⟨fun text o h => ofValue_of_readOutcome hS hE h, ?_, ?_, ?_⟩
  · intro text t v o ht hk hread h
    obtain ⟨u, hu, rfl⟩ := Value.read_eq_ok.mp hread
    rw [ht] at hu
    cases hu
    exact readOutcome_of_ofValue hS hE ht hk h
  · intro text text' t t' o ht ht' hk hre
    obtain ⟨hk', he⟩ := hre.normalize_eq hk
    exact readOutcome_congr hS hE ht ht' hk hk' he
  · intro text text' t t' o ht ht' hs
    obtain rfl := Tree.read_eq_of_squeeze ht ht' hs
    exact readOutcome_congr_tree ht ht'

/-! ### A text, the same with its members exchanged, and the same with blanks -/

/-- The text of a success, as an encoder writes it. -/
def compact : String := "\x7b\"tag\":\"ok\",\"value\":7\x7d"

/-- The payload in front of the tag. -/
def exchanged : String := "\x7b\"value\":7,\"tag\":\"ok\"\x7d"

/-- Blanks wherever they may stand. -/
def spaced : String := "\x7b \"tag\" : \"ok\", \"value\" : 7 \x7d"

/-- The tree in `compact`, and in `spaced`. -/
def compactTree : Tree := .object [("tag", .string "ok"), ("value", .number (.natural 7))]

/-- The tree in `exchanged`. -/
def exchangedTree : Tree := .object [("value", .number (.natural 7)), ("tag", .string "ok")]

theorem distinctKeys_compactTree : compactTree.DistinctKeys :=
  ⟨by decide, trivial, trivial, trivial⟩

/-- One success carries over from the value to the text and to both variations of it. -/
theorem readOutcome_agrees_compact :
    (∃ v, Value.read compact = .ok v ∧
        (Codec.outcome Shape.u8.codec Shape.string.codec).ofValue v = .ok (.ok 7)) ∧
      readOutcome Shape.u8.codec Shape.string.codec compact = .ok (.ok 7) ∧
      readOutcome Shape.u8.codec Shape.string.codec exchanged = .ok (.ok 7) ∧
      readOutcome Shape.u8.codec Shape.string.codec spaced = .ok (.ok 7) := by
  have hspec := readOutcome_agrees .u8 .string
  have hcompact : Tree.read compact = .ok compactTree := rfl
  have hexchanged : Tree.read exchanged = .ok exchangedTree := rfl
  have hspaced : Tree.read spaced = .ok compactTree := rfl
  have hvalue : (Codec.outcome Shape.u8.codec Shape.string.codec).ofValue (.ofTree compactTree) =
      .ok (.ok 7) := rfl
  have hsqueeze : squeeze .outside compact.toList = squeeze .outside spaced.toList := by
    decide
  have hdirect := hspec.2.1 compact compactTree (.ofTree compactTree) (.ok 7) hcompact
    distinctKeys_compactTree (Value.read_eq_ok.mpr ⟨_, hcompact, rfl⟩) hvalue
  refine ⟨hspec.1 compact (.ok 7) hdirect, hdirect, ?_, ?_⟩
  · exact (hspec.2.2.1 compact exchanged compactTree exchangedTree (.ok 7) hcompact hexchanged
      distinctKeys_compactTree (.members (.swap ..))).mp hdirect
  · exact (hspec.2.2.2 compact spaced compactTree compactTree (.ok 7) hcompact hspaced
      hsqueeze).mp hdirect

end Intake.Wire
