/-!
# Source files and locations

A source file is a text and where it came from.  Files read from disk bear their resolved absolute
path; a text from elsewhere may bear any label.

A location is the coordinate that a scanner threads through its text: lines count from one, columns
from zero, both in 64 bits that saturate.  It knows nothing about characters; whoever scans decides
whether a character moves to the right or to the next line.

* `SourceFile`: a text with its label.
* `Location.advance`, `Location.newline`: the two moves.
* `Location.scan`: the location after a text, character by character.
* `Location` is ordered by line, then by column: reading order.
* `Location.sort`: a list in reading order.
-/

namespace Intake

/-! ### Source files -/

/-- A text and where it came from. -/
structure SourceFile where
  /-- Where the text came from. -/
  path : String
  /-- The whole text. -/
  contents : String
deriving DecidableEq

namespace SourceFile

/-- Whether the text is empty. -/
def isEmpty (file : SourceFile) : Bool := file.contents.isEmpty

/-- The path and the contents. -/
def parts (file : SourceFile) : String × String := (file.path, file.contents)

end SourceFile

/-! ### Locations -/

/-- A position in a text. -/
structure Location where
  /-- The line, counted from one. -/
  line : UInt64
  /-- How many characters stand before it on its line. -/
  column : UInt64
deriving DecidableEq

namespace Location

/-- The line on which every text starts. -/
def firstLine : UInt64 := 1

/-- The column in which every line starts. -/
def firstColumn : UInt64 := 0

/-- The sum of two counts, or the greatest count if there is no room for it. -/
def saturatingAdd (m n : UInt64) : UInt64 := .ofNat (min (m.toNat + n.toNat) (UInt64.size - 1))

/-- Where every text starts. -/
def start : Location := ⟨firstLine, firstColumn⟩

instance : Inhabited Location := ⟨start⟩

/-- A column of the first line. -/
def atColumn (column : UInt64) : Location := ⟨firstLine, column⟩

/-! ### Moves -/

/-- Some columns to the right, with no line crossed. -/
def advance (l : Location) (amount : UInt64) : Location :=
  { l with column := saturatingAdd l.column amount }

/-- The start of the next line. -/
def newline (l : Location) : Location := ⟨saturatingAdd l.line 1, firstColumn⟩

/-- The location after one character: a line feed ends the line, anything else takes one column. -/
def next (l : Location) (c : Char) : Location := if c = '\n' then l.newline else l.advance 1

/-- The location after a text. -/
def scan (l : Location) (text : List Char) : Location := text.foldl next l

/-! ### Reading order -/

/-- Reading order: by line, then by column. -/
def compare (l m : Location) : Ordering :=
  (Ord.compare l.line m.line).then (Ord.compare l.column m.column)

instance : Ord Location := ⟨compare⟩

instance : LE Location := ⟨fun l m => l.line < m.line ∨ l.line = m.line ∧ l.column ≤ m.column⟩

instance : LT Location := ⟨fun l m => l.line < m.line ∨ l.line = m.line ∧ l.column < m.column⟩

instance (l m : Location) : Decidable (l ≤ m) :=
  inferInstanceAs (Decidable (l.line < m.line ∨ l.line = m.line ∧ l.column ≤ m.column))

instance (l m : Location) : Decidable (l < m) :=
  inferInstanceAs (Decidable (l.line < m.line ∨ l.line = m.line ∧ l.column < m.column))

instance : Max Location := ⟨fun l m => if l ≤ m then m else l⟩

/-- The locations in reading order. -/
def sort (locations : List Location) : List Location :=
  locations.mergeSort fun l m => decide (l ≤ m)

/-- The line and the column with a colon between them. -/
def text (l : Location) : String :=
  String.ofList (Nat.toDigits 10 l.line.toNat ++ ':' :: Nat.toDigits 10 l.column.toNat)

end Location

end Intake
