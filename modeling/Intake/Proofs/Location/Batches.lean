import Intake.Proofs.Location.Scan

/-!
# Scanning in batches

A scanner need not look at one character after the other.  It may cut its text into pieces, each a
line feed or a run of characters without one, and take each piece in one move.  However the text is
cut, and wherever the scan starts, it ends in the same place: inside a run the columns add up, and
where they saturate, the sum of any two parts of the run saturates as well.

* `Piece`: what is taken in one move.
* `pass_eq_scan`: the move over a piece is the scan of its characters.
* `foldl_pass`: the moves over all pieces of a text are the scan of the text.
-/

namespace Intake.Location

/-- What a scanner takes in one move: a line feed, or a run of characters without one, of which
there are no more than a count of columns holds. -/
inductive Piece where
  | lineFeed
  | run (text : List Char) (plain : '\n' ∉ text) (fits : text.length ≤ UInt64.size - 1)

/-- The characters of a piece. -/
def Piece.text : Piece → List Char
  | lineFeed => ['\n']
  | run text _ _ => text

/-- The move over a piece. -/
def pass (l : Location) : Piece → Location
  | .lineFeed => l.newline
  | .run text _ _ => l.advance (.ofNat text.length)

theorem scan_append (l : Location) (text behind : List Char) :
    l.scan (text ++ behind) = (l.scan text).scan behind :=
  List.foldl_append

/-- A run moves to the right by its length. -/
theorem advance_length {text : List Char} (plain : '\n' ∉ text) (fits : text.length ≤ UInt64.size - 1)
    (l : Location) : l.advance (.ofNat text.length) = l.scan text := by
  have hlength : (UInt64.ofNat text.length).toNat = text.length :=
    UInt64.toNat_ofNat_of_lt' (Nat.lt_of_le_pred (by decide) fits)
  have hcolumn : saturatingAdd l.column (.ofNat text.length) = (l.scan text).column := by
    rw [← UInt64.toNat_inj, toNat_saturatingAdd, hlength, toNat_column_scan_of_notMem plain]
  rw [advance, hcolumn, ← line_scan_of_notMem plain l]

/-- **One piece.**  The move over a piece is the scan of its characters. -/
theorem pass_eq_scan (l : Location) (piece : Piece) : l.pass piece = l.scan piece.text := by
  cases piece with
  | lineFeed => rfl
  | run text plain fits => exact advance_length plain fits l

/-- **All pieces.**  However a text is cut into pieces, the moves over them end where the scan of
the text one character after the other ends. -/
theorem foldl_pass (l : Location) (pieces : List Piece) :
    pieces.foldl pass l = l.scan (pieces.flatMap Piece.text) := by
  induction pieces generalizing l with
  | nil => rfl
  | cons piece pieces ih => rw [List.foldl_cons, List.flatMap_cons, scan_append, pass_eq_scan, ih]

end Intake.Location
