import Intake.Proofs.Location.Order

/-!
# Moves

A scanner that knows what it passes makes its moves itself, in any sequence and by any amounts.  Two
scanners that make the same moves keep the order of their starts: to the right both columns grow by
the same amount, and a line feed takes both to the same column.  They may come together where a
count saturates, and where a line feed ends two lines that are the same.

* `Move`, `run`: a move, and the location after a sequence of moves.
* `toNat_line_run`, `one_le_line_run_iff`: the line counts the line feeds.
* `run_le_run`: the same moves keep the order.
* `run_keeps_order`: the order of two runs, and the lines along one.
-/

namespace Intake.Location

/-- A move of a scanner. -/
inductive Move where
  | advance (amount : UInt64)
  | newline
deriving DecidableEq

/-- The location after a move. -/
def move (l : Location) : Move → Location
  | .advance amount => l.advance amount
  | .newline => l.newline

/-- The location after a sequence of moves. -/
def run (l : Location) (moves : List Move) : Location := moves.foldl move l

variable {l m : Location}

theorem run_append (l : Location) (moves later : List Move) :
    l.run (moves ++ later) = (l.run moves).run later :=
  List.foldl_append

/-! ### The line -/

/-- **The line.**  Every line feed adds one to the line, and no other move changes it. -/
theorem toNat_line_run (l : Location) (moves : List Move) :
    (l.run moves).line.toNat = min (l.line.toNat + moves.count .newline) (UInt64.size - 1) := by
  induction moves generalizing l with
  | nil => exact (Nat.min_eq_left (toNat_le_greatest l.line)).symm
  | cons step moves ih =>
      cases step with
      | advance amount =>
          have hne : Move.advance amount ≠ .newline := nofun
          rw [List.count_cons_of_ne hne]
          exact ih (l.advance amount)
      | newline =>
          have hline : (l.run (.newline :: moves)).line.toNat =
            min (l.newline.line.toNat + moves.count .newline) (UInt64.size - 1) := ih l.newline
          rw [hline, newline, toNat_saturatingAdd, List.count_cons_self, UInt64.toNat_one]
          omega

theorem line_le_line_run (l : Location) (moves : List Move) : l.line ≤ (l.run moves).line := by
  have hle := toNat_le_greatest l.line
  rw [UInt64.le_iff_toNat_le, toNat_line_run]
  omega

/-- Line zero is left by a line feed and by no other move, and no move leads back to it. -/
theorem one_le_line_run_iff (l : Location) (moves : List Move) :
    1 ≤ (l.run moves).line ↔ (l.line = 0 → .newline ∈ moves) := by
  have hline : l.line = 0 ↔ l.line.toNat = 0 := by rw [← UInt64.toNat_inj, UInt64.toNat_zero]
  have hgreatest : 1 ≤ UInt64.size - 1 := by decide
  rw [UInt64.le_iff_toNat_le, toNat_line_run, UInt64.toNat_one, hline, ← List.count_pos_iff]
  omega

/-! ### Order -/

theorem saturatingAdd_le_saturatingAdd {n k : UInt64} (h : n ≤ k) (amount : UInt64) :
    saturatingAdd n amount ≤ saturatingAdd k amount := by
  rw [UInt64.le_iff_toNat_le] at h ⊢
  rw [toNat_saturatingAdd, toNat_saturatingAdd]
  omega

theorem line_le_line (h : l ≤ m) : l.line ≤ m.line := by
  rcases h with hline | ⟨hline, -⟩
  · exact UInt64.le_of_lt hline
  · exact UInt64.le_of_eq hline

theorem advance_le_advance (h : l ≤ m) (amount : UInt64) : l.advance amount ≤ m.advance amount := by
  rcases h with hline | ⟨hline, hcolumn⟩
  · exact Or.inl hline
  · exact Or.inr ⟨hline, saturatingAdd_le_saturatingAdd hcolumn amount⟩

/-- The columns are the same behind a line feed, so that the lines decide; and these may have become
the same. -/
theorem newline_le_newline (h : l ≤ m) : l.newline ≤ m.newline := by
  have hline : l.newline.line ≤ m.newline.line := saturatingAdd_le_saturatingAdd (line_le_line h) 1
  rcases UInt64.lt_or_eq_of_le hline with hlt | heq
  · exact Or.inl hlt
  · exact Or.inr ⟨heq, UInt64.le_refl _⟩

theorem move_le_move (h : l ≤ m) (step : Move) : l.move step ≤ m.move step := by
  cases step with
  | advance amount => exact advance_le_advance h amount
  | newline => exact newline_le_newline h

/-- **The same moves.**  They keep the order of their starts. -/
theorem run_le_run (h : l ≤ m) (moves : List Move) : l.run moves ≤ m.run moves := by
  induction moves generalizing l m with
  | nil => exact h
  | cons step moves ih => exact ih (move_le_move h step)

/-- **Moves keep the order.**  Of two locations that make the same moves, the one that is not behind
the other at the start is not behind it at the end; and along the moves the line never goes down. -/
theorem run_keeps_order (moves : List Move) :
    (∀ l m : Location, l ≤ m →
      l.run moves ≤ m.run moves ∧ ((l.run moves).compare (m.run moves)).isLE = true) ∧
    ∀ (l : Location) (before : List Move), before <+: moves →
      (l.run before).line ≤ (l.run moves).line := by
  refine ⟨fun l m h => ?_, ?_⟩
  · have hle := run_le_run h moves
    exact ⟨hle, compare_isLE_iff.mpr hle⟩
  · rintro l before ⟨later, rfl⟩
    rw [run_append]
    exact line_le_line_run _ later

/-! ### On the last line -/

/-- The start of the last line of all. -/
def lastLine : Location := ⟨0xFFFFFFFFFFFFFFFF, 0⟩

/-- A column of the last line that leaves room for some characters. -/
def farRight : Location := ⟨0xFFFFFFFFFFFFFFFF, 0xFFFFFFFFFFFFFFF0⟩

/-- A line feed takes both columns back and leaves the line as it is, so that the order is kept and
the two locations cannot be told apart any longer. -/
theorem run_keeps_order_lastLine :
    lastLine < farRight ∧
      lastLine.run [.advance 7, .newline] ≤ farRight.run [.advance 7, .newline] ∧
      lastLine.run [.advance 7, .newline] = farRight.run [.advance 7, .newline] ∧
      (farRight.run [.advance 7]).line ≤ (farRight.run [.advance 7, .newline]).line := by
  have hspec := run_keeps_order [.advance 7, .newline]
  refine ⟨by decide +kernel, ?_, by decide +kernel, ?_⟩
  · exact (hspec.1 lastLine farRight (by decide +kernel)).1
  · exact hspec.2 farRight [.advance 7] ⟨[.newline], rfl⟩

end Intake.Location
