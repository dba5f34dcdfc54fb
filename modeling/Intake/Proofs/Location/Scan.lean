import Intake.Source
import Mathlib.Data.List.DropRight

/-!
# Where a scan ends

A line feed takes a scan to the start of the next line and every other character takes it one
column to the right.  So the line at the end is given by the number of line feeds, and the column by
the characters behind the last of them, both as far as 64 bits go.

* `toNat_saturatingAdd`: sums of counts.
* `toNat_line_scan`, `toNat_column_scan`: the end of a scan from any start.
* `line_scan_of_notMem`, `toNat_column_scan_of_notMem`: the end of a scan of characters of one line.
* `scan_map`: characters are told apart only as line feeds and others.
* `scan_closed_form`: the end of a scan as a function of its start and its text.
-/

namespace Intake.Location

theorem toNat_le_greatest (n : UInt64) : n.toNat ≤ UInt64.size - 1 := by
  have hlt : n.toNat < UInt64.size := n.toNat_lt
  omega

theorem toNat_saturatingAdd (m n : UInt64) :
    (saturatingAdd m n).toNat = min (m.toNat + n.toNat) (UInt64.size - 1) := by
  rw [saturatingAdd, UInt64.toNat_ofNat', Nat.mod_eq_of_lt]
  exact Nat.lt_of_le_of_lt (Nat.min_le_right _ _) (by decide)

theorem scan_concat (l : Location) (text : List Char) (c : Char) :
    l.scan (text ++ [c]) = (l.scan text).next c := by
  rw [scan, List.foldl_append]
  rfl

theorem next_newline (l : Location) : l.next '\n' = l.newline := rfl

theorem next_of_ne {c : Char} (h : c ≠ '\n') (l : Location) : l.next c = l.advance 1 := if_neg h

/-- **The line.**  Every line feed adds one to the line. -/
theorem toNat_line_scan (l : Location) (text : List Char) :
    (l.scan text).line.toNat = min (l.line.toNat + text.count '\n') (UInt64.size - 1) := by
  induction text using List.reverseRecOn with
  | nil => exact (Nat.min_eq_left (toNat_le_greatest l.line)).symm
  | append_singleton text c ih =>
      rw [scan_concat, List.count_append]
      by_cases hc : c = '\n'
      · subst hc
        rw [next_newline, newline, toNat_saturatingAdd, ih, List.count_singleton_self,
          UInt64.toNat_one]
        omega
      · have hcount : [c].count '\n' = 0 := List.count_eq_zero_of_not_mem (by simpa using Ne.symm hc)
        rw [next_of_ne hc, advance, ih, hcount, Nat.add_zero]

/-- **The column.**  It counts the characters behind the last line feed, and behind the start if
there is none. -/
theorem toNat_column_scan (l : Location) (text : List Char) :
    (l.scan text).column.toNat =
      min ((if '\n' ∈ text then 0 else l.column.toNat) + (text.rtakeWhile (· ≠ '\n')).length)
        (UInt64.size - 1) := by
  induction text using List.reverseRecOn with
  | nil => exact (Nat.min_eq_left (toNat_le_greatest l.column)).symm
  | append_singleton text c ih =>
      rw [scan_concat]
      by_cases hc : c = '\n'
      · subst hc
        rw [next_newline, List.rtakeWhile_concat_neg _ _ _ (by simp), if_pos (by simp)]
        rfl
      · have hmem : '\n' ∈ text ++ [c] ↔ '\n' ∈ text := by simp [Ne.symm hc]
        rw [next_of_ne hc, advance, toNat_saturatingAdd, ih,
          List.rtakeWhile_concat_pos _ _ _ (by simpa using hc), List.length_append,
          List.length_singleton, UInt64.toNat_one]
        simp only [hmem]
        omega

/-! ### Within a line -/

section
variable {text : List Char} (plain : '\n' ∉ text) (l : Location)
include plain

theorem line_scan_of_notMem : (l.scan text).line = l.line := by
  have hcount : text.count '\n' = 0 := List.count_eq_zero_of_not_mem plain
  rw [← UInt64.toNat_inj, toNat_line_scan, hcount, Nat.add_zero]
  exact Nat.min_eq_left (toNat_le_greatest l.line)

theorem toNat_column_scan_of_notMem :
    (l.scan text).column.toNat = min (l.column.toNat + text.length) (UInt64.size - 1) := by
  have hrun : text.rtakeWhile (· ≠ '\n') = text := by
    rw [List.rtakeWhile_eq_self_iff]
    intro c hc
    exact decide_eq_true fun h => plain (h ▸ hc)
  rw [toNat_column_scan, if_neg plain, hrun]

end

/-! ### Across lines -/

theorem next_congr {c d : Char} (h : c = '\n' ↔ d = '\n') (l : Location) : l.next c = l.next d := by
  by_cases hd : d = '\n'
  · rw [hd, h.mpr hd]
  · rw [next_of_ne hd, next_of_ne (mt h.mp hd)]

/-- A scan tells line feeds from other characters, and the others not from each other. -/
theorem scan_map {f : Char → Char} (h : ∀ c, f c = '\n' ↔ c = '\n') (l : Location)
    (text : List Char) : l.scan (text.map f) = l.scan text := by
  have hstep : (fun (l : Location) c => l.next (f c)) = next :=
    funext fun l => funext fun c => next_congr (h c) l
  rw [scan, List.foldl_map, hstep, scan]

/-- Behind a line feed the column of the start does not matter, and it saturates by itself. -/
theorem toNat_column_scan_of_mem {text : List Char} (h : '\n' ∈ text) (l : Location) :
    (l.scan text).column.toNat =
      min (text.rtakeWhile (· ≠ '\n')).length (UInt64.size - 1) := by
  rw [toNat_column_scan, if_pos h, Nat.zero_add]

/-- **The end of a scan.**  From any start, saturated or not: the line has gone up by the number of
line feeds; the column has gone up by the number of characters if there was no line feed, and is the
number of characters behind the last one if there was.  Both stop at the greatest count.  Characters
are counted whatever they are: each but a line feed may be replaced by a carriage return. -/
theorem scan_closed_form (l : Location) (text : List Char) :
    (l.scan text).line.toNat = min (l.line.toNat + text.count '\n') (UInt64.size - 1) ∧
      (l.scan text).column.toNat =
        (if '\n' ∈ text then min (text.rtakeWhile (· ≠ '\n')).length (UInt64.size - 1)
          else min (l.column.toNat + text.length) (UInt64.size - 1)) ∧
      l.scan (text.map fun c => if c = '\n' then c else '\r') = l.scan text := by
  refine ⟨toNat_line_scan l text, ?_, scan_map (fun c => ?_) l text⟩
  · split
    next hmem => exact toNat_column_scan_of_mem hmem l
    next hmem => exact toNat_column_scan_of_notMem hmem l
  · split
    next => rfl
    next hc => exact iff_of_false (by decide) hc

/-- On the last line of all, a column saturates, and a line feed resets it. -/
example :
    Location.scan ⟨0xFFFFFFFFFFFFFFFF, 0xFFFFFFFFFFFFFFFE⟩ ['a', 'é', '\n', '\r', 'b'] =
      ⟨0xFFFFFFFFFFFFFFFF, 2⟩ := by
  decide +kernel

end Intake.Location
