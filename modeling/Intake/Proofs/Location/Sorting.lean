import Intake.Proofs.Location.Order

/-!
# Sorted locations

Reading order is a linear order: it compares lines, and columns where the lines are the same.  So
there is one way to put locations in order, whatever order they came in, and the last of them is the
greatest.

A scan goes onward in this order, or stays where it is if its column is at the limit.  Only a line
feed on the last line of all would lead it back.  So the locations of a scan are in order, and
sorting brings them back to the order in which they were visited.

* `Std.IsLinearOrder Location`, `Std.LawfulOrderMax Location`: the order and its maximum.
* `sort_eq_of_perm`: the only ascending list of given locations.
* `getLast?_sort`: the last of the sorted locations.
* `le_scan`: a scan does not go back.
* `sort_in_reading_order`: what sorting gives.
-/

namespace Intake.Location

/-! ### The order -/

section
variable {l m n : Location}

theorem le_iff_toNat :
    l ≤ m ↔ l.line.toNat < m.line.toNat ∨
      l.line.toNat = m.line.toNat ∧ l.column.toNat ≤ m.column.toNat := by
  rw [← UInt64.lt_iff_toNat_lt, UInt64.toNat_inj, ← UInt64.le_iff_toNat_le]
  rfl

theorem le_refl (l : Location) : l ≤ l := Or.inr ⟨rfl, UInt64.le_refl _⟩

theorem le_trans (hlm : l ≤ m) (hmn : m ≤ n) : l ≤ n := by
  rw [le_iff_toNat] at *
  omega

theorem le_antisymm (hlm : l ≤ m) (hml : m ≤ l) : l = m := by
  rw [le_iff_toNat] at *
  exact ext_toNat (by omega) (by omega)

theorem le_total (l m : Location) : l ≤ m ∨ m ≤ l := by
  rw [le_iff_toNat, le_iff_toNat]
  omega

end

instance : Std.IsLinearOrder Location where
  le_refl := le_refl
  le_trans _ _ _ := le_trans
  le_antisymm _ _ := le_antisymm
  le_total := le_total

theorem max_of_le {l m : Location} (h : l ≤ m) : max l m = m := if_pos h

theorem max_of_not_le {l m : Location} (h : ¬ l ≤ m) : max l m = l := if_neg h

instance : Std.LawfulOrderMax Location where
  max_eq_or l m := by
    by_cases h : l ≤ m
    · exact Or.inr (max_of_le h)
    · exact Or.inl (max_of_not_le h)
  max_le_iff l m n := by
    by_cases h : l ≤ m
    · rw [max_of_le h]
      exact ⟨fun hm => ⟨le_trans h hm, hm⟩, And.right⟩
    · have hml := (le_total l m).resolve_left h
      rw [max_of_not_le h]
      exact ⟨fun hl => ⟨hl, le_trans hml hl⟩, And.left⟩

/-! ### Sorting -/

section
variable {ls ms : List Location}

theorem sort_perm (ls : List Location) : (sort ls).Perm ls := List.mergeSort_perm _ _

theorem pairwise_sort (ls : List Location) : (sort ls).Pairwise (· ≤ ·) := by
  refine List.Pairwise.imp of_decide_eq_true (List.pairwise_mergeSort ?_ ?_ ls)
  · intro l m n hlm hmn
    exact decide_eq_true (le_trans (of_decide_eq_true hlm) (of_decide_eq_true hmn))
  · intro l m
    rw [Bool.or_eq_true, decide_eq_true_eq, decide_eq_true_eq]
    exact le_total l m

/-- **One order.**  Any rearrangement of locations that stand in order is sorted back to them. -/
theorem sort_eq_of_perm (hp : ms.Perm ls) (h : ls.Pairwise (· ≤ ·)) : sort ms = ls :=
  ((sort_perm ms).trans hp).eq_of_pairwise (fun _ _ _ _ => le_antisymm) (pairwise_sort ms) h

theorem sort_eq_sort (hp : ms.Perm ls) : sort ms = sort ls :=
  sort_eq_of_perm (hp.trans (sort_perm ls).symm) (pairwise_sort ls)

/-- The last of locations in order is not exceeded by any of them. -/
theorem le_of_getLast?_eq_some {m : Location} (h : ls.Pairwise (· ≤ ·))
    (hm : ls.getLast? = some m) : m ∈ ls ∧ ∀ l ∈ ls, l ≤ m := by
  obtain ⟨before, rfl⟩ := List.getLast?_eq_some_iff.mp hm
  obtain ⟨-, -, hle⟩ := List.pairwise_append.mp h
  refine ⟨List.mem_concat_self, fun l hl => ?_⟩
  rcases List.mem_append.mp hl with hl | hl
  · exact hle l hl m (List.mem_singleton_self m)
  · exact List.mem_singleton.mp hl ▸ le_refl l

/-- **The last of the sorted locations** is the greatest one. -/
theorem getLast?_sort_eq_some_iff {m : Location} :
    (sort ls).getLast? = some m ↔ m ∈ ls ∧ ∀ l ∈ ls, l ≤ m := by
  simp only [← (sort_perm ls).mem_iff]
  constructor
  · exact le_of_getLast?_eq_some (pairwise_sort ls)
  · rintro ⟨hmem, hm⟩
    have hlast := List.getLast?_eq_some_getLast (List.ne_nil_of_mem hmem)
    obtain ⟨hlastMem, hle⟩ := le_of_getLast?_eq_some (pairwise_sort ls) hlast
    rw [hlast, le_antisymm (hm _ hlastMem) (hle m hmem)]

theorem getLast?_sort (ls : List Location) : (sort ls).getLast? = ls.max? :=
  Option.ext fun _ => getLast?_sort_eq_some_iff.trans List.max?_eq_some_iff.symm

end

/-! ### Sorting a scan -/

/-- The line leaves room for the line feeds of the text.  The column may run out of room. -/
def RoomForLines (l : Location) (text : List Char) : Prop :=
  l.line.toNat + text.count '\n' ≤ UInt64.size - 1

section
variable {l : Location} {text : List Char}

theorem RoomForLines.next {c : Char} (h : l.RoomForLines (c :: text)) :
    (l.next c).RoomForLines text := by
  have hline : (l.next c).line.toNat = min (l.line.toNat + [c].count '\n') (UInt64.size - 1) :=
    toNat_line_scan l [c]
  have hcount : (c :: text).count '\n' = [c].count '\n' + text.count '\n' := by
    rw [← List.count_append, List.singleton_append]
  rw [RoomForLines] at *
  omega

/-- A scan does not go back unless its line runs out of room. -/
theorem le_scan (h : l.RoomForLines text) : l ≤ l.scan text := by
  rw [RoomForLines] at h
  rw [le_iff_toNat, toNat_line_scan]
  by_cases hmem : '\n' ∈ text
  · have hcount : 0 < text.count '\n' := List.count_pos_iff.mpr hmem
    left
    omega
  · have hcolumn := toNat_le_greatest l.column
    have hcount : text.count '\n' = 0 := List.count_eq_zero_of_not_mem hmem
    rw [toNat_column_scan_of_notMem hmem]
    right
    omega

theorem pairwise_le_scan_inits (h : l.RoomForLines text) :
    (text.inits.map l.scan).Pairwise (· ≤ ·) := by
  refine pairwise_scan_inits_of RoomForLines RoomForLines.next ?_ h
  intro l part text h hprefix _
  have hcount := hprefix.sublist.count_le '\n'
  have hpart : l.RoomForLines part := Nat.le_trans (Nat.add_le_add_left hcount _) h
  exact le_scan hpart

end

/-- On the last line of all, a line feed leads back to the first column. -/
example :
    ¬ (['\n'].inits.map (scan ⟨0xFFFFFFFFFFFFFFFF, 5⟩)).Pairwise (· ≤ ·) := by
  decide +kernel

/-- **Sorting puts locations in reading order.**  What it gives is a rearrangement in which each
location stands on a line before the next one's, or on its line and in no column behind it.  It is
the same for every rearrangement, and its last location is the greatest of all.  The locations of a
scan, in whatever order they are given, come back in the order in which they were visited.  For that
the line has to leave room for the line feeds; where the column saturates, the scan stays where it
is, which is in order as well. -/
theorem sort_in_reading_order (ls : List Location) :
    (sort ls).Perm ls ∧
      (sort ls).IsChain (fun l m => (l.compare m).isLE = true ∧
        (l.line < m.line ∨ l.line = m.line ∧ l.column ≤ m.column)) ∧
      (∀ ms : List Location, ms.Perm ls → sort ms = sort ls) ∧
      (sort ls).getLast? = ls.max? ∧
      (∀ m, (sort ls).getLast? = some m ↔ m ∈ ls ∧ ∀ l ∈ ls, l ≤ m) ∧
      ∀ (origin : Location) (text : List Char),
        origin.line.toNat + text.count '\n' ≤ UInt64.size - 1 →
        ls.Perm (text.inits.map origin.scan) → sort ls = text.inits.map origin.scan := by
  refine ⟨sort_perm ls, ?_, fun ms hp => sort_eq_sort hp, getLast?_sort ls,
    fun m => getLast?_sort_eq_some_iff, fun origin text hlines hp => ?_⟩
  · exact (pairwise_sort ls).isChain.imp fun l m h => ⟨compare_isLE_iff.mpr h, h⟩
  · exact sort_eq_of_perm hp (pairwise_le_scan_inits hlines)

/-- The locations of a text of two lines, rearranged. -/
def shuffled : List Location := [⟨2, 1⟩, ⟨1, 0⟩, ⟨2, 0⟩, ⟨1, 2⟩, ⟨1, 1⟩]

/-- Sorted, they lead through the text again, and the last of them is the end of the text. -/
theorem sort_in_reading_order_shuffled :
    sort shuffled = ['a', 'b', '\n', 'c'].inits.map start.scan ∧
      (sort shuffled).getLast? = some ⟨2, 1⟩ ∧
      shuffled.max? = some ⟨2, 1⟩ := by
  obtain ⟨-, -, -, hmax, hlast, hvisited⟩ := sort_in_reading_order shuffled
  have hgreatest : (sort shuffled).getLast? = some ⟨2, 1⟩ :=
    (hlast ⟨2, 1⟩).mpr ⟨by decide +kernel, by decide +kernel⟩
  have hsorted := hvisited start ['a', 'b', '\n', 'c'] (by decide) (by decide +kernel)
  exact ⟨hsorted, hgreatest, hmax ▸ hgreatest⟩

end Intake.Location
