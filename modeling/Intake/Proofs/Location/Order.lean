import Intake.Proofs.Location.Scan
import Mathlib.Data.List.Infix
import Mathlib.Data.List.Nodup

/-!
# Locations tell characters apart

A scan goes onward in reading order: a line feed leads to a greater line, whatever becomes of the
column, and any other character to a greater column of the same line.  So no location is met twice,
and a character can be named by its location or by the text of its location.  This holds while
neither count saturates; the line counts the line feeds and the column the other characters, so that
both have to leave room for the whole text.

* `compare_eq_lt_iff`, `compare_isLE_iff`: what the comparison of locations decides.
* `text_injective`: a location can be told from its text.
* `lt_scan`: a scan goes onward.
* `pairwise_scan_inits_of`: from the ends of scans to the locations of one scan.
* `scan_inits_ascending`: the locations of a scan, and their texts.
-/

namespace Intake.Location

/-! ### Reading order -/

theorem lt_iff_toNat {l m : Location} :
    l < m ↔ l.line.toNat < m.line.toNat ∨
      l.line.toNat = m.line.toNat ∧ l.column.toNat < m.column.toNat := by
  rw [← UInt64.lt_iff_toNat_lt, UInt64.toNat_inj, ← UInt64.lt_iff_toNat_lt]
  rfl

/-- A location is known from its two counts. -/
theorem ext_toNat {l m : Location} (hline : l.line.toNat = m.line.toNat)
    (hcolumn : l.column.toNat = m.column.toNat) : l = m := by
  have hl := UInt64.toNat_inj.mp hline
  have hc := UInt64.toNat_inj.mp hcolumn
  cases l
  cases m
  cases hl
  cases hc
  rfl

theorem ne_of_lt {l m : Location} (h : l < m) : l ≠ m := by
  rintro rfl
  rw [lt_iff_toNat] at h
  omega

/-- The comparison decides reading order. -/
theorem compare_eq_lt_iff {l m : Location} : l.compare m = .lt ↔ l < m := by
  rw [compare, Ordering.then_eq_lt, Std.compare_eq_lt, Std.compare_eq_lt,
    Std.LawfulEqCmp.compare_eq_iff_eq]
  rfl

theorem compare_isLE_iff {l m : Location} : (l.compare m).isLE = true ↔ l ≤ m := by
  rw [compare, Ordering.isLE_then_iff_or, Std.compare_eq_lt, Std.LawfulEqCmp.compare_eq_iff_eq,
    Std.isLE_compare]
  rfl

/-! ### Texts of locations -/

theorem toDigits_injective {m n : Nat} (h : Nat.toDigits 10 m = Nat.toDigits 10 n) : m = n := by
  rw [← Nat.ofDigitChars_ten_toDigits (n := m), h, Nat.ofDigitChars_ten_toDigits]

theorem colon_notMem_toDigits (n : Nat) : ':' ∉ Nat.toDigits 10 n := by
  intro h
  have hdigit : ':'.isDigit = true := Nat.isDigit_of_mem_toDigits (by decide) (by decide) h
  cases hdigit

/-- A location can be told from its text: the digits of its line end at the colon. -/
theorem text_injective : Function.Injective text := by
  intro l m h
  obtain ⟨hline, -, hcolumn⟩ := (List.append_cons_inj_of_notMem (colon_notMem_toDigits _)
    (colon_notMem_toDigits _)).mp (String.ofList_injective h)
  exact ext_toNat (toDigits_injective hline) (toDigits_injective hcolumn)

/-! ### The locations of a scan -/

section
variable {l : Location} {text : List Char}

/-- One character takes each count up by one at most. -/
theorem toNat_next_le (l : Location) (c : Char) :
    (l.next c).line.toNat ≤ l.line.toNat + 1 ∧ (l.next c).column.toNat ≤ l.column.toNat + 1 := by
  by_cases hc : c = '\n'
  · subst hc
    rw [next_newline, newline, toNat_saturatingAdd]
    exact ⟨Nat.min_le_left _ _, Nat.zero_le _⟩
  · rw [next_of_ne hc, advance, toNat_saturatingAdd]
    exact ⟨Nat.le_succ _, Nat.min_le_left _ _⟩

/-- **Onward.**  A scan that meets a character ends behind its start. -/
theorem lt_scan (hne : text ≠ []) (hc : l.column.toNat + text.length ≤ UInt64.size - 1)
    (hl : l.line.toNat + text.length ≤ UInt64.size - 1) : l < l.scan text := by
  have hpos := List.length_pos_iff.mpr hne
  rw [lt_iff_toNat]
  by_cases hmem : '\n' ∈ text
  -- the column may be reset, and the line decides
  · have hcount : 0 < text.count '\n' := List.count_pos_iff.mpr hmem
    have hle : text.count '\n' ≤ text.length := List.count_le_length
    rw [toNat_line_scan]
    left
    omega
  · rw [line_scan_of_notMem hmem, toNat_column_scan_of_notMem hmem]
    right
    omega

/-- Both counts leave room for the whole text. -/
def RoomFor (l : Location) (text : List Char) : Prop :=
  l.column.toNat + text.length ≤ UInt64.size - 1 ∧ l.line.toNat + text.length ≤ UInt64.size - 1

/-- A character takes up no more room than itself. -/
theorem RoomFor.next {c : Char} (h : l.RoomFor (c :: text)) : (l.next c).RoomFor text := by
  obtain ⟨hline, hcolumn⟩ := toNat_next_le l c
  rw [RoomFor, List.length_cons] at h
  exact ⟨by omega, by omega⟩

/-- If each character keeps the room for those behind it, and with room for its text the start of a
scan is related to its end, then so are the locations of a scan to those behind them. -/
theorem pairwise_scan_inits_of (Room : Location → List Char → Prop)
    {R : Location → Location → Prop}
    (hnext : ∀ {l c text}, Room l (c :: text) → Room (l.next c) text)
    (hscan : ∀ {l part text}, Room l text → part <+: text → part ≠ [] → R l (l.scan part))
    (h : Room l text) : (text.inits.map l.scan).Pairwise R := by
  induction text generalizing l with
  | nil => exact List.pairwise_singleton _ _
  | cons c text ih =>
      rw [List.inits_cons, List.map_cons, List.map_map, List.pairwise_cons]
      constructor
      · intro m hm
        obtain ⟨part, hpart, rfl⟩ := List.mem_map.mp hm
        have hprefix := (List.prefix_cons_inj c).mpr ((List.mem_inits part text).mp hpart)
        exact hscan h hprefix (List.cons_ne_nil c part)
      · exact ih (hnext h)

theorem pairwise_scan_inits (hc : l.column.toNat + text.length ≤ UInt64.size - 1)
    (hl : l.line.toNat + text.length ≤ UInt64.size - 1) :
    (text.inits.map l.scan).Pairwise (· < ·) := by
  refine pairwise_scan_inits_of RoomFor RoomFor.next ?_ ⟨hc, hl⟩
  intro l part text h hprefix hne
  have hlength := hprefix.length_le
  rw [RoomFor] at h
  exact lt_scan hne (by omega) (by omega)

end

/-- **The locations of a scan.**  If the start leaves room for the text in both counts, the
locations after its parts, from the empty one to the whole text, ascend in reading order.  So they
differ from one another, and so do their texts. -/
theorem scan_inits_ascending (l : Location) (text : List Char)
    (hc : l.column.toNat + text.length ≤ UInt64.size - 1)
    (hl : l.line.toNat + text.length ≤ UInt64.size - 1) :
    (text.inits.map l.scan).Pairwise (fun m n => m < n ∧ m.compare n = .lt) ∧
      (text.inits.map l.scan).Nodup ∧
      (text.inits.map fun part => (l.scan part).text).Nodup := by
  have hlt := pairwise_scan_inits hc hl
  have hnodup : (text.inits.map l.scan).Nodup := hlt.imp ne_of_lt
  refine ⟨hlt.imp fun h => ⟨h, compare_eq_lt_iff.mpr h⟩, hnodup, ?_⟩
  have htexts := hnodup.map text_injective
  rwa [List.map_map] at htexts

/-- A start that leaves room for three characters and no more. -/
def narrowStart : Location := ⟨0xFFFFFFFFFFFFFFFC, 0xFFFFFFFFFFFFFFFC⟩

/-- The line feed takes the column back, and the location goes onward. -/
theorem scan_inits_ascending_narrowStart :
    (['a', '\n', 'b'].inits.map narrowStart.scan).Pairwise
        (fun m n => m < n ∧ m.compare n = .lt) ∧
      narrowStart.scan ['a', '\n'] = ⟨0xFFFFFFFFFFFFFFFD, 0⟩ := by
  have hspec := scan_inits_ascending narrowStart ['a', '\n', 'b'] (by decide +kernel)
    (by decide +kernel)
  exact ⟨hspec.1, by decide +kernel⟩

end Intake.Location
