import Intake.Proofs.Load.Decision
import Intake.Proofs.Location.Scan
import Intake.Proofs.Text.Lines

/-!
# Scanning a loaded file

The location at the end of a scan can be told from the octets of a file, without decoding what
stands before its last line.

* `scan_loaded`: the end of a scan of a loaded file.
-/

namespace Intake.Disk
open Intake.Text

/-- The contents of a loaded file are the octets that were read, decoded. -/
theorem contents_of_load {disk : Disk} {workingDirectory : Except SystemError Path} {p r : Path}
    {octets : List UInt8} {file : SourceFile} (hr : p.resolve workingDirectory = .ok r)
    (hread : disk.read r = .ok octets) (h : (disk.load workingDirectory p).1 = .ok file) :
    file.contents = Utf8.lossy octets := by
  cases comes_iff.mpr h with
  | resolved hr' hchecks =>
      rw [hr] at hr'
      cases hr'
      cases hchecks with
      | loaded _ _ _ _ _ hread' hcontents =>
          rw [hread] at hread'
          cases hread'
          exact Utf8.readsAs_iff.mp hcontents

/-- **The end of a file.**  A scan of decoded octets ends on the line that the line feeds of the
octets count, behind the characters that the octets of the last line are decoded to.  The lines of
the text are those of the octets, each decoded on its own.  This is the text of a loaded file. -/
theorem scan_loaded (octets : List UInt8) :
    (Location.start.scan (Utf8.lossy octets).toList).line.toNat =
        min (1 + octets.count 0x0A) (2 ^ 64 - 1) ∧
      (Location.start.scan (Utf8.lossy octets).toList).column.toNat =
        min (Utf8.lossy (octets.rtakeWhile (· ≠ 0x0A))).length (2 ^ 64 - 1) ∧
      (Utf8.lossy octets).toList.splitOn '\n' =
        ((octets.splitOn 0x0A).map fun line => (Utf8.lossy line).toList) ∧
      ∀ disk workingDirectory p r file, Path.resolve workingDirectory p = .ok r →
        disk.read r = .ok octets → (load disk workingDirectory p).1 = .ok file →
          file.contents = Utf8.lossy octets := by
  refine ⟨?_, ?_, Utf8.splitOn_lossy octets, ?_⟩
  · rw [Location.toNat_line_scan, Utf8.count_lossy]
    rfl
  · rw [Location.toNat_column_scan, Utf8.rtakeWhile_lossy, String.length_toList]
    have hstart : Location.start.column.toNat = 0 := rfl
    rw [hstart, ite_self, Nat.zero_add]
    rfl
  · intro disk workingDirectory p r file hr hread h
    exact contents_of_load hr hread h

/-- A sequence that breaks off before a line feed, and behind it an octet of no character. -/
def torn : List UInt8 := [0x61, 0xE2, 0x82, 0x0A, 0xFF, 0x62]

/-- The line feed stays where it is, between two replacement characters. -/
theorem scan_loaded_torn :
    (Location.start.scan (Utf8.lossy torn).toList).line.toNat = 2 ∧
      (Location.start.scan (Utf8.lossy torn).toList).column.toNat = 2 ∧
      "a\uFFFD\n\uFFFDb" = Utf8.lossy torn := by
  obtain ⟨hline, hcolumn, _, hcontents⟩ := scan_loaded torn
  refine ⟨hline, hcolumn, ?_⟩
  exact hcontents (single (Utf8.encode "/src/main") torn) (.ok (Utf8.encode "/src"))
    (Utf8.encode "main") _ ⟨"/src/main", "a\uFFFD\n\uFFFDb"⟩ rfl rfl rfl

end Intake.Disk
