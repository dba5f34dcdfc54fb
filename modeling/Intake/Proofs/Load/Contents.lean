import Intake.Proofs.Load.Reproduction
import Intake.Proofs.Text.Embedded

/-!
# The contents of a file

What a load gives as the contents of a file depends on the octets in the file alone.  Where these
are the octets of a text the contents are the text, whatever else stands in the file, and a file
into which its own contents were written is loaded as before.

* `overwrite`: a disk after octets were written into a file.
* `load_overwrite`: a file into which other octets were written is loaded with these decoded.
* `load_keeps_text`: text in a file is loaded as it is.
-/

namespace Intake.Disk
open Intake.Text

variable {disk : Disk} {workingDirectory : Except SystemError Path} {p : Path} {file : SourceFile}

/-- The disk after octets were written into the file at a path. -/
def overwrite (disk : Disk) (path : Path) (octets : List UInt8) : Disk where
  stat := disk.stat
  mayReadAndWrite := disk.mayReadAndWrite
  read := Function.update disk.read path (.ok octets)

/-- **Other octets in a file.**  What is written into a file that can be loaded is loaded from it,
with its ill-formed parts replaced. -/
theorem load_overwrite (h : (disk.load workingDirectory p).1 = .ok file) (octets : List UInt8) :
    ((disk.overwrite (Utf8.encode file.path) octets).load workingDirectory p).1 =
      .ok ⟨file.path, Utf8.lossy octets⟩ := by
  obtain ⟨hr, hchecks⟩ := encode_label h
  obtain ⟨label, contents⟩ := file
  rw [load_of_resolve hr]
  cases checkAndRead_iff.mpr hchecks.symm with
  | loaded hlabel hstat hregular howner haccess _ _ =>
      -- the checks before the last one do not look into the file
      have hread : (disk.overwrite (Utf8.encode label) octets).read (Utf8.encode label) =
        .ok octets := Function.update_self ..
      have hnew : Checks (disk.overwrite (Utf8.encode label) octets) (Utf8.encode label)
          (.ok ⟨label, Utf8.lossy octets⟩) :=
        .loaded hlabel hstat hregular howner haccess hread (Utf8.readsAs_iff.mpr rfl)
      exact (checkAndRead_iff.mp hnew).symm

/-- **Text in a file is kept.**  Take any file that can be loaded, and write other octets into it.
Where a text stands in them, the contents are those of the octets before it, the text, and those of
the octets behind it, each as if it were alone in the file.  A file with the octets of a text is
loaded with just this text, and writing its own contents into a file does not change it. -/
theorem load_keeps_text (h : (disk.load workingDirectory p).1 = .ok file) :
    (∀ before text behind, text ≠ "" → ∃ first last,
      ((disk.overwrite (Utf8.encode file.path) before).load workingDirectory p).1 = .ok first ∧
      ((disk.overwrite (Utf8.encode file.path) behind).load workingDirectory p).1 = .ok last ∧
      ((disk.overwrite (Utf8.encode file.path) (before ++ Utf8.encode text ++ behind)).load
        workingDirectory p).1 = .ok ⟨file.path, first.contents ++ text ++ last.contents⟩) ∧
    (∀ text,
      ((disk.overwrite (Utf8.encode file.path) (Utf8.encode text)).load workingDirectory p).1 =
        .ok ⟨file.path, text⟩) ∧
    ((disk.overwrite (Utf8.encode file.path) (Utf8.encode file.contents)).load
      workingDirectory p).1 = .ok file := by
  refine ⟨fun before text behind htext => ?_, fun text => ?_, ?_⟩
  · refine ⟨_, _, load_overwrite h before, load_overwrite h behind, ?_⟩
    rw [load_overwrite h, Utf8.lossy_append_encode_append htext]
  · rw [load_overwrite h, Utf8.lossy_encode]
  · rw [load_overwrite h, Utf8.lossy_encode]

/-- A character between an open sequence and an octet that would continue it. -/
theorem load_keeps_text_torn :
    (((single (Utf8.encode "/src/main") []).overwrite (Utf8.encode "/src/main")
      [0xE2, 0x82, 0xC3, 0xA9, 0xAC]).load (.ok (Utf8.encode "/src")) (Utf8.encode "main")).1 =
        .ok ⟨"/src/main", "\uFFFDé\uFFFD"⟩ := by
  have hload : ((single (Utf8.encode "/src/main") []).load (.ok (Utf8.encode "/src"))
    (Utf8.encode "main")).1 = .ok ⟨"/src/main", ""⟩ := rfl
  obtain ⟨first, last, hfirst, hlast, hall⟩ :=
    (load_keeps_text hload).1 [0xE2, 0x82] "é" [0xAC] (by decide)
  have hbefore := load_overwrite hload [0xE2, 0x82]
  have hbehind := load_overwrite hload [0xAC]
  rw [hfirst] at hbefore
  rw [hlast] at hbehind
  cases hbefore
  cases hbehind
  exact hall

end Intake.Disk
