import Intake.Proofs.Load.Decision

/-!
# Loading again

A load depends on its path only through the path that it is resolved to.  The file that it gives
bears this path as its label.  It is in normal form, so that it resolves to itself wherever one
stands, and to load from the label is to load the same file again.

* `encode_label`: the label of a loaded file is the resolved path.
* `load_reproducible`: two paths that are resolved alike, and the label of a loaded file.
-/

namespace Intake.Disk
open Intake.Text

variable {disk : Disk} {workingDirectory : Except SystemError Path} {p : Path} {file : SourceFile}

/-- The label of a loaded file, as a path, is the resolved path, from which it was loaded. -/
theorem encode_label (h : (disk.load workingDirectory p).1 = .ok file) :
    p.resolve workingDirectory = .ok (Utf8.encode file.path) ∧
      disk.checkAndRead (Utf8.encode file.path) = .ok file := by
  cases comes_iff.mpr h with
  | resolved hr hchecks =>
      cases hchecks with
      | loaded hlabel _ _ _ _ _ _ =>
          subst hlabel
          rw [load_of_resolve hr] at h
          exact ⟨hr, h⟩

/-- **Loads can be repeated.**  Paths that are resolved alike, from whatever working directories, are
loaded alike.  A file that is loaded from an absolute working directory bears an absolute path in
normal form, and loading this path gives the same file from every working directory, even from one
that is unavailable. -/
theorem load_reproducible (disk : Disk) :
    (∀ workingDirectory workingDirectory' p q r, Path.resolve workingDirectory p = .ok r →
      Path.resolve workingDirectory' q = .ok r →
        (disk.load workingDirectory p).1 = (disk.load workingDirectory' q).1) ∧
    ∀ workingDirectory p file,
      (∀ directory, workingDirectory = .ok directory → Path.isAbsolute directory = true) →
      (disk.load workingDirectory p).1 = .ok file →
        (Path.isAbsolute (Utf8.encode file.path) = true ∧ Path.Normal (Utf8.encode file.path)) ∧
          ∀ workingDirectory', (disk.load workingDirectory' (Utf8.encode file.path)).1 = .ok file := by
  refine ⟨?_, ?_⟩
  · intro workingDirectory workingDirectory' p q r hp hq
    rw [load_of_resolve hp, load_of_resolve hq]
  · intro workingDirectory p file hdirectory h
    obtain ⟨hr, hchecks⟩ := encode_label h
    have hnormal := Path.normal_of_resolve hdirectory hr
    refine ⟨⟨hnormal.isAbsolute, hnormal⟩, fun workingDirectory' => ?_⟩
    rw [load_of_resolve (Path.resolve_of_normal hnormal), hchecks]

/-- A disk with a file that is not UTF-8 throughout. -/
def source : Disk := single (Utf8.encode "/src/main") [0x63, 0x61, 0x66, 0xE9]

/-- Two paths lead to one file from two working directories, and its label leads there without
any. -/
theorem load_reproducible_source :
    (source.load (.ok (Utf8.encode "/src/lib")) (Utf8.encode "../main")).1 =
        (source.load (.ok (Utf8.encode "/")) (Utf8.encode "src//./main")).1 ∧
      (source.load (.error ⟨"gone"⟩) (Utf8.encode "/src/main")).1 =
        .ok ⟨"/src/main", "caf\uFFFD"⟩ := by
  have hspec := load_reproducible source
  refine ⟨hspec.1 _ _ _ _ (Utf8.encode "/src/main") rfl rfl, ?_⟩
  exact (hspec.2 (.ok (Utf8.encode "/src/lib")) (Utf8.encode "../main")
    ⟨"/src/main", "caf\uFFFD"⟩ (fun directory hd => by cases hd; rfl) rfl).2 _

end Intake.Disk
