import Intake.FileTree
import Intake.Proofs.Load.Decision

/-!
# What a load leaves in the log

The load of a path that can be resolved leaves two records: the first one traces the resolution, and
the second one, for debugging, tells what came of it.  A path that cannot be resolved leaves none,
so that of all errors this one is missing from the log.

* `LogRecord.line_resolved` and the like: how records are shown.
* `LogRecord.level`, `debugRecords`: the levels of records, and the records for debugging.
* `log_of_resolve`: the records of a path that is resolved.
* `Reported`: the kind of an error stands in the only record for debugging.
* `load_reports`: which errors are reported.
* `load_adrift_silent`: an error that is not.
-/

namespace Intake

/-! ### Lines and levels -/

namespace LogRecord

theorem line_resolved (given result : Path) : (resolved given result).line =
    "TRACE Resolved " ++ given.display ++ " to " ++ result.display :=
  rfl

theorem line_loaded (path : Path) (size : Nat) : (loaded path size).line =
    "DEBUG Loaded source file " ++ path.display ++ " (" ++ size.repr ++ " bytes)" :=
  rfl

theorem line_rejected (path : Path) (kind : String) : (rejected path kind).line =
    "DEBUG Rejected source file " ++ path.display ++ ": " ++ kind :=
  rfl

/-- The level of a record is the word that its line begins with. -/
def level (record : LogRecord) : String :=
  String.ofList (record.line.toList.takeWhile (· ≠ ' '))

theorem level_resolved (given result : Path) : (resolved given result).level = "TRACE" := by
  simp [level, line_resolved]

theorem level_loaded (path : Path) (size : Nat) : (loaded path size).level = "DEBUG" := by
  simp [level, line_loaded]

theorem level_rejected (path : Path) (kind : String) : (rejected path kind).level = "DEBUG" := by
  simp [level, line_rejected]

end LogRecord

/-- The records for debugging. -/
def debugRecords (log : List LogRecord) : List LogRecord := log.filter (·.level = "DEBUG")

namespace Disk
open Intake.Text

variable {disk : Disk} {workingDirectory : Except SystemError Path} {p r : Path} {e : LoadError}

/-! ### Errors in the log -/

/-- The records of a path that is resolved. -/
theorem log_of_resolve (h : p.resolve workingDirectory = .ok r) :
    (disk.load workingDirectory p).2 = [.resolved p r, verdict r (disk.checkAndRead r)] := by
  rw [load, h]

theorem level_verdict (r : Path) (result : Except LoadError SourceFile) :
    (verdict r result).level = "DEBUG" := by
  cases result with
  | ok file => exact LogRecord.level_loaded r _
  | error e => exact LogRecord.level_rejected r e.kind

/-- Only the last of the records of a resolved path is for debugging. -/
theorem debugRecords_of_resolve (h : p.resolve workingDirectory = .ok r) :
    debugRecords (disk.load workingDirectory p).2 = [verdict r (disk.checkAndRead r)] := by
  rw [log_of_resolve h, debugRecords]
  simp [LogRecord.level_resolved, level_verdict]

/-- There is one record for debugging, and it tells that a path was rejected with an error of this
kind. -/
def Reported (e : LoadError) (log : List LogRecord) : Prop :=
  ∃ path, debugRecords log = [.rejected path e.kind]

theorem reported_of_resolve (hr : p.resolve workingDirectory = .ok r)
    (h : (disk.load workingDirectory p).1 = .error e) :
    Reported e (disk.load workingDirectory p).2 := by
  rw [load_of_resolve hr] at h
  rw [Reported, debugRecords_of_resolve hr, h]
  exact ⟨r, rfl⟩

theorem not_reported_nil (e : LoadError) : ¬ Reported e [] := by
  rintro ⟨path, h⟩
  cases h

/-- The checks of a path that is resolved do not ask for the working directory. -/
theorem ne_workingDirectory_of_checks (h : Checks disk r (.error e)) (cause : SystemError) :
    e ≠ .workingDirectory p cause := by
  rintro rfl
  cases h

/-- **The errors that are reported.**  The load of a path fails for want of a working directory, and
then there are no records at all, or it fails with any other error, and then there is one record for
debugging, which bears the kind of the error. -/
theorem load_reports (h : (disk.load workingDirectory p).1 = .error e) :
    (Reported e (disk.load workingDirectory p).2 ↔ ∀ cause, e ≠ .workingDirectory p cause) ∧
      ((disk.load workingDirectory p).2 = [] ↔ ∃ cause, e = .workingDirectory p cause) ∧
      ∀ cause, e = .workingDirectory p cause ↔
        p.isAbsolute = false ∧ workingDirectory = .error cause := by
  cases comes_iff.mpr h with
  | @unresolved cause hp hdirectory =>
      have hr := Path.resolve_eq_error.mpr ⟨hp, hdirectory⟩
      have hlog : (disk.load workingDirectory p).2 = [] := by rw [load_of_resolve_error hr]
      rw [hlog]
      refine ⟨⟨fun hreported => absurd hreported (not_reported_nil _), fun hne => ?_⟩,
        ⟨fun _ => ⟨cause, rfl⟩, fun _ => rfl⟩, fun cause' => ?_⟩
      · exact absurd rfl (hne cause)
      · simp [hp, hdirectory]
  | resolved hr hchecks =>
      have hne := ne_workingDirectory_of_checks (p := p) hchecks
      refine ⟨⟨fun _ => hne, fun _ => reported_of_resolve hr h⟩, ⟨fun hlog => ?_, ?_⟩,
        fun cause => ⟨fun he => absurd he (hne cause), ?_⟩⟩
      · rw [log_of_resolve hr] at hlog
        cases hlog
      · rintro ⟨cause, he⟩
        exact absurd he (hne cause)
      · rintro ⟨hp, hdirectory⟩
        rw [Path.resolve_eq_error.mpr ⟨hp, hdirectory⟩] at hr
        cases hr

/-- A disk whose only file is somewhere else. -/
def elsewhere : Disk := single (Utf8.encode "/lib") []

/-- A path at which nothing is, and a path that cannot be resolved. -/
theorem load_reports_missing :
    Reported (.notFound (Utf8.encode "/src/main"))
        (elsewhere.load (.ok (Utf8.encode "/src")) (Utf8.encode "main")).2 ∧
      (elsewhere.load (.error ⟨"gone"⟩) (Utf8.encode "main")).2 = [] := by
  have hmissing : (elsewhere.load (.ok (Utf8.encode "/src")) (Utf8.encode "main")).1 =
    .error (.notFound (Utf8.encode "/src/main")) := rfl
  have hgone : (elsewhere.load (.error ⟨"gone"⟩) (Utf8.encode "main")).1 =
    .error (.workingDirectory (Utf8.encode "main") ⟨"gone"⟩) := rfl
  exact ⟨(load_reports hmissing).1.mpr nofun, (load_reports hgone).2.1.mpr ⟨_, rfl⟩⟩

/-- A file tree whose working directory has been removed. -/
def adrift : FileTree := ⟨.directory 0o755 [], [], none⟩

/-- The load of a relative path fails, and its error is not reported. -/
theorem load_adrift_silent :
    (adrift.disk.load adrift.workingDirectoryPath (Utf8.encode "main.src")).1 =
        .error (.workingDirectory (Utf8.encode "main.src") FileTree.noSuchFile) ∧
      ¬ Reported (.workingDirectory (Utf8.encode "main.src") FileTree.noSuchFile)
        (adrift.disk.load adrift.workingDirectoryPath (Utf8.encode "main.src")).2 :=
  ⟨rfl, not_reported_nil _⟩

end Disk
end Intake
