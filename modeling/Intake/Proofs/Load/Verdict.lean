import Intake.Proofs.Load.Log
import Intake.Proofs.Load.Reproduction
import Intake.Proofs.Load.Scan
import Intake.Proofs.Text.Embedded

/-!
# The records of a load

The load of a path that can be resolved leaves two records.  The first one shows the path as it was
given and as it was resolved, and the second one tells what came of it: the size of the contents, or
the kind of the error.  The size is that of the contents, in which ill-formed parts are replaced; it
is the size of the file as well where there was nothing to replace.

* `verdict_eq_loaded`, `verdict_eq_rejected`: when the second record is of either sort.
* `Tells`: what the second record tells.
* `contents_of_text`: the contents of a file that is text.
* `load_leaves_two`: the records of a load.
-/

namespace Intake.Disk
open Intake.Text

variable {disk : Disk} {workingDirectory : Except SystemError Path} {p r : Path}
  {result : Except LoadError SourceFile} {size : Nat}

/-! ### The second record -/

theorem verdict_eq_loaded :
    verdict r result = .loaded r size ↔
      ∃ file, result = .ok file ∧ size = (Utf8.encode file.contents).length := by
  cases result with
  | error e => simp [verdict]
  | ok file => simp [verdict, Utf8.length_encode, eq_comm]

theorem verdict_eq_rejected {kind : String} :
    verdict r result = .rejected r kind ↔ ∃ e, result = .error e ∧ kind = e.kind := by
  cases result with
  | error e => simp [verdict, eq_comm]
  | ok file => simp [verdict]

/-! ### The records -/

/-- What a record for debugging tells and shows of the result of a load.  A file is told of by the
octets that its contents take, and an error by its kind. -/
structure Tells (r : Path) (result : Except LoadError SourceFile) (record : LogRecord) : Prop where
  level : record.level = "DEBUG"
  loaded : ∀ size, record = .loaded r size ↔
    ∃ file, result = .ok file ∧ size = (Utf8.encode file.contents).length
  rejected : ∀ kind, record = .rejected r kind ↔ ∃ e, result = .error e ∧ kind = e.kind
  showsFile : ∀ file, result = .ok file →
    record.line = "DEBUG Loaded source file " ++ file.path ++
      " (" ++ (Utf8.encode file.contents).length.repr ++ " bytes)"
  showsError : ∀ e, result = .error e →
    record.line = "DEBUG Rejected source file " ++ Utf8.lossy r ++ ": " ++ e.kind

theorem tells_verdict (hlabel : ∀ file, result = .ok file → Utf8.encode file.path = r) :
    Tells r result (verdict r result) where
  level := level_verdict r result
  loaded _ := verdict_eq_loaded
  rejected _ := verdict_eq_rejected
  showsFile file h := by
    -- the path is shown as the label, since it is the text of the label
    have hpath : r.display = file.path := by
      rw [← hlabel file h, Path.display, Utf8.lossy_encode]
    rw [verdict_eq_loaded.mpr ⟨file, h, rfl⟩, LogRecord.line_loaded, hpath]
  showsError e h := by
    rw [verdict_eq_rejected.mpr ⟨e, h, rfl⟩]
    exact LogRecord.line_rejected r e.kind

/-- The label of a file that was loaded is the resolved path. -/
theorem encode_label_of_resolve {file : SourceFile} (hr : p.resolve workingDirectory = .ok r)
    (h : (disk.load workingDirectory p).1 = .ok file) : Utf8.encode file.path = r := by
  obtain ⟨hlabel, -⟩ := encode_label h
  rw [hr] at hlabel
  exact (Except.ok.inj hlabel).symm

/-- A file with the octets of a text is loaded with just this text. -/
theorem contents_of_text {file : SourceFile} {text : String}
    (hr : p.resolve workingDirectory = .ok r) (hread : disk.read r = .ok (Utf8.encode text))
    (h : (disk.load workingDirectory p).1 = .ok file) : file.contents = text := by
  rw [contents_of_load hr hread h, Utf8.lossy_encode]

/-- **The records of a load.**  A load whose path is resolved leaves two records.  The first one
traces the resolution, and the second one, for debugging, tells the size of the contents if a file
was loaded and the kind of the error if none was.  Where the octets in the file are those of a text,
the size is their number. -/
theorem load_leaves_two (disk : Disk) (hr : p.resolve workingDirectory = .ok r) :
    ∃ last, (disk.load workingDirectory p).2 = [.resolved p r, last] ∧
      ((LogRecord.resolved p r).level = "TRACE" ∧ (LogRecord.resolved p r).line =
        "TRACE Resolved " ++ Utf8.lossy p ++ " to " ++ Utf8.lossy r) ∧
      Tells r (disk.load workingDirectory p).1 last ∧
      ∀ text, disk.read r = .ok (Utf8.encode text) →
        ∀ size, last = .loaded r size → size = (Utf8.encode text).length := by
  have htells : Tells r (disk.load workingDirectory p).1
      (verdict r (disk.load workingDirectory p).1) :=
    tells_verdict fun _ h => encode_label_of_resolve hr h
  refine ⟨verdict r (disk.load workingDirectory p).1, ?_,
    ⟨LogRecord.level_resolved p r, LogRecord.line_resolved p r⟩, htells, ?_⟩
  · rw [log_of_resolve hr, load_of_resolve hr]
  · intro text hread size hlast
    obtain ⟨file, hload, hsize⟩ := (htells.loaded size).mp hlast
    rw [hsize, contents_of_text hr hread hload]

/-! ### An octet that is folded away, and one that is replaced -/

/-- A relative path that goes through a name that is no text and comes back. -/
def detour : Path := 0xFF :: Utf8.encode "/../main"

/-- The name is shown in the first record only.  The three octets of the first file are counted as
they are, and the single one of the second file is replaced by a character that takes three. -/
theorem load_leaves_two_detour :
    (((single (Utf8.encode "/src/main") (Utf8.encode "é\n")).load (.ok (Utf8.encode "/src"))
        detour).2.map LogRecord.line =
      ["TRACE Resolved \uFFFD/../main to /src/main",
        "DEBUG Loaded source file /src/main (3 bytes)"]) ∧
      ((single (Utf8.encode "/src/main") [0xFF]).load (.ok (Utf8.encode "/src")) detour).2 =
        [.resolved detour (Utf8.encode "/src/main"), .loaded (Utf8.encode "/src/main") 3] := by
  have hr : Path.resolve (.ok (Utf8.encode "/src") : Except SystemError Path) detour =
    .ok (Utf8.encode "/src/main") := rfl
  constructor
  · obtain ⟨last, hlog, ⟨-, hfirst⟩, htells, -⟩ :=
      load_leaves_two (single (Utf8.encode "/src/main") (Utf8.encode "é\n")) hr
    rw [hlog, List.map_cons, List.map_singleton, hfirst,
      htells.showsFile ⟨"/src/main", "é\n"⟩ rfl]
    rfl
  · obtain ⟨last, hlog, -, htells, -⟩ :=
      load_leaves_two (single (Utf8.encode "/src/main") [0xFF]) hr
    rw [hlog, (htells.loaded 3).mpr ⟨⟨"/src/main", "\uFFFD"⟩, rfl, rfl⟩]

end Intake.Disk
