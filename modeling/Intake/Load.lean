import Intake.Load.Error
import Intake.Outcome
import Intake.Source

/-!
# Loading source files

A source file is loaded from a path in a fixed order of checks, and the first that fails decides.
What the disk answers is given as a `Disk`; the working directory is asked for only by relative
paths.

* `checkAndRead`: the contents of the file at a resolved path.
* `load`: the source file at a path, and the records that loading it leaves in the log.
* `readSourceFile`: the same as an outcome whose reason is a sentence.
-/

namespace Intake

/-- What is known about the node at a path. -/
structure Status where
  /-- Whether it is a regular file. -/
  regular : Bool
  /-- Its permission bits. -/
  mode : Nat
deriving DecidableEq

/-- What the disk answers at each path. -/
structure Disk where
  /-- What is at the path, if anything can be reached there. -/
  stat : Path → Option Status
  /-- Whether the user may read and write there. -/
  mayReadAndWrite : Path → Bool
  /-- The octets of the file there. -/
  read : Path → Except SystemError (List UInt8)

/-- The permission bit that lets the owner read. -/
def ownerRead : Nat := 0o400

/-- Whether the permission bits let the owner read. -/
def Status.ownerCanRead (status : Status) : Bool := status.mode &&& ownerRead != 0

/-- A record in the log. -/
inductive LogRecord where
  /-- A path was resolved. -/
  | resolved (given result : Path)
  /-- A file was loaded, with so many octets of text. -/
  | loaded (path : Path) (size : Nat)
  /-- A load failed with an error of a kind. -/
  | rejected (path : Path) (kind : String)
deriving DecidableEq

/-- The line that shows a record, its level in front. -/
def LogRecord.line : LogRecord → String
  | resolved given result => "TRACE Resolved " ++ given.display ++ " to " ++ result.display
  | loaded path size =>
    "DEBUG Loaded source file " ++ path.display ++ " (" ++
      String.ofList (Nat.toDigits 10 size) ++ " bytes)"
  | rejected path kind => "DEBUG Rejected source file " ++ path.display ++ ": " ++ kind

namespace Disk

/-- The contents of the file at a resolved path, whose label is the path as text. -/
def checkAndRead (disk : Disk) (path : Path) : Except LoadError SourceFile :=
  match Text.Utf8.strict? path with
  | none => .error (.invalidPath path)
  | some label =>
    match disk.stat path with
    | none => .error (.notFound path)
    | some status =>
      if !status.regular then .error (.notAFile path)
      else if !status.ownerCanRead then .error (.notReadable path)
      else if !disk.mayReadAndWrite path then .error (.notReadable path)
      else match disk.read path with
        | .error cause => .error (.read path cause)
        | .ok octets => .ok ⟨label, Text.Utf8.lossy octets⟩

/-- The record that the load of a resolved path ends with. -/
def verdict (path : Path) : Except LoadError SourceFile → LogRecord
  | .ok file => .loaded path file.contents.utf8ByteSize
  | .error e => .rejected path e.kind

/-- The source file at a path, and the records that loading it leaves in the log.  Nothing is
recorded when the working directory is needed and unavailable. -/
def load (disk : Disk) (workingDirectory : Except SystemError Path) (path : Path) :
    Except LoadError SourceFile × List LogRecord :=
  match path.resolve workingDirectory with
  | .error cause => (.error (.workingDirectory path cause), [])
  | .ok resolved =>
    let result := disk.checkAndRead resolved
    (result, [.resolved path resolved, verdict resolved result])

/-- The source file at a path, or the sentence that says why there is none. -/
def readSourceFile (disk : Disk) (workingDirectory : Except SystemError Path) (path : Path) :
    Outcome SourceFile String :=
  (Outcome.ofExcept (disk.load workingDirectory path).1).mapFailure LoadError.message

end Disk
end Intake
