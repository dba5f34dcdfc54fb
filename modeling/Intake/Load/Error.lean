import Intake.Path

/-!
# Load errors

Why a source file could not be loaded.  Every error names the path that it is about.

* `LoadError.kind`: a short label.
* `LoadError.message`: the sentence that reports the error.
-/

namespace Intake

/-- A fault that the system reports, with the system's text for it. -/
structure SystemError where
  text : String
deriving DecidableEq

/-- Why a source file could not be loaded. -/
inductive LoadError where
  /-- The path, still unresolved, is relative, and the working directory is unavailable. -/
  | workingDirectory (path : Path) (cause : SystemError)
  /-- The resolved path is not UTF-8. -/
  | invalidPath (path : Path)
  /-- Nothing is at the path. -/
  | notFound (path : Path)
  /-- What is at the path is no regular file. -/
  | notAFile (path : Path)
  /-- The file may not be read. -/
  | notReadable (path : Path)
  /-- The file may be read, and reading it failed. -/
  | read (path : Path) (cause : SystemError)
deriving DecidableEq

namespace LoadError

/-- The path that the error is about. -/
def path : LoadError → Path
  | workingDirectory path _ | invalidPath path | notFound path | notAFile path | notReadable path
  | read path _ => path

/-- The system's fault behind the error, if there is one. -/
def cause? : LoadError → Option SystemError
  | workingDirectory _ cause | read _ cause => some cause
  | _ => none

/-- A short label of the error. -/
def kind : LoadError → String
  | workingDirectory .. => "working-directory"
  | invalidPath _ => "invalid-path"
  | notFound _ => "not-found"
  | notAFile _ => "not-a-file"
  | notReadable _ => "not-readable"
  | read .. => "read"

/-- A path between quotation marks. -/
def quoted (path : Path) : String := "\"" ++ path.display ++ "\""

/-- The sentence that reports the error. -/
def message : LoadError → String
  | workingDirectory path cause =>
    "Could not resolve " ++ quoted path ++ " against the working directory: " ++ cause.text
  | invalidPath path => "The path " ++ quoted path ++ " is not valid UTF-8"
  | notFound path => "File " ++ quoted path ++ " does not exists"
  | notAFile path => "The path " ++ quoted path ++ " does not point to a file"
  | notReadable path => "File " ++ quoted path ++ " is not readable by the current user"
  | read path cause => "File " ++ quoted path ++ " could not be read: " ++ cause.text

end LoadError
end Intake
