import Intake.Load
import Intake.Proofs.Path.Fold
import Intake.Proofs.Text.Parts
import Mathlib.Data.Nat.Bitwise

/-!
# What a load comes to

The checks of a load are rules here, each with all its conditions: those of the checks before it,
which have passed, and the one that decides.  UTF-8 is what texts are encoded to, and the contents
of a file are its octets taken apart, so that the rules do not mention how a load finds out.

* `Checks`: what becomes of a resolved path.
* `Comes`: what becomes of a path.
* `checkAndRead_iff`: checking follows its rules.
* `load_decides`: loading follows its rules, and so does what is reported of it.
-/

namespace Intake.Disk
open Intake.Text

variable {disk : Disk} {r : Path} {label : String} {status : Status}

/-- What becomes of a resolved path. -/
inductive Checks (disk : Disk) (r : Path) : Except LoadError SourceFile → Prop
  | invalidPath (hr : ∀ label, Utf8.encode label ≠ r) : Checks disk r (.error (.invalidPath r))
  | notFound {label : String} (hr : Utf8.encode label = r) (hstat : disk.stat r = none) :
      Checks disk r (.error (.notFound r))
  | notAFile {label : String} {status : Status} (hr : Utf8.encode label = r)
      (hstat : disk.stat r = some status) (hregular : status.regular = false) :
      Checks disk r (.error (.notAFile r))
  | notReadable {label : String} {status : Status} (hr : Utf8.encode label = r)
      (hstat : disk.stat r = some status) (hregular : status.regular = true)
      (hdenied : status.mode.testBit 8 = false ∨ disk.mayReadAndWrite r = false) :
      Checks disk r (.error (.notReadable r))
  | read {label : String} {status : Status} {cause : SystemError} (hr : Utf8.encode label = r)
      (hstat : disk.stat r = some status) (hregular : status.regular = true)
      (howner : status.mode.testBit 8 = true) (haccess : disk.mayReadAndWrite r = true)
      (hread : disk.read r = .error cause) :
      Checks disk r (.error (.read r cause))
  | loaded {label contents : String} {status : Status} {octets : List UInt8}
      (hr : Utf8.encode label = r) (hstat : disk.stat r = some status)
      (hregular : status.regular = true) (howner : status.mode.testBit 8 = true)
      (haccess : disk.mayReadAndWrite r = true) (hread : disk.read r = .ok octets)
      (hcontents : Utf8.ReadsAs octets contents) :
      Checks disk r (.ok ⟨label, contents⟩)

/-- What becomes of a path: a relative one cannot be resolved where the working directory is
unavailable, and every other path is resolved and checked. -/
inductive Comes (disk : Disk) (workingDirectory : Except SystemError Path) (p : Path) :
    Except LoadError SourceFile → Prop
  | unresolved {cause : SystemError} (hp : p.isAbsolute = false)
      (hdirectory : workingDirectory = .error cause) :
      Comes disk workingDirectory p (.error (.workingDirectory p cause))
  | resolved {r : Path} {result : Except LoadError SourceFile}
      (hr : p.resolve workingDirectory = .ok r) (h : Checks disk r result) :
      Comes disk workingDirectory p result

/-! ### Checking -/

theorem ownerCanRead_eq_testBit (status : Status) :
    status.ownerCanRead = status.mode.testBit 8 := by
  rw [Status.ownerCanRead, show ownerRead = 2 ^ 8 from rfl, Nat.and_two_pow]
  cases status.mode.testBit 8 <;> rfl

/-- The checks of a file that is there, whose path is the encoding of a text. -/
theorem checkAndRead_of_stat (hr : Utf8.encode label = r) (hstat : disk.stat r = some status) :
    disk.checkAndRead r =
      if status.regular = false then .error (.notAFile r)
      else if status.mode.testBit 8 = false ∨ disk.mayReadAndWrite r = false then
        .error (.notReadable r)
      else match disk.read r with
        | .error cause => .error (.read r cause)
        | .ok octets => .ok ⟨label, Utf8.lossy octets⟩ := by
  rw [checkAndRead, Utf8.strict?_eq_some.mpr hr]
  simp only [hstat, ownerCanRead_eq_testBit]
  cases status.regular with
  | false => rfl
  | true =>
      cases status.mode.testBit 8 with
      | false => rfl
      | true => cases disk.mayReadAndWrite r <;> rfl

theorem checks_checkAndRead (disk : Disk) (r : Path) : Checks disk r (disk.checkAndRead r) := by
  cases hr : Utf8.strict? r with
  | none =>
      rw [checkAndRead, hr]
      exact .invalidPath (Utf8.strict?_eq_none.mp hr)
  | some label =>
      cases hstat : disk.stat r with
      | none =>
          rw [checkAndRead, hr]
          simp only [hstat]
          exact .notFound (Utf8.strict?_eq_some.mp hr) hstat
      | some status =>
          rw [Utf8.strict?_eq_some] at hr
          rw [checkAndRead_of_stat hr hstat]
          split
          next hregular => exact .notAFile hr hstat hregular
          next hregular =>
            rw [Bool.not_eq_false] at hregular
            split
            next hdenied => exact .notReadable hr hstat hregular hdenied
            next hallowed =>
              rw [not_or, Bool.not_eq_false, Bool.not_eq_false] at hallowed
              cases hread : disk.read r with
              | error cause => exact .read hr hstat hregular hallowed.1 hallowed.2 hread
              | ok octets =>
                  exact .loaded hr hstat hregular hallowed.1 hallowed.2 hread
                    (Utf8.readsAs_iff.mpr rfl)

/-- **Checking follows its rules**, and they allow no other result. -/
theorem checkAndRead_iff {result : Except LoadError SourceFile} :
    Checks disk r result ↔ result = disk.checkAndRead r := by
  constructor
  · intro h
    cases h with
    | invalidPath hr => rw [checkAndRead, Utf8.strict?_eq_none.mpr hr]
    | notFound hr hstat =>
        rw [checkAndRead, Utf8.strict?_eq_some.mpr hr]
        simp only [hstat]
    | notAFile hr hstat hregular => rw [checkAndRead_of_stat hr hstat, if_pos hregular]
    | notReadable hr hstat hregular hdenied =>
        rw [checkAndRead_of_stat hr hstat, if_neg (by rw [hregular]; decide), if_pos hdenied]
    | read hr hstat hregular howner haccess hread =>
        rw [checkAndRead_of_stat hr hstat, if_neg (by rw [hregular]; decide),
          if_neg (by rw [howner, haccess]; decide)]
        simp only [hread]
    | loaded hr hstat hregular howner haccess hread hcontents =>
        rw [checkAndRead_of_stat hr hstat, if_neg (by rw [hregular]; decide),
          if_neg (by rw [howner, haccess]; decide), Utf8.readsAs_iff.mp hcontents]
        simp only [hread]
  · rintro rfl
    exact checks_checkAndRead disk r

/-! ### Loading -/

section
variable {workingDirectory : Except SystemError Path} {p : Path}

/-- The result of a load is that of checking the resolved path. -/
theorem load_of_resolve (h : p.resolve workingDirectory = .ok r) :
    (disk.load workingDirectory p).1 = disk.checkAndRead r := by
  rw [load, h]

theorem load_of_resolve_error {cause : SystemError}
    (h : p.resolve workingDirectory = .error cause) :
    disk.load workingDirectory p = (.error (.workingDirectory p cause), []) := by
  rw [load, h]

theorem comes_iff {result : Except LoadError SourceFile} :
    Comes disk workingDirectory p result ↔ (disk.load workingDirectory p).1 = result := by
  cases hr : p.resolve workingDirectory with
  | error cause =>
      rw [load_of_resolve_error hr]
      obtain ⟨hp, hdirectory⟩ := Path.resolve_eq_error.mp hr
      constructor
      · intro h
        cases h with
        | unresolved hp' hdirectory' =>
            rw [hdirectory] at hdirectory'
            cases hdirectory'
            rfl
        | resolved hr' _ =>
            rw [hr] at hr'
            cases hr'
      · rintro rfl
        exact .unresolved hp hdirectory
  | ok resolved =>
      rw [load_of_resolve hr]
      constructor
      · intro h
        cases h with
        | unresolved hp' hdirectory' =>
            rw [Path.resolve_eq_error.mpr ⟨hp', hdirectory'⟩] at hr
            cases hr
        | resolved hr' h =>
            rw [hr] at hr'
            cases hr'
            exact (checkAndRead_iff.mp h).symm
      · rintro rfl
        exact .resolved hr (checkAndRead_iff.mpr rfl)

end

/-- **The decision of a load.**  A load comes to a result where the rules say so and nowhere else.
What is reported of it is the same file, or the sentence of the error. -/
theorem load_decides (disk : Disk) (workingDirectory : Except SystemError Path) (p : Path) :
    (∀ result, (disk.load workingDirectory p).1 = result ↔
      Comes disk workingDirectory p result) ∧
    (∀ file, disk.readSourceFile workingDirectory p = .ok file ↔
      Comes disk workingDirectory p (.ok file)) ∧
    ∀ reason, disk.readSourceFile workingDirectory p = .failure reason ↔
      ∃ e, Comes disk workingDirectory p (.error e) ∧ reason = e.message := by
  simp only [comes_iff, readSourceFile]
  cases (disk.load workingDirectory p).1 with
  | error e => simp [Outcome.ofExcept, Outcome.mapFailure, eq_comm]
  | ok file => simp [Outcome.ofExcept, Outcome.mapFailure]

/-! ### A disk with one file -/

/-- A disk that holds one file, which may be read and written. -/
def single (path : Path) (octets : List UInt8) : Disk where
  stat p := if p = path then some ⟨true, 0o600⟩ else none
  mayReadAndWrite p := p == path
  read p := if p = path then .ok octets else .error ⟨"No such file or directory (os error 2)"⟩

end Intake.Disk
