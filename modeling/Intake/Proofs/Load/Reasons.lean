import Intake.Load
import Intake.Proofs.Text.Embedded
import Intake.Proofs.Text.Lines

/-!
# Reasons tell failures apart

The sentence that reports an error shows the path as it is, quotation marks and all, and may end with
a text of the system.  Nevertheless the error can be told from the sentence, as long as the system's
text holds no quotation mark.  The last quotation mark is then the one behind the path.  The words
that follow it are others for each kind of error, and none of them begin with those of another kind,
so that they tell where the system's text starts, and how the sentence began.  What is left between
the two quotation marks is the path.

* `Frame`, `frame`: what the sentences of a kind have in common.
* `message_eq`: a sentence in its parts.
* `frame_eq_of_append`: the words behind the path tell the kind.
* `Legible`: a path that is text, and a text of the system without quotation marks.
* `Same`: errors of one kind, at one path, for one cause.
* `reason_identifies`: errors with one sentence are the same, and so are loads with one reason.
-/

namespace Intake.LoadError
open Intake.Text

/-! ### The parts of a sentence -/

/-- What the sentences of a kind have in common. -/
structure Frame where
  kind : String
  /-- The words before the path. -/
  opening : String
  /-- The words behind the path. -/
  wording : String
  /-- Whether a text of the system follows. -/
  caused : Bool
deriving DecidableEq

/-- What the sentence of an error has in common with the others of its kind. -/
def frame : LoadError → Frame
  | workingDirectory .. =>
    ⟨"working-directory", "Could not resolve ", " against the working directory: ", true⟩
  | invalidPath _ => ⟨"invalid-path", "The path ", " is not valid UTF-8", false⟩
  | notFound _ => ⟨"not-found", "File ", " does not exists", false⟩
  | notAFile _ => ⟨"not-a-file", "The path ", " does not point to a file", false⟩
  | notReadable _ => ⟨"not-readable", "File ", " is not readable by the current user", false⟩
  | read .. => ⟨"read", "File ", " could not be read: ", true⟩

/-- The frames of all kinds. -/
def frames : List Frame :=
  [frame (workingDirectory [] ⟨""⟩), frame (invalidPath []), frame (notFound []),
    frame (notAFile []), frame (notReadable []), frame (read [] ⟨""⟩)]

/-- The text of the system at the end of a sentence. -/
def causeText (e : LoadError) : String := e.cause?.elim "" SystemError.text

section
variable {e e' : LoadError}

theorem frame_mem_frames (e : LoadError) : e.frame ∈ frames := by
  cases e <;> simp [frames, frame]

theorem kind_eq (e : LoadError) : e.kind = e.frame.kind := by
  cases e <;> rfl

theorem cause?_eq (e : LoadError) :
    e.cause? = if e.frame.caused then some ⟨e.causeText⟩ else none := by
  cases e <;> rfl

/-- **The sentence.**  The path stands between the words of the frame, and the text of the system
behind them. -/
theorem message_eq (e : LoadError) :
    e.message = e.frame.opening ++ quoted e.path ++ e.frame.wording ++ e.causeText := by
  cases e with
  | workingDirectory path cause | read path cause => rfl
  | invalidPath path | notFound path | notAFile path | notReadable path =>
      exact String.append_empty.symm

theorem toList_message (e : LoadError) :
    e.message.toList = (e.frame.opening.toList ++ '"' :: e.path.display.toList) ++
      '"' :: (e.frame.wording.toList ++ e.causeText.toList) := by
  have hquote : "\"".toList = ['"'] := rfl
  rw [message_eq, quoted]
  simp only [String.toList_append, hquote, List.append_assoc, List.cons_append, List.nil_append]

/-! ### The words behind the path -/

theorem quote_notMem_wording (e : LoadError) : '"' ∉ e.frame.wording.toList := by
  have hframes : ∀ f ∈ frames, '"' ∉ f.wording.toList := by decide
  exact hframes e.frame (frame_mem_frames e)

theorem frame_eq_of_kind (h : e.kind = e'.kind) : e.frame = e'.frame := by
  have hframes : ∀ f ∈ frames, ∀ g ∈ frames, f.kind = g.kind → f = g := by decide
  rw [kind_eq, kind_eq] at h
  exact hframes _ (frame_mem_frames e) _ (frame_mem_frames e') h

/-- No wording begins with that of another kind. -/
theorem frame_eq_of_wording (h : e.frame.wording.toList <+: e'.frame.wording.toList) :
    e.frame = e'.frame := by
  have hframes : ∀ f ∈ frames, ∀ g ∈ frames,
      f.wording.toList <+: g.wording.toList → f = g := by decide +kernel
  exact hframes _ (frame_mem_frames e) _ (frame_mem_frames e') h

/-- **The kind.**  It can be told from the words behind the path, whatever follows them. -/
theorem frame_eq_of_append {more more' : List Char}
    (h : e.frame.wording.toList ++ more = e'.frame.wording.toList ++ more') :
    e.frame = e'.frame := by
  have hprefix := List.prefix_append e.frame.wording.toList more
  have hprefix' := List.prefix_append e'.frame.wording.toList more'
  rw [← h] at hprefix'
  rcases List.prefix_or_prefix_of_prefix hprefix hprefix' with hle | hle
  · exact frame_eq_of_wording hle
  · exact (frame_eq_of_wording hle).symm

/-! ### The last quotation mark -/

theorem rtakeWhile_quote {behind : List Char} (h : '"' ∉ behind) (before : List Char) :
    (before ++ '"' :: behind).rtakeWhile (· ≠ '"') = behind := by
  rw [Utf8.rtakeWhile_append_cons (by simp), List.rtakeWhile_eq_self_iff]
  intro c hc
  exact decide_eq_true fun heq => h (heq ▸ hc)

/-- A text can be cut at its last quotation mark in one way only. -/
theorem append_quote_inj {before before' behind behind' : List Char} (h : '"' ∉ behind)
    (h' : '"' ∉ behind') (heq : before ++ '"' :: behind = before' ++ '"' :: behind') :
    before = before' ∧ behind = behind' := by
  have hbehind : behind = behind' := by
    rw [← rtakeWhile_quote h before, heq, rtakeWhile_quote h']
  subst hbehind
  exact ⟨List.append_cancel_right heq, rfl⟩

/-! ### Telling errors apart -/

/-- The path of the error is text, and the text of the system behind it, if there is one, holds no
quotation mark. -/
structure Legible (e : LoadError) : Prop where
  path : ∃ text, Utf8.encode text = e.path
  cause : ∀ cause, e.cause? = some cause → '"' ∉ cause.text.toList

/-- Errors of one kind, at one path, and with one text of the system, if there is one. -/
structure Same (e e' : LoadError) : Prop where
  kind : e.kind = e'.kind
  path : e.path = e'.path
  cause : e.cause? = e'.cause?

theorem Legible.quote_notMem (h : e.Legible) :
    '"' ∉ e.frame.wording.toList ++ e.causeText.toList := by
  rw [List.mem_append, not_or]
  refine ⟨quote_notMem_wording e, ?_⟩
  cases hcause : e.cause? with
  | none => simp [causeText, hcause]
  | some cause =>
      rw [causeText, hcause]
      exact h.cause cause hcause

/-- Paths that are text are shown as this text. -/
theorem Legible.path_eq_of_display (h : e.Legible) (h' : e'.Legible)
    (heq : e.path.display = e'.path.display) : e.path = e'.path := by
  obtain ⟨text, htext⟩ := h.path
  obtain ⟨text', htext'⟩ := h'.path
  rw [← htext, ← htext', Path.display, Path.display, Utf8.lossy_encode, Utf8.lossy_encode] at heq
  rw [← htext, ← htext', heq]

theorem Same.frame_eq (h : Same e e') : e.frame = e'.frame := frame_eq_of_kind h.kind

theorem Same.message_eq (h : Same e e') : e.message = e'.message := by
  rw [LoadError.message_eq, LoadError.message_eq, h.frame_eq, h.path, causeText, causeText, h.cause]

theorem Legible.same_of_message (h : e.Legible) (h' : e'.Legible)
    (heq : e.message = e'.message) : Same e e' := by
  have hchars := congrArg String.toList heq
  rw [toList_message, toList_message] at hchars
  obtain ⟨hfront, hbehind⟩ := append_quote_inj h.quote_notMem h'.quote_notMem hchars
  have hframe := frame_eq_of_append hbehind
  rw [hframe] at hfront hbehind
  have hpath := (List.cons.inj (List.append_cancel_left hfront)).2
  have hcause := String.toList_inj.mp (List.append_cancel_left hbehind)
  refine ⟨?_, h.path_eq_of_display h' (String.toList_inj.mp hpath), ?_⟩
  · rw [kind_eq, kind_eq, hframe]
  · rw [cause?_eq, cause?_eq, hframe, hcause]

end

end Intake.LoadError

namespace Intake.Disk
open Intake.LoadError
open Intake.Text

theorem readSourceFile_of_error {disk : Disk} {workingDirectory : Except SystemError Path}
    {p : Path} {e : LoadError} (h : (disk.load workingDirectory p).1 = .error e) :
    disk.readSourceFile workingDirectory p = .failure e.message := by
  rw [readSourceFile, h]
  rfl

/-- **Reasons identify failures.**  Two errors whose paths are text, and whose causes hold no
quotation marks, have the same sentence only if they are of one kind, at one path, and have the same
cause.  So a failed load can be told from the reason that is reported of it, whatever the disks and
wherever one stands. -/
theorem reason_identifies {e e' : LoadError} (h : e.Legible) (h' : e'.Legible) :
    (e.message = e'.message ↔ Same e e') ∧
    ∀ disk disk' workingDirectory workingDirectory' p p',
      (load disk workingDirectory p).1 = .error e →
      (load disk' workingDirectory' p').1 = .error e' →
      (readSourceFile disk workingDirectory p = readSourceFile disk' workingDirectory' p' ↔
        Same e e') := by
  have hmessage : e.message = e'.message ↔ Same e e' := ⟨h.same_of_message h', Same.message_eq⟩
  refine ⟨hmessage, ?_⟩
  intro disk disk' workingDirectory workingDirectory' p p' hload hload'
  rw [readSourceFile_of_error hload, readSourceFile_of_error hload', Outcome.failure.injEq]
  exact hmessage

/-! ### A path that spells the end of another sentence -/

/-- A path in which a quotation mark is followed by the words of another sentence. -/
def misleading : String := "/a\" could not be read: b"

/-- A disk without files. -/
def bare : Disk where
  stat _ := none
  mayReadAndWrite _ := false
  read _ := .error ⟨"No such file or directory (os error 2)"⟩

/-- A disk that fails to read any file. -/
def failing : Disk where
  stat _ := some ⟨true, 0o600⟩
  mayReadAndWrite _ := true
  read _ := .error ⟨"b does not exists"⟩

/-- The two sentences begin alike and end alike, and a single quotation mark tells them apart. -/
theorem reason_identifies_misleading :
    (notFound (Utf8.encode misleading)).message =
        "File \"/a\" could not be read: b\" does not exists" ∧
      (LoadError.read (Utf8.encode "/a") ⟨"b does not exists"⟩).message =
        "File \"/a\" could not be read: b does not exists" ∧
      bare.readSourceFile (.error ⟨"gone"⟩) (Utf8.encode misleading) ≠
        failing.readSourceFile (.ok Path.root) (Utf8.encode "a") := by
  have hbare : (bare.load (.error ⟨"gone"⟩) (Utf8.encode misleading)).1 =
    .error (.notFound (Utf8.encode misleading)) := rfl
  have hfailing : (failing.load (.ok Path.root) (Utf8.encode "a")).1 =
    .error (.read (Utf8.encode "/a") ⟨"b does not exists"⟩) := rfl
  have hlegible : Legible (.notFound (Utf8.encode misleading)) :=
    ⟨⟨misleading, rfl⟩, fun cause h => by cases h⟩
  have hlegible' : Legible (.read (Utf8.encode "/a") ⟨"b does not exists"⟩) :=
    ⟨⟨"/a", rfl⟩, fun cause h => by cases h; decide⟩
  refine ⟨rfl, rfl, fun heq => ?_⟩
  have hsame := ((reason_identifies hlegible hlegible').2 _ _ _ _ _ _ hbare hfailing).mp heq
  exact absurd hsame.kind (by decide)

/-- With a quotation mark in the text of the system the sentences are the same. -/
example : (LoadError.read (Utf8.encode "/a") ⟨"b\" does not exists"⟩).message =
    (notFound (Utf8.encode misleading)).message := rfl

end Intake.Disk
