import Intake.Proofs.Location.Moves
import Intake.Proofs.Wire.RecordDecoder
import Intake.Proofs.Wire.RecordForms

/-!
# Where lines are counted from

Lines are counted from one, and a scan that starts where texts start never sees line zero.  But a
decoder gives the line that a value or a text states, and does not refuse zero.  Such a location
stays on line zero for as long as no line feed is passed, and not any longer.

* `Value.statedLine?`, `statedLineIn?`: the line that a value or a text states.
* `statedLineIn?_of_readRecord`, `statedLine?_of_ofValue`: what is decoded is on the line that is
  stated.
* `Origin`: where a location comes from if nobody names its line.
* `line_of_origin`: when a location from any of these origins is behind line zero.
* `location_lineZero`: line zero is decoded.
-/

namespace Intake.Json

/-! ### Lines that are stated -/

/-- The line that a value states: under its name in an object, in front in an array. -/
def Value.statedLine? (v : Value) : Option Int :=
  match v.tree with
  | .array (t :: _) => t.integer?
  | _ => (v.member? "line_number").bind Tree.integer?

/-- The integer at the start of a text. -/
def integerAt? (text : List Char) : Option Int :=
  match readScalar (dropBlanks text) with
  | .ok (t, _) => t.integer?
  | .error _ => none

/-- Passes over a member; the line is the integer under its name. -/
def passLine (limit : Nat) (line : Option Int) (text : List Char) :
    Except Malformed (Option Int × List Char) := do
  let (key, rest) ← readKey text
  let rest ← readColon rest
  return (if key = "line_number" then integerAt? rest else line, ← skipTree limit limit rest)

/-- The line that a text states: under its name in an object, in front in an array.  The other
members need not be readable, they are passed over. -/
def statedLineIn? (text : String) : Option Int :=
  let limit := text.toList.length
  match dropBlanks text.toList with
  | '{' :: rest =>
    match foldElements '}' (passLine limit) limit none rest with
    | .ok (line, _) => line
    | .error _ => none
  | '[' :: rest => integerAt? rest
  | _ => none

theorem integerAt?_of_readTree {limit budget : Nat} {text rest : List Char} {t : Tree}
    (h : readTree limit budget text = .ok (t, rest)) : integerAt? text = t.integer? := by
  rw [integerAt?]
  cases treeAt_of_readTree h with
  | scalar _ _ hs => rw [hs]
  | array hd _ => rw [hd]; rfl
  | object hd _ => rw [hd]; rfl

theorem passLine_of_skipTree {limit : Nat} {key : String} {text text₁ text₂ rest : List Char}
    (hkey : readKey text = .ok (key, text₁)) (hcolon : readColon text₁ = .ok text₂)
    (hskip : skipTree limit limit text₂ = .ok rest) (line : Option Int) :
    passLine limit line text =
      .ok (if key = "line_number" then integerAt? text₂ else line, rest) := by
  rw [passLine, hkey, ok_bind]
  dsimp only
  rw [hcolon, ok_bind, hskip]
  rfl

section
variable {text : String} {tail rest : List Char} {line : Option Int}

theorem statedLineIn?_object (hd : dropBlanks text.toList = '\x7b' :: tail)
    (h : foldElements '\x7d' (passLine text.toList.length) text.toList.length none tail =
      .ok (line, rest)) : statedLineIn? text = line := by
  simp only [statedLineIn?, hd, h]

theorem statedLineIn?_array (hd : dropBlanks text.toList = '[' :: tail) :
    statedLineIn? text = integerAt? tail := by
  simp only [statedLineIn?, hd]

end

end Intake.Json

namespace Intake.Wire
open Intake.Json
open Intake.Location (Move)

/-! ### What is decoded is on the line that is stated -/

section
variable {v : Value} {l : Location}

theorem statedLine?_of_ofValue (h : Record.location.codec.ofValue v = .ok l) :
    v.statedLine? = some (l.line.toNat : Int) := by
  rcases location_ofValue_eq_ok.mp h with ⟨hline, -⟩ | ⟨t, u, hv, hline, -⟩
  · obtain ⟨t, ht, -⟩ := Option.bind_eq_some_iff.mp hline
    obtain ⟨members, hv, -⟩ := Value.member?_eq_some_iff.mp ht
    rw [Value.statedLine?, hv]
    exact hline
  · rw [Value.statedLine?, hv]
    exact hline

end

section
variable {text rest : List Char}

/-- A coordinate that is decoded in place is the integer there, and is passed over. -/
theorem integerAt?_of_read {name : String} {n : UInt64}
    (h : (Record.coordinate name).read text = .ok (n, rest)) (limit : Nat) :
    integerAt? text = some (n.toNat : Int) ∧ skipTree limit limit text = .ok rest := by
  obtain ⟨t, ht, hn, hskip⟩ := (Record.coordinate_plain name).exists_tree_of_read h limit limit
  exact ⟨(integerAt?_of_readTree ht).trans (Codec.u64As_decode_eq_ok.mp hn), hskip⟩

/-- If the decoder has met a line, it is the one that has been kept. -/
def TracksLine (seen : Record.Seen UInt64 UInt64) (line : Option Int) : Prop :=
  ∀ n, seen.1 = some n → line = some (n.toNat : Int)

theorem Field.exists_read_of_readMember {α : Type} {field : Field α} {seen seen' : Option α}
    (h : field.readMember seen text = .ok (seen', rest)) :
    ∃ text₁ a, readColon text = .ok text₁ ∧ field.read text₁ = .ok (a, rest) ∧ seen' = some a := by
  cases seen with
  | some _ => cases h
  | none =>
      obtain ⟨text₁, hcolon, h⟩ := bind_eq_ok.mp h
      obtain ⟨⟨a, _⟩, hread, h⟩ := bind_eq_ok.mp h
      cases h
      exact ⟨text₁, a, LiftsFaults.liftM_eq_ok.mp hcolon, hread, rfl⟩

/-- **One member.**  Where a member of a location is decoded or passed over, it is passed over here
as well, and a line that is decoded is kept. -/
theorem accompanies_passLine {limit : Nat} :
    Accompanies (passLine limit) (Record.location.readMember limit) TracksLine := by
  intro seen line text seen' rest htracks h
  rw [Record.readMember] at h
  obtain ⟨⟨key, text₁⟩, hkey, h⟩ := bind_eq_ok.mp h
  have hkey := LiftsFaults.liftM_eq_ok.mp hkey
  dsimp only at h
  split at h
  -- the line
  next hline =>
    obtain ⟨⟨line', _⟩, hmember, h⟩ := bind_eq_ok.mp h
    cases h
    obtain ⟨text₂, n, hcolon, hread, rfl⟩ := Field.exists_read_of_readMember hmember
    obtain ⟨hn, hskip⟩ := integerAt?_of_read hread limit
    refine ⟨_, passLine_of_skipTree hkey hcolon hskip line, ?_⟩
    rintro _ ⟨⟩
    exact (if_pos hline).trans hn
  next hline =>
    have hkept : ∀ text₂, (if key = "line_number" then integerAt? text₂ else line) = line :=
      fun _ => if_neg hline
    split at h
    -- the column
    next =>
      obtain ⟨⟨column, _⟩, hmember, h⟩ := bind_eq_ok.mp h
      cases h
      obtain ⟨text₂, n, hcolon, hread, -⟩ := Field.exists_read_of_readMember hmember
      obtain ⟨-, hskip⟩ := integerAt?_of_read hread limit
      exact ⟨_, passLine_of_skipTree hkey hcolon hskip line, (hkept text₂).symm ▸ htracks⟩
    -- a member for no field
    next =>
      obtain ⟨text₂, hcolon, h⟩ := bind_eq_ok.mp h
      obtain ⟨_, hskip, h⟩ := bind_eq_ok.mp h
      cases h
      have hcolon := LiftsFaults.liftM_eq_ok.mp hcolon
      have hskip := LiftsFaults.liftM_eq_ok.mp hskip
      exact ⟨_, passLine_of_skipTree hkey hcolon hskip line, (hkept text₂).symm ▸ htracks⟩

end

/-- A location is on the line that its text states. -/
theorem statedLineIn?_of_readRecord {text : String} {l : Location}
    (h : readRecord Record.location text = .ok l) :
    statedLineIn? text = some (l.line.toNat : Int) := by
  obtain ⟨⟨_, rest⟩, hread, h⟩ := bind_eq_ok.mp h
  obtain ⟨_, -, h⟩ := bind_eq_ok.mp h
  cases h
  rw [Record.read] at hread
  split at hread
  next tail hd =>
    obtain ⟨⟨seen, _⟩, hfold, h⟩ := bind_eq_ok.mp hread
    obtain ⟨_, hfinish, h⟩ := bind_eq_ok.mp h
    cases h
    obtain ⟨line, column, rfl, rfl⟩ := Record.finish_eq_ok.mp (liftM_complaint_eq_ok.mp hfinish)
    have hstart : TracksLine (none, none) none := fun _ h => (by cases h)
    obtain ⟨stated, hpass, htracks⟩ :=
      foldElements_accompanied accompanies_passLine hstart hfold
    exact (statedLineIn?_object hd hpass).trans (htracks line rfl)
  next tail hd =>
    obtain ⟨_, -, h⟩ := bind_eq_ok.mp hread
    obtain ⟨⟨line, _⟩, hline, h⟩ := bind_eq_ok.mp h
    obtain ⟨⟨_, _⟩, -, h⟩ := bind_eq_ok.mp h
    obtain ⟨_, -, h⟩ := bind_eq_ok.mp h
    obtain ⟨⟨column, _⟩, -, h⟩ := bind_eq_ok.mp h
    obtain ⟨⟨another, _⟩, -, h⟩ := bind_eq_ok.mp h
    cases another with
    | true => cases h
    | false =>
        cases h
        exact (statedLineIn?_array hd).trans (integerAt?_of_read hline 0).1
  next => exact (refuseScalar_ne_ok hread).elim

/-! ### Origins -/

/-- Where a location comes from if nobody names its line. -/
inductive Origin where
  | start
  | default
  | atColumn (column : UInt64)
  | value (v : Value)
  | text (t : String)

/-- The location that an origin gives, unless it is refused by a decoder. -/
inductive Origin.Gives : Origin → Location → Prop
  | start : Gives .start Location.start
  | default : Gives .default (Inhabited.default : Location)
  | atColumn (column : UInt64) : Gives (.atColumn column) (Location.atColumn column)
  | value {v : Value} {l : Location} (h : Record.location.codec.ofValue v = .ok l) :
      Gives (.value v) l
  | text {t : String} {l : Location} (h : readRecord Record.location t = .ok l) :
      Gives (.text t) l

/-- The origin states line zero. -/
def Origin.StatesZero : Origin → Prop
  | start | default | atColumn _ => False
  | value v => v.statedLine? = some 0
  | text t => statedLineIn? t = some 0

/-! ### The line of an origin -/

section
variable {v : Value} {l : Location} {o : Origin}

theorem eq_some_zero_iff {line : Option Int} (h : line = some (l.line.toNat : Int)) :
    line = some 0 ↔ l.line = 0 := by
  rw [h, Option.some.injEq, ← UInt64.toNat_inj, UInt64.toNat_zero]
  omega

theorem Origin.Gives.statesZero_iff (h : o.Gives l) : o.StatesZero ↔ l.line = 0 := by
  have hfirst : Location.firstLine ≠ 0 := by decide
  cases h with
  | start | default | atColumn column => exact iff_of_false not_false hfirst
  | value h => exact eq_some_zero_iff (statedLine?_of_ofValue h)
  | text h => exact eq_some_zero_iff (statedLineIn?_of_readRecord h)

/-- What a text states is what its value states, if it has one. -/
theorem statesZero_text_iff {t : String} (h : (Origin.text t).Gives l) (hv : Value.read t = .ok v) :
    (Origin.text t).StatesZero ↔ (Origin.value v).StatesZero := by
  rw [h.statesZero_iff]
  cases h with
  | text h =>
      have hvalue := ((Record.location_plain.readRecord_iff_ofValue hv).mp h).1
      exact (Origin.Gives.value hvalue).statesZero_iff.symm

/-- **Lines from one.**  A location that comes from any origin and is moved in any way is on line
one or behind, unless line zero was stated and no line feed has been passed.  The start, the default
and a column of the first line state no line; a value and a text state the one that they hold, and a
text that has a value states what the value states. -/
theorem line_of_origin (h : o.Gives l) (moves : List Move) :
    (1 ≤ (l.run moves).line ↔ (o.StatesZero → .newline ∈ moves)) ∧
      ∀ t v, o = .text t → Value.read t = .ok v →
        (o.StatesZero ↔ v.statedLine? = some 0) := by
  refine ⟨?_, ?_⟩
  · rw [h.statesZero_iff]
    exact Location.one_le_line_run_iff l moves
  · rintro t v rfl hv
    exact statesZero_text_iff h hv

end

/-! ### Line zero -/

/-- A location on line zero. -/
def zeroText : String := "\x7b\"line_number\":0,\"column\":7\x7d"

/-- The value of `zeroText`. -/
def zeroValue : Value :=
  .ofTree (.object [("line_number", .number (.natural 0)), ("column", .number (.natural 7))])

/-- The same location behind half of a surrogate pair, so that the text has no value. -/
def zeroBehindHalf : String := "\x7b\"x\":\"\\ud800\",\"line_number\":0,\"column\":7\x7d"

/-- A line feed leads from line zero to line one, and other moves stay on it, be there a value or
not. -/
theorem line_of_origin_zeroText :
    (Origin.text zeroText).StatesZero ∧
      Value.read zeroBehindHalf = .error .badSyntax ∧
      (Origin.text zeroBehindHalf).StatesZero ∧
      ¬ 1 ≤ (Location.run ⟨0, 7⟩ [.advance 3]).line ∧
      1 ≤ (Location.run ⟨0, 7⟩ [.advance 3, .newline]).line := by
  have hgives : (Origin.text zeroText).Gives ⟨0, 7⟩ := .text rfl
  have hhalf : (Origin.text zeroBehindHalf).Gives ⟨0, 7⟩ := .text rfl
  have hzero : (Origin.text zeroText).StatesZero :=
    ((line_of_origin hgives []).2 zeroText zeroValue rfl rfl).mpr rfl
  have hstates : (Origin.text zeroBehindHalf).StatesZero := rfl
  refine ⟨hzero, rfl, hstates, fun hle => ?_, (line_of_origin hgives _).1.mpr fun _ => by decide⟩
  have hmem := (line_of_origin hhalf [.advance 3]).1.mp hle hstates
  revert hmem
  decide

/-- **Line zero is decoded**, from an object, from an array and from a text, and a location that
moves to the right stays there. -/
theorem location_lineZero :
    (Origin.value zeroValue).Gives ⟨0, 7⟩ ∧
      (Origin.value (.ofTree (.array [.number (.natural 0), .number (.natural 7)]))).Gives ⟨0, 7⟩ ∧
      (Origin.text zeroText).Gives ⟨0, 7⟩ ∧
      ¬ 1 ≤ (Location.run ⟨0, 7⟩ []).line ∧
      ¬ 1 ≤ (Location.run ⟨0, 7⟩ [.advance 3]).line :=
  ⟨.value rfl, .value rfl, .text rfl, by decide +kernel, by decide +kernel⟩

end Intake.Wire
