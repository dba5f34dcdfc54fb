import Intake.Proofs.Json.Reader

/-!
# Faults inside a container

Where the elements of a container cannot be read up to its closing bracket, there is a fault in one
of them or behind one, and the elements in front of it are read as ever.  This is told here without
the fold that meets the fault, as `Elements` does it for containers without one; so another fold
over the same text can be followed up to the same place.

* `Ahead`: the elements in front of a place in a container.
* `Faulty`, `FaultyElements`: a fault among the elements.
* `faultyElements_of_foldElements`: a fold that takes in every element fails because of a fault.
* `faultyElements_of_readTree_array`, `faultyElements_of_readTree_object`: arrays and objects.
-/

namespace Intake.Json

section
variable {α : Type}

/-! ### The place of a fault -/

/-- The elements in front of a place in a container, with a comma behind each of them, and the text
from there on. -/
inductive Ahead (closing : Char) (item : List Char → Except Malformed (α × List Char)) :
    List Char → List α → List Char → Prop where
  | nil (text : List Char) : Ahead closing item text [] text
  | cons {text text₁ text₂ rest : List Char} {a : α} {as : List α}
      (h : item text = .ok (a, text₁)) (hs : readSeparator closing text₁ = .ok (true, text₂))
      (t : Ahead closing item text₂ as rest) : Ahead closing item text (a :: as) rest

/-- One element and those after it, up to a fault in an element or behind one.  More elements than
the limit are taken for the end of the text. -/
inductive Faulty (closing : Char) (item : List Char → Except Malformed (α × List Char)) :
    Nat → List Char → Malformed → Prop where
  | limit (text : List Char) : Faulty closing item 0 text .endOfInput
  | element {limit : Nat} {text : List Char} {fault : Malformed} (h : item text = .error fault) :
      Faulty closing item (limit + 1) text fault
  | separator {limit : Nat} {text text₁ : List Char} {a : α} {fault : Malformed}
      (h : item text = .ok (a, text₁)) (hs : readSeparator closing text₁ = .error fault) :
      Faulty closing item (limit + 1) text fault
  | more {limit : Nat} {text text₁ text₂ : List Char} {a : α} {fault : Malformed}
      (h : item text = .ok (a, text₁)) (hs : readSeparator closing text₁ = .ok (true, text₂))
      (t : Faulty closing item limit text₂ fault) : Faulty closing item (limit + 1) text fault

/-- A fault between the opening bracket of a container and the closing one. -/
def FaultyElements (closing : Char) (item : List Char → Except Malformed (α × List Char))
    (limit : Nat) (text : List Char) (fault : Malformed) : Prop :=
  (dropBlanks text = [] ∧ fault = .endOfInput) ∨
    (∃ c tail, dropBlanks text = c :: tail ∧ c ≠ closing) ∧ Faulty closing item limit text fault

/-! ### Folds that take in every element -/

variable {closing : Char} {item : List Char → Except Malformed (α × List Char)}
  {step : List α → List Char → Except Malformed (List α × List Char)} {limit : Nat}
  {text : List Char} {as : List α} {fault : Malformed}

/-- The step puts every element that can be read in front of those before it. -/
def PutsInFront (item : List Char → Except Malformed (α × List Char))
    (step : List α → List Char → Except Malformed (List α × List Char)) : Prop :=
  ∀ as text, step as text = item text >>= fun p => .ok (p.1 :: as, p.2)

theorem faulty_of_foldSeparated (hstep : PutsInFront item step)
    (h : foldSeparated closing step limit as text = .error fault) :
    Faulty closing item limit text fault := by
  induction limit generalizing as text with
  | zero =>
      cases h
      exact .limit text
  | succ limit ih =>
      rw [foldSeparated_succ, hstep] at h
      cases hitem : item text with
      | error e =>
          rw [hitem] at h
          cases h
          exact .element hitem
      | ok p =>
          obtain ⟨a, text₁⟩ := p
          rw [hitem, ok_bind, ok_bind] at h
          cases hs : readSeparator closing text₁ with
          | error e =>
              rw [foldRest, hs] at h
              cases h
              exact .separator hitem hs
          | ok p =>
              obtain ⟨another, text₂⟩ := p
              rw [foldRest_of_readSeparator _ _ _ hs] at h
              cases another with
              | false => cases h
              | true => exact .more hitem hs (ih h)

/-- **A fault among the elements.**  A fold that takes in every element fails because of it. -/
theorem faultyElements_of_foldElements (hstep : PutsInFront item step)
    (h : foldElements closing step limit as text = .error fault) :
    FaultyElements closing item limit text fault := by
  unfold foldElements at h
  split at h
  next hd =>
    cases h
    exact Or.inl ⟨hd, rfl⟩
  next c tail hd =>
    by_cases hc : c = closing
    · rw [if_pos hc] at h
      cases h
    · rw [if_neg hc] at h
      exact Or.inr ⟨⟨c, tail, hd, hc⟩, faulty_of_foldSeparated hstep h⟩

end

/-! ### Arrays and objects -/

section
variable {item : List Char → Except Malformed (Tree × List Char)} {limit budget : Nat}
  {text tail : List Char} {fault : Malformed}

theorem putsInFront_takeItem : PutsInFront item (takeItem item) := fun _ _ => rfl

theorem putsInFront_takeMember : PutsInFront (readMember item) (takeMember item) := by
  intro members text
  simp only [takeMember, readMember, bind_assoc]
  rfl

theorem faultyElements_of_readTree_array (hb : dropBlanks text = '[' :: tail)
    (h : readTree limit (budget + 1) text = .error fault) :
    FaultyElements ']' (readTree limit budget) limit tail fault := by
  rw [readTree_array hb] at h
  exact faultyElements_of_foldElements putsInFront_takeItem (bind_ok_eq_error.mp h)

theorem faultyElements_of_readTree_object (hb : dropBlanks text = '\x7b' :: tail)
    (h : readTree limit (budget + 1) text = .error fault) :
    FaultyElements '\x7d' (readMember (readTree limit budget)) limit tail fault := by
  rw [readTree_object hb] at h
  exact faultyElements_of_foldElements putsInFront_takeMember (bind_ok_eq_error.mp h)

end

end Intake.Json
