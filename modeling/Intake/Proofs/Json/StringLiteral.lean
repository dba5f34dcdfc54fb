import Intake.Json.StringLiteral

/-!
# String literals, read back

`StringLiteral.write` escapes a character at a time and `StringLiteral.read` is a machine on
characters, so that the round trip is one lemma a character.

* `run_escape`: from the plain state, the spelling of a character completes this character and
  leads back to the plain state.
* `read_write`: the literal of a string is read as that string, whatever follows the closing mark.
-/

namespace Intake.Json.StringLiteral

/-- What the machine gives when `completed` is put in front of what it gives from a later state. -/
def completing (completed : Option Char) (result : Except Malformed (List Char × List Char)) :
    Except Malformed (List Char × List Char) :=
  result.map fun (cs, rest) => (completed.toList ++ cs, rest)

theorem run_cons {accept : Option Nat → Nat → Except Malformed Move} {s : State} {c : Char}
    (completed : Option Char) (s' : State) (h : s.step accept c = .ok (.next completed s'))
    (text : List Char) : s.run accept (c :: text) = completing completed (s'.run accept text) := by
  simp only [State.run, h]
  cases s'.run accept text <;> rfl

/-- A step that completes nothing is not seen in the result. -/
theorem run_cons_none {accept : Option Nat → Nat → Except Malformed Move} {s : State} {c : Char}
    (s' : State) (h : s.step accept c = .ok (.next none s')) (text : List Char) :
    s.run accept (c :: text) = s'.run accept text := by
  rw [run_cons none s' h]
  cases s'.run accept text <;> rfl

/-- A successful run has closed the literal with its first character, or has gone on. -/
theorem run_cons_eq_ok {accept : Option Nat → Nat → Except Malformed Move} {s : State} {c : Char}
    {text cs rest : List Char} (h : s.run accept (c :: text) = .ok (cs, rest)) :
    (s.step accept c = .ok .close ∧ cs = [] ∧ rest = text) ∨
      ∃ completed s' cs', s.step accept c = .ok (.next completed s') ∧
        s'.run accept text = .ok (cs', rest) ∧ cs = completed.toList ++ cs' := by
  cases hstep : s.step accept c with
  | error e => rw [State.run, hstep] at h; cases h
  | ok move =>
      cases move with
      | close =>
          rw [State.run, hstep] at h
          cases h
          exact Or.inl ⟨rfl, rfl, rfl⟩
      | next completed s' =>
          rw [run_cons completed s' hstep] at h
          cases hrun : s'.run accept text with
          | error e => rw [hrun] at h; cases h
          | ok r =>
              rw [hrun] at h
              cases h
              exact Or.inr ⟨completed, s', r.1, rfl, hrun, rfl⟩

/-- A backslash and the character that stands for another one. -/
theorem run_short {c x : Char} (hx : x ≠ 'u') (h : unescape? x = some c) (text : List Char) :
    State.plain.run acceptUnit ('\\' :: x :: text) =
      completing (some c) (State.plain.run acceptUnit text) := by
  rw [run_cons_none .escape rfl, run_cons (some c) .plain]
  simp [State.step, hx, h]

/-! ### Code units -/

/-- Two zeros and the two digits that `escape` writes denote the code unit. -/
theorem unit?_hexDigits : ∀ n : Fin 32,
    unit? ['0', '0', hexDigit (n / 16), hexDigit (n % 16)] = some n.val := by
  decide

theorem octets_hexDigits : ∀ n : Fin 32,
    octets ['0', '0', hexDigit (n / 16)] = 3 ∧
      octets ['0', '0', hexDigit (n / 16), hexDigit (n % 16)] = 4 := by
  decide

/-- A code unit below 32 is a character by itself. -/
theorem acceptUnit_control {n : Nat} (h : n < 32) :
    acceptUnit none n = .ok (.next (some (Char.ofNat n)) .plain) := by
  have hlow : isLow n = false := by
    simp only [isLow, Bool.and_eq_false_iff, decide_eq_false_iff_not]; omega
  have hhigh : isHigh n = false := by
    simp only [isHigh, Bool.and_eq_false_iff, decide_eq_false_iff_not]; omega
  simp [acceptUnit, hlow, hhigh]

/-- A control character is escaped by its code unit. -/
theorem run_control {c : Char} (h : c.toNat < 0x20) (text : List Char) :
    State.plain.run acceptUnit
        ('\\' :: 'u' :: '0' :: '0' :: hexDigit (c.toNat / 16) :: hexDigit (c.toNat % 16) :: text) =
      completing (some c) (State.plain.run acceptUnit text) := by
  obtain ⟨h₃, h₄⟩ := octets_hexDigits ⟨c.toNat, h⟩
  have hu := unit?_hexDigits ⟨c.toNat, h⟩
  simp only at h₃ h₄ hu
  rw [run_cons_none .escape rfl, run_cons_none (.codeUnit none []) rfl,
    run_cons_none (.codeUnit none ['0']) rfl, run_cons_none (.codeUnit none ['0', '0']) rfl,
    run_cons_none (.codeUnit none ['0', '0', hexDigit (c.toNat / 16)]),
    run_cons (some c) .plain]
  · simp [State.step, h₄, hu, acceptUnit_control h]
  · simp [State.step, h₃]

/-! ### The round trip -/

/-- **One character.**  From the plain state, the spelling of a character completes it. -/
theorem run_escape (c : Char) (text : List Char) :
    State.plain.run acceptUnit (escape c ++ text) =
      completing (some c) (State.plain.run acceptUnit text) := by
  by_cases h : c = '"' ∨ c = '\\' ∨ c = '\x08' ∨ c = '\x0c' ∨ c = '\n' ∨ c = '\r' ∨ c = '\t'
  · rcases h with rfl | rfl | rfl | rfl | rfl | rfl | rfl <;> exact run_short (by decide) rfl text
  · simp only [not_or] at h
    obtain ⟨hquote, hslash, hb, hf, hn, hr, ht⟩ := h
    by_cases hc : c.toNat < 0x20
    · simp only [escape, hquote, hslash, hb, hf, hn, hr, ht, hc, if_true, if_false]
      exact run_control hc text
    · simp only [escape, hquote, hslash, hb, hf, hn, hr, ht, hc, if_false]
      exact run_cons (some c) .plain (by simp [State.step, hquote, hslash, hc]) text

theorem run_escapes (cs rest : List Char) :
    State.plain.run acceptUnit (cs.flatMap escape ++ '"' :: rest) = .ok (cs, rest) := by
  induction cs with
  | nil => rfl
  | cons c cs ih =>
      rw [List.flatMap_cons, List.append_assoc, run_escape, ih]
      rfl

/-- **The round trip.**  The literal of a string, without its opening mark, is read as that string
whatever follows. -/
theorem read_write (s : String) (rest : List Char) :
    read (s.toList.flatMap escape ++ '"' :: rest) = .ok (s, rest) := by
  rw [read, run_escapes]
  exact congrArg (fun s => Except.ok (s, rest)) String.ofList_toList

end Intake.Json.StringLiteral
