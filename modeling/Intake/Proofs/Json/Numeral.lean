import Mathlib.Data.List.TakeDrop
import Intake.Json.Reader

/-!
# Written integers, read back

An integer is written in decimal, and what is written is a numeral without a fraction or an
exponent.  A numeral takes in every digit that follows, so that the round trip asks for a text
behind the integer that does not go on with one (`EndsNumber`).

* `Numeral.read_toDigits`: the numeral of an integer's digits.
* `readNumber_text`: an integer of either kind is read back as the same number.
-/

namespace Intake.Json

/-- The text does not go on a number: no digit, point or exponent stands first in it. -/
def EndsNumber (text : List Char) : Prop :=
  ∀ c ∈ text.head?, c.isDigit = false ∧ c ≠ '.' ∧ c ≠ 'e' ∧ c ≠ 'E'

theorem endsNumber_nil : EndsNumber [] := fun _ h => by cases h

theorem endsNumber_cons {c : Char} (h : (c.isDigit || c == '.' || c == 'e' || c == 'E') = false)
    (text : List Char) : EndsNumber (c :: text) := by
  simp only [Bool.or_eq_false_iff, beq_eq_false_iff_ne] at h
  rintro _ ⟨⟩
  exact ⟨h.1.1.1, h.1.1.2, h.1.2, h.2⟩

/-! ### Digits -/

/-- A numeral starts with a digit or a minus sign, and no other token does. -/
theorem ne_of_opensNumeral {c d : Char} (hc : c = '-' ∨ c.isDigit = true)
    (hd : (d == '-' || d.isDigit) = false) : c ≠ d := by
  rintro rfl
  rw [Bool.or_eq_false_iff, beq_eq_false_iff_ne] at hd
  rcases hc with hc | hc
  · exact hd.1 hc
  · rw [hd.2] at hc; cases hc

theorem isBlank_of_opensNumeral {c : Char} (hc : c = '-' ∨ c.isDigit = true) :
    isBlank c = false := by
  simp [isBlank, ne_of_opensNumeral (d := ' ') hc rfl, ne_of_opensNumeral (d := '\t') hc rfl,
    ne_of_opensNumeral (d := '\n') hc rfl, ne_of_opensNumeral (d := '\r') hc rfl]

theorem isDigit_of_mem_toDigits {n : Nat} {c : Char} (h : c ∈ Nat.toDigits 10 n) :
    c.isDigit = true :=
  Nat.isDigit_of_mem_toDigits (by decide) (by decide) h

/-- No zero stands in front of other digits. -/
theorem toDigits_ne_zero_cons (n : Nat) (d : Char) (ds : List Char) :
    Nat.toDigits 10 n ≠ '0' :: d :: ds := by
  induction n using Nat.strongRecOn generalizing d ds with
  | ind n ih =>
      intro h
      by_cases hn : n < 10
      · simp [Nat.toDigits_of_lt_base hn] at h
      · rw [Nat.toDigits_of_base_le (by decide) (Nat.le_of_not_lt hn)] at h
        cases hq : Nat.toDigits 10 (n / 10) with
        | nil => exact Nat.toDigits_ne_nil hq
        | cons e es =>
            obtain ⟨rfl, -⟩ := List.cons.inj (hq ▸ h)
            cases es with
            | cons e' es' => exact ih (n / 10) (by omega) e' es' hq
            | nil =>
                have hz : n / 10 = 0 := by
                  rw [← Nat.ofDigitChars_ten_toDigits (n := n / 10), hq]; rfl
                omega

theorem readScalar_numeral {c : Char} (hc : c = '-' ∨ c.isDigit = true) (text : List Char) :
    readScalar (c :: text) = readNumber (c :: text) >>= fun p => .ok (.number p.1, p.2) := by
  simp only [readScalar, ne_of_opensNumeral (d := 'n') hc rfl,
    ne_of_opensNumeral (d := 't') hc rfl,
    ne_of_opensNumeral (d := 'f') hc rfl,
    ne_of_opensNumeral (d := '"') hc rfl, hc, if_true, if_false]
  rfl

namespace Numeral

/-- The text does not start with a digit. -/
def NoDigit (text : List Char) : Prop := ∀ c ∈ text.head?, c.isDigit = false

theorem readDigits_append {digits rest : List Char} (hne : digits ≠ [])
    (hd : ∀ c ∈ digits, c.isDigit = true) (hr : NoDigit rest) :
    readDigits (digits ++ rest) = .ok (digits, rest) := by
  have htake : rest.takeWhile Char.isDigit = [] := by
    cases rest with
    | nil => rfl
    | cons c _ => simp [hr c rfl]
  have hdrop : rest.dropWhile Char.isDigit = rest := by
    cases rest with
    | nil => rfl
    | cons c _ => simp [hr c rfl]
  have hspan : (digits ++ rest).span Char.isDigit = (digits, rest) := by
    rw [List.span_eq_takeWhile_dropWhile, List.takeWhile_append_of_pos hd,
      List.dropWhile_append_of_pos hd, htake, hdrop, List.append_nil]
  rw [readDigits, hspan]
  cases digits with
  | nil => exact absurd rfl hne
  | cons => rfl

theorem readWhole_toDigits (n : Nat) {rest : List Char} (hr : EndsNumber rest) :
    readWhole (Nat.toDigits 10 n ++ rest) = .ok (Nat.toDigits 10 n, rest) := by
  rw [readWhole, readDigits_append Nat.toDigits_ne_nil (fun _ h => isDigit_of_mem_toDigits h)
    fun c hc => (hr c hc).1]
  simp only [bind, Except.bind]
  split
  · rename_i d ds h
    exact absurd h (toDigits_ne_zero_cons n d ds)
  · rfl

theorem readFraction_endsNumber {rest : List Char} (hr : EndsNumber rest) :
    readFraction rest = .ok (none, rest) := by
  unfold readFraction
  split
  · exact absurd rfl (hr '.' rfl).2.1
  · rfl

theorem readExponent_endsNumber {rest : List Char} (hr : EndsNumber rest) :
    readExponent rest = .ok (none, rest) := by
  cases rest with
  | nil => rfl
  | cons c rest =>
      obtain ⟨-, -, he, hE⟩ := hr c rfl
      simp [readExponent, he, hE]

theorem readSign_toDigits (n : Nat) (rest : List Char) :
    readSign (Nat.toDigits 10 n ++ rest) = (false, Nat.toDigits 10 n ++ rest) := by
  cases h : Nat.toDigits 10 n with
  | nil => exact absurd h Nat.toDigits_ne_nil
  | cons d ds =>
      have hd : d.isDigit = true := isDigit_of_mem_toDigits (h ▸ List.mem_cons_self)
      have hne : d ≠ '-' := by rintro rfl; exact absurd hd (by decide)
      unfold readSign
      split
      · rename_i h'
        exact absurd (List.cons.inj h').1 hne
      · rfl

/-- **The numeral of an integer.**  Digits, perhaps behind a minus sign, are a numeral without a
fraction or an exponent. -/
theorem read_toDigits (negative : Bool) (n : Nat) {rest : List Char} (hr : EndsNumber rest) :
    read ((if negative then ['-'] else []) ++ (Nat.toDigits 10 n ++ rest)) =
      .ok (⟨negative, Nat.toDigits 10 n, none, none⟩, rest) := by
  have hsign : readSign ((if negative then ['-'] else []) ++ (Nat.toDigits 10 n ++ rest)) =
      (negative, Nat.toDigits 10 n ++ rest) := by
    cases negative with
    | true => rfl
    | false => exact readSign_toDigits n rest
  simp only [read, hsign, bind, Except.bind, readWhole_toDigits n hr, readFraction_endsNumber hr,
    readExponent_endsNumber hr]

/-! ### The integers among the numbers -/

theorem toNumber?_natural (n : UInt64) :
    toNumber? ⟨false, Nat.toDigits 10 n.toNat, none, none⟩ = some (.natural n) := by
  have hn : Number.ofInt? (n.toNat : Int) = some (.natural n) := dif_pos n.toNat_lt
  simp only [toNumber?, Nat.ofDigitChars_ten_toDigits, Option.isSome_none, Bool.or_self,
    Bool.false_eq_true, if_false, hn]

theorem toNumber?_negative (k : Fin 0x8000000000000000) :
    toNumber? ⟨true, Nat.toDigits 10 (k + 1), none, none⟩ = some (.negative k) := by
  have hk : Number.ofInt? (-((k.val + 1 : Nat) : Int)) = some (.negative k) := by
    rw [show -((k.val + 1 : Nat) : Int) = .negSucc k by omega]
    simp only [Number.ofInt?, k.isLt, dif_pos]
  simp only [toNumber?, Nat.ofDigitChars_ten_toDigits, Option.isSome_none, Bool.or_self,
    Bool.false_eq_true, if_false, if_true, Nat.succ_ne_zero, hk]

end Numeral

/-- Whether a number is a double. -/
def Number.IsDouble : Number → Prop
  | .double _ => True
  | _ => False

/-- **The round trip.**  An integer is read back as the same number. -/
theorem readNumber_text {n : Number} (hn : ¬ n.IsDouble) {rest : List Char}
    (hr : EndsNumber rest) : readNumber (n.text ++ rest) = .ok (n, rest) := by
  cases n with
  | natural n =>
      have h := Numeral.read_toDigits false n.toNat hr
      simp only [Bool.false_eq_true, if_false, List.nil_append] at h
      simp only [readNumber, Number.text, h, bind, Except.bind, Numeral.toNumber?_natural]
  | negative k =>
      have h := Numeral.read_toDigits true (k + 1) hr
      simp only [if_true, List.singleton_append] at h
      simp only [readNumber, Number.text, List.cons_append, h, bind, Except.bind,
        Numeral.toNumber?_negative]
  | double d => exact absurd trivial hn

end Intake.Json
