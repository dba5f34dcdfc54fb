import Intake.Proofs.Json.Container
import Intake.Proofs.Json.Numeral
import Intake.Proofs.Json.StringLiteral

/-!
# Texts without their blanks

Blanks may be left out of a text between its tokens, and inside a string they may not.  `squeeze`
leaves them out, and so has to follow the strings of a text: a mark opens or closes one, unless it
stands behind a backslash.

The tokens that take more than one character are numbers and strings.  A number has no blank in it;
it ends where the squeezed text does not go on with it (`Numeral.read_squeeze`).  For a string, the
places that `squeeze` tells apart are related to the states of the machine that reads it
(`StringLiteral.place_next`).

* `squeeze`: a text without the blanks outside its strings.
* `dropBlanks_squeeze`: squeezing keeps the first character that is no blank.
* `Numeral.read_squeeze`, `StringLiteral.read_squeeze`: numbers and strings.
-/

namespace Intake.Json

/-- Where a character of a text stands. -/
inductive Place where
  | outside
  | inside
  /-- Inside a string, behind a backslash. -/
  | escaped
deriving DecidableEq

/-- Where the character after one stands. -/
def Place.next : Place → Char → Place
  | outside, c => if c = '"' then inside else outside
  | inside, c => if c = '"' then outside else if c = '\\' then escaped else inside
  | escaped, _ => inside

/-- The text without the blanks outside its strings, if it starts at a place. -/
def squeeze : Place → List Char → List Char
  | _, [] => []
  | place, c :: text =>
    if place = .outside ∧ isBlank c = true then squeeze place text
    else c :: squeeze (place.next c) text

theorem squeeze_cons {place : Place} {c : Char} (h : place = .outside → isBlank c = false)
    (text : List Char) : squeeze place (c :: text) = c :: squeeze (place.next c) text := by
  refine if_neg ?_
  rintro ⟨hp, hb⟩
  rw [h hp] at hb
  cases hb

theorem squeeze_blank {c : Char} (h : isBlank c = true) (text : List Char) :
    squeeze .outside (c :: text) = squeeze .outside text := if_pos ⟨rfl, h⟩

/-- The first character that is no blank is kept. -/
theorem squeeze_of_dropBlanks {text rest : List Char} {c : Char} (h : dropBlanks text = c :: rest) :
    isBlank c = false ∧ squeeze .outside text = c :: squeeze (Place.outside.next c) rest := by
  induction text with
  | nil => cases h
  | cons d text ih =>
      cases hd : isBlank d with
      | true =>
          rw [squeeze_blank hd]
          refine ih ?_
          rwa [dropBlanks, List.dropWhile_cons_of_pos hd] at h
      | false =>
          rw [dropBlanks_cons hd] at h
          cases h
          exact ⟨hd, squeeze_cons (fun _ => hd) _⟩

theorem squeeze_of_dropBlanks_nil {text : List Char} (h : dropBlanks text = []) :
    squeeze .outside text = [] := by
  induction text with
  | nil => rfl
  | cons d text ih =>
      cases hd : isBlank d with
      | true =>
          rw [squeeze_blank hd]
          refine ih ?_
          rwa [dropBlanks, List.dropWhile_cons_of_pos hd] at h
      | false => rw [dropBlanks_cons hd] at h; cases h

theorem dropBlanks_squeeze {text rest : List Char} {c : Char} (h : dropBlanks text = c :: rest) :
    dropBlanks (squeeze .outside text) = c :: squeeze (Place.outside.next c) rest := by
  obtain ⟨hb, hs⟩ := squeeze_of_dropBlanks h
  rw [hs, dropBlanks_cons hb]

/-- The character is neither a blank nor a quotation mark. -/
def isToken (c : Char) : Bool := !isBlank c && c != '"'

theorem isToken_iff {c : Char} : isToken c = true ↔ isBlank c = false ∧ c ≠ '"' := by
  simp [isToken]

theorem squeeze_token {c : Char} (h : isToken c = true) (text : List Char) :
    squeeze .outside (c :: text) = c :: squeeze .outside text := by
  obtain ⟨hb, hq⟩ := isToken_iff.mp h
  rw [squeeze_cons fun _ => hb, Place.next, if_neg hq]

theorem squeeze_tokens {cs : List Char} (h : ∀ c ∈ cs, isToken c = true) (text : List Char) :
    squeeze .outside (cs ++ text) = cs ++ squeeze .outside text := by
  induction cs with
  | nil => rfl
  | cons c cs ih =>
      rw [List.forall_mem_cons] at h
      rw [List.cons_append, squeeze_token h.1, ih h.2, List.cons_append]

theorem isToken_of_isDigit {c : Char} (h : c.isDigit = true) : isToken c = true :=
  isToken_iff.mpr ⟨isBlank_of_opensNumeral (Or.inr h), ne_of_opensNumeral (Or.inr h) rfl⟩

/-! ### Numbers -/

namespace Numeral

theorem eq_append_of_readDigits {text digits rest : List Char}
    (h : readDigits text = .ok (digits, rest)) :
    text = digits ++ rest ∧ digits ≠ [] ∧ ∀ c ∈ digits, c.isDigit = true := by
  rw [readDigits, List.span_eq_takeWhile_dropWhile] at h
  have happ : text.takeWhile Char.isDigit ++ text.dropWhile Char.isDigit = text :=
    List.takeWhile_append_dropWhile
  have hall : ∀ c ∈ text.takeWhile Char.isDigit, c.isDigit = true := fun c hc =>
    List.all_eq_true.mp List.all_takeWhile c hc
  cases htake : text.takeWhile Char.isDigit with
  | nil =>
      rw [htake] at h
      cases hdrop : text.dropWhile Char.isDigit with
      | nil => rw [hdrop] at h; cases h
      | cons => rw [hdrop] at h; cases h
  | cons d ds =>
      rw [htake] at h happ hall
      cases h
      exact ⟨happ.symm, List.cons_ne_nil d ds, hall⟩

variable {text rest : List Char}

theorem readDigits_squeeze {digits : List Char} (h : readDigits text = .ok (digits, rest))
    (hr : NoDigit (squeeze .outside rest)) :
    readDigits (squeeze .outside text) = .ok (digits, squeeze .outside rest) := by
  obtain ⟨rfl, hne, hd⟩ := eq_append_of_readDigits h
  rw [squeeze_tokens fun c hc => isToken_of_isDigit (hd c hc)]
  exact readDigits_append hne hd hr

theorem readWhole_squeeze {digits : List Char} (h : readWhole text = .ok (digits, rest))
    (hr : NoDigit (squeeze .outside rest)) :
    readWhole (squeeze .outside text) = .ok (digits, squeeze .outside rest) := by
  obtain ⟨⟨ds, rest'⟩, hd, h⟩ := bind_eq_ok.mp h
  dsimp only at h
  split at h
  · cases h
  next hz =>
    cases h
    rw [readWhole, readDigits_squeeze hd hr, ok_bind]
    dsimp only
    split
    next d ds' => exact absurd rfl (hz _ _)
    next => rfl

/-- A text of digits bears no sign. -/
theorem ne_sign_of_readDigits {digits : List Char} (h : readDigits text = .ok (digits, rest))
    {sign : Char} (hs : sign.isDigit = false) (tail : List Char) : text ≠ sign :: tail := by
  obtain ⟨rfl, hne, hd⟩ := eq_append_of_readDigits h
  cases digits with
  | nil => exact absurd rfl hne
  | cons d ds =>
      intro he
      rw [← (List.cons.inj he).1, hd d List.mem_cons_self] at hs
      cases hs

theorem readSignedDigits_of_readDigits {digits : List Char}
    (h : readDigits text = .ok (digits, rest)) :
    readSignedDigits text = .ok ((Nat.ofDigitChars 10 digits 0 : Int), rest) := by
  unfold readSignedDigits
  split
  · exact absurd rfl (ne_sign_of_readDigits h rfl _)
  · exact absurd rfl (ne_sign_of_readDigits h rfl _)
  · rw [h]
    rfl

theorem readSign_of_readDigits {digits : List Char} (h : readDigits text = .ok (digits, rest)) :
    readSign text = (false, text) := by
  unfold readSign
  split
  · exact absurd rfl (ne_sign_of_readDigits h rfl _)
  · rfl

theorem readSignedDigits_squeeze {e : Int} (h : readSignedDigits text = .ok (e, rest))
    (hr : NoDigit (squeeze .outside rest)) :
    readSignedDigits (squeeze .outside text) = .ok (e, squeeze .outside rest) := by
  unfold readSignedDigits at h
  split at h
  · obtain ⟨⟨digits, _⟩, hd, h⟩ := bind_eq_ok.mp h
    cases h
    rw [squeeze_token rfl, readSignedDigits, readDigits_squeeze hd hr]
    rfl
  · obtain ⟨⟨digits, _⟩, hd, h⟩ := bind_eq_ok.mp h
    cases h
    rw [squeeze_token rfl, readSignedDigits, readDigits_squeeze hd hr]
    rfl
  · obtain ⟨⟨digits, _⟩, hd, h⟩ := bind_eq_ok.mp h
    cases h
    exact readSignedDigits_of_readDigits (readDigits_squeeze hd hr)

/-- The text does not go on a number before its exponent. -/
theorem readExponent_squeeze {e : Option Int} (h : readExponent text = .ok (e, rest))
    (hr : EndsNumber (squeeze .outside rest)) :
    readExponent (squeeze .outside text) = .ok (e, squeeze .outside rest) ∧
      ∀ c ∈ (squeeze .outside text).head?, c.isDigit = false ∧ c ≠ '.' := by
  cases text with
  | nil =>
      cases h
      exact ⟨rfl, nofun⟩
  | cons c text =>
      rw [readExponent] at h
      by_cases hc : c = 'e' ∨ c = 'E'
      · rw [if_pos hc] at h
        obtain ⟨⟨e, _⟩, he, h⟩ := bind_eq_ok.mp h
        cases h
        have htoken : isToken c = true := by
          rcases hc with rfl | rfl
          · rfl
          · rfl
        rw [squeeze_token htoken]
        constructor
        · rw [readExponent, if_pos hc, readSignedDigits_squeeze he fun c hc => (hr c hc).1]
          rfl
        · rintro _ ⟨⟩
          rcases hc with rfl | rfl
          · exact ⟨rfl, by decide⟩
          · exact ⟨rfl, by decide⟩
      · rw [if_neg hc] at h
        cases h
        exact ⟨readExponent_endsNumber hr, fun c hc => ⟨(hr c hc).1, (hr c hc).2.1⟩⟩

theorem readFraction_squeeze {f : Option (List Char)} (h : readFraction text = .ok (f, rest))
    (hr : ∀ c ∈ (squeeze .outside rest).head?, c.isDigit = false ∧ c ≠ '.') :
    readFraction (squeeze .outside text) = .ok (f, squeeze .outside rest) ∧
      NoDigit (squeeze .outside text) := by
  unfold readFraction at h
  split at h
  · obtain ⟨⟨digits, _⟩, hd, h⟩ := bind_eq_ok.mp h
    cases h
    rw [squeeze_token rfl]
    refine ⟨?_, ?_⟩
    · rw [readFraction, readDigits_squeeze hd fun c hc => (hr c hc).1]
      rfl
    · rintro _ ⟨⟩
      rfl
  · cases h
    refine ⟨?_, fun c hc => (hr c hc).1⟩
    unfold readFraction
    split
    next hs => exact absurd rfl (hr '.' (by rw [hs]; rfl)).2
    next => rfl

theorem read_eq_ok {numeral : Numeral} :
    read text = .ok (numeral, rest) ↔
      ∃ text₁ text₂, (readSign text).1 = numeral.negative ∧
        readWhole (readSign text).2 = .ok (numeral.whole, text₁) ∧
        readFraction text₁ = .ok (numeral.fraction, text₂) ∧
        readExponent text₂ = .ok (numeral.exponent, rest) := by
  rw [read, bind_eq_ok]
  constructor
  · rintro ⟨⟨whole, text₁⟩, hw, h⟩
    obtain ⟨⟨fraction, text₂⟩, hf, h⟩ := bind_eq_ok.mp h
    obtain ⟨⟨exponent, _⟩, he, h⟩ := bind_eq_ok.mp h
    cases h
    exact ⟨text₁, text₂, rfl, hw, hf, he⟩
  · rintro ⟨text₁, text₂, hs, hw, hf, he⟩
    refine ⟨_, hw, bind_eq_ok.mpr ⟨_, hf, bind_eq_ok.mpr ⟨_, he, ?_⟩⟩⟩
    rw [hs]

/-- A sign is kept, and so is what it stands in front of. -/
theorem readSign_squeeze {digits : List Char}
    (h : readWhole (readSign text).2 = .ok (digits, rest)) (hr : NoDigit (squeeze .outside rest)) :
    readSign (squeeze .outside text) = ((readSign text).1, squeeze .outside (readSign text).2) := by
  by_cases hs : ∃ tail, text = '-' :: tail
  · obtain ⟨tail, rfl⟩ := hs
    rw [squeeze_token rfl]
    rfl
  · have hsign : readSign text = (false, text) := by
      unfold readSign
      split
      · exact absurd ⟨_, rfl⟩ hs
      · rfl
    rw [hsign] at h ⊢
    obtain ⟨⟨_, _⟩, hd, -⟩ := bind_eq_ok.mp (readWhole_squeeze h hr)
    exact readSign_of_readDigits hd

theorem read_squeeze {numeral : Numeral} (h : read text = .ok (numeral, rest))
    (hr : EndsNumber (squeeze .outside rest)) :
    read (squeeze .outside text) = .ok (numeral, squeeze .outside rest) := by
  obtain ⟨text₁, text₂, hs, hw, hf, he⟩ := read_eq_ok.mp h
  -- from the last part to the first: each part shows that the one before it ends where it did
  obtain ⟨he, hr₂⟩ := readExponent_squeeze he hr
  obtain ⟨hf, hr₁⟩ := readFraction_squeeze hf hr₂
  have hsign := readSign_squeeze hw hr₁
  refine read_eq_ok.mpr ⟨_, _, ?_, ?_, hf, he⟩
  · rw [hsign, hs]
  · rw [hsign]
    exact readWhole_squeeze hw hr₁

end Numeral
/-! ### Strings -/

namespace StringLiteral

/-- Where the characters stand that a state of the machine waits for. -/
def State.place : State → Place
  | plain | codeUnit _ _ | half _ => .inside
  | escape | halfEscape _ => .escaped

/-! Of the characters that a code unit takes, none may leave the string. -/

theorem ne_of_hexValue? {c d : Char} (h : (hexValue? c).isSome = true)
    (hd : hexValue? d = none) : c ≠ d := by
  rintro rfl
  rw [hd] at h
  cases h

theorem hexValue?_of_unit? {cs : List Char} {unit : Nat} (h : unit? cs = some unit) :
    ∀ c ∈ cs, (hexValue? c).isSome = true := by
  match cs, h with
  | [a, b, c, d], h =>
      simp only [unit?, Option.bind_eq_bind, Option.bind_eq_some_iff] at h
      obtain ⟨_, ha, _, hb, _, hc, _, hd, -⟩ := h
      simp [ha, hb, hc, hd]

theorem hexValue?_of_run {high : Option Nat} {taken text : List Char}
    {r : List Char × List Char} (h : (State.codeUnit high taken).run acceptUnit text = .ok r) :
    ∀ c ∈ taken, (hexValue? c).isSome = true := by
  induction text generalizing taken r with
  | nil => cases h
  | cons c text ih =>
      have hmem : ∀ d ∈ taken, d ∈ taken ++ [c] := fun d hd => List.mem_append_left _ hd
      -- the digits are looked at only when four octets are there: the run goes on until then
      by_cases hlt : octets (taken ++ [c]) < 4
      · have hstep : (State.codeUnit high taken).step acceptUnit c =
            .ok (.next none (.codeUnit high (taken ++ [c]))) := if_pos hlt
        rw [run_cons_none _ hstep] at h
        exact fun d hd => ih h d (hmem d hd)
      · rw [State.run, State.step, if_neg hlt] at h
        cases hu : unit? (taken ++ [c]) with
        | none => rw [hu] at h; cases h
        | some unit => exact fun d hd => hexValue?_of_unit? hu d (hmem d hd)

/-- A code unit goes on with the string. -/
theorem place_of_acceptUnit {high : Option Nat} {unit : Nat} {move : Move}
    (h : acceptUnit high unit = .ok move) :
    ∃ completed s, move = .next completed s ∧ s.place = .inside := by
  unfold acceptUnit at h
  split at h
  · split at h
    · cases h
    · split at h
      · cases h; exact ⟨_, _, rfl, rfl⟩
      · cases h; exact ⟨_, _, rfl, rfl⟩
  · split at h
    · cases h; exact ⟨_, _, rfl, rfl⟩
    · cases h

/-- The machine and the places agree on every character of a literal that is read to its end. -/
theorem place_next {s s' : State} {c : Char} {completed : Option Char} {text : List Char}
    {r : List Char × List Char} (h : s.step acceptUnit c = .ok (.next completed s'))
    (hr : s'.run acceptUnit text = .ok r) : s.place.next c = s'.place := by
  cases s with
  | plain =>
      rw [State.step] at h
      by_cases hq : c = '"'
      · rw [if_pos hq] at h; cases h
      · rw [if_neg hq] at h
        by_cases hs : c = '\\'
        · rw [if_pos hs] at h
          cases h
          subst hs
          rfl
        · rw [if_neg hs] at h
          split at h
          · cases h
          · cases h
            rw [State.place, Place.next, if_neg hq, if_neg hs]
  | escape =>
      rw [State.step] at h
      split at h
      · cases h; rfl
      · split at h
        · cases h; rfl
        · cases h
  | codeUnit high taken =>
      -- the step itself lets any character pass; that it is a digit shows only later in the run
      have hc : (hexValue? c).isSome = true ∧ s'.place = .inside := by
        have hmem : c ∈ taken ++ [c] := List.mem_append_right _ List.mem_cons_self
        rw [State.step] at h
        split at h
        · cases h
          exact ⟨hexValue?_of_run hr c hmem, rfl⟩
        · split at h
          next unit hu =>
            obtain ⟨_, _, he, hp⟩ := place_of_acceptUnit h
            cases he
            exact ⟨hexValue?_of_unit? hu c hmem, hp⟩
          next => cases h
      rw [hc.2, State.place, Place.next, if_neg (ne_of_hexValue? hc.1 rfl),
        if_neg (ne_of_hexValue? hc.1 rfl)]
  | half high =>
      rw [State.step] at h
      by_cases hs : c = '\\'
      · rw [if_pos hs] at h
        cases h
        subst hs
        rfl
      · rw [if_neg hs] at h; cases h
  | halfEscape high =>
      rw [State.step] at h
      split at h
      · cases h; rfl
      · cases h

/-- Only a mark in the plain state closes a literal. -/
theorem eq_of_step_close {s : State} {c : Char} (h : s.step acceptUnit c = .ok .close) :
    s = .plain ∧ c = '"' := by
  cases s with
  | plain =>
      rw [State.step] at h
      by_cases hq : c = '"'
      · exact ⟨rfl, hq⟩
      · rw [if_neg hq] at h
        split at h
        · cases h
        · split at h
          · cases h
          · cases h
  | escape =>
      rw [State.step] at h
      split at h
      · cases h
      · split at h
        · cases h
        · cases h
  | codeUnit high taken =>
      rw [State.step] at h
      split at h
      · cases h
      · split at h
        next unit hu =>
          obtain ⟨_, _, he, -⟩ := place_of_acceptUnit h
          cases he
        next => cases h
  | half high =>
      rw [State.step] at h
      split at h
      · cases h
      · cases h
  | halfEscape high =>
      rw [State.step] at h
      split at h
      · cases h
      · cases h

theorem place_ne_outside (s : State) : s.place ≠ .outside := by
  cases s with
  | plain | escape | codeUnit _ _ | half _ | halfEscape _ => exact nofun

theorem run_squeeze {s : State} {text cs rest : List Char}
    (h : s.run acceptUnit text = .ok (cs, rest)) :
    s.run acceptUnit (squeeze s.place text) = .ok (cs, squeeze .outside rest) := by
  induction text generalizing s cs with
  | nil => cases h
  | cons c text ih =>
      rw [squeeze_cons fun hp => absurd hp (place_ne_outside s)]
      rcases run_cons_eq_ok h with ⟨hclose, rfl, rfl⟩ | ⟨completed, s', cs', hstep, hrun, rfl⟩
      · obtain ⟨rfl, rfl⟩ := eq_of_step_close hclose
        rfl
      · rw [place_next hstep hrun, run_cons completed s' hstep, ih hrun]
        rfl

theorem read_squeeze {text rest : List Char} {s : String} (h : read text = .ok (s, rest)) :
    read (squeeze .inside text) = .ok (s, squeeze .outside rest) := by
  unfold read at h ⊢
  cases hrun : State.plain.run acceptUnit text with
  | error e => rw [hrun] at h; cases h
  | ok r =>
      rw [hrun] at h
      cases h
      have hs := run_squeeze hrun
      rw [State.place] at hs
      rw [hs]
      rfl

end StringLiteral

end Intake.Json
