import Intake.Proofs.Json.Reader
import Intake.Proofs.Json.Squeeze

/-!
# Blanks

Blanks between the tokens of a text carry nothing: two texts that differ in them only are texts of
the same tree (`Tree.read_eq_of_squeeze`).

Every reader that is successful on a text is so on the squeezed text, with the same result and with
the squeezed rest.  Numbers are the exception: digits behind a blank would go on with a number.
They are refused only by what reads on, so that the statement about trees asks for a rest with which
no number goes on, and whatever reads on provides for it.

* `Squeezes`: what squeezing does to a reader.
* `Elements.squeeze`: the elements of a container, given what it does to one of them.
* `readTree_squeeze`: trees.
* `Tree.read_eq_of_squeeze`: whole texts.
-/

namespace Intake.Json

/-! ### Scalars and the marks between them -/

section
variable {text rest : List Char}

theorem readNumber_squeeze {n : Number} (h : readNumber text = .ok (n, rest))
    (hr : EndsNumber (squeeze .outside rest)) :
    readNumber (squeeze .outside text) = .ok (n, squeeze .outside rest) := by
  obtain ⟨⟨numeral, rest'⟩, hn, h⟩ := bind_eq_ok.mp h
  dsimp only at h
  cases hnum : numeral.toNumber? with
  | none => rw [hnum] at h; cases h
  | some n' =>
      rw [hnum] at h
      cases h
      rw [readNumber, Numeral.read_squeeze hn hr, ok_bind]
      dsimp only
      rw [hnum]

theorem readLetters_squeeze {letters : List Char} (hl : letters.all isToken = true)
    (h : readLetters letters text = .ok rest) :
    readLetters letters (squeeze .outside text) = .ok (squeeze .outside rest) := by
  induction letters generalizing text with
  | nil => cases h; rfl
  | cons letter letters ih =>
      rw [List.all_cons, Bool.and_eq_true] at hl
      cases text with
      | nil => cases h
      | cons c text =>
          rw [readLetters] at h
          by_cases hc : c = letter
          · subst hc
            rw [if_pos rfl] at h
            rw [squeeze_token hl.1, readLetters, if_pos rfl]
            exact ih hl.2 h
          · rw [if_neg hc] at h; cases h

/-- A word is read letter by letter, and none of its letters is a blank. -/
theorem readWord_squeeze {letters : List Char} {t₀ t : Tree} (hl : letters.all isToken = true)
    (h : (readLetters letters text >>= fun rest => .ok (t₀, rest)) = .ok (t, rest)) :
    (readLetters letters (squeeze .outside text) >>= fun rest => .ok (t₀, rest)) =
      .ok (t, squeeze .outside rest) := by
  obtain ⟨_, hw, h⟩ := bind_eq_ok.mp h
  cases h
  rw [readLetters_squeeze hl hw]
  rfl

theorem readScalar_squeeze {t : Tree} (h : readScalar text = .ok (t, rest))
    (hr : EndsNumber (squeeze .outside rest)) :
    readScalar (squeeze .outside text) = .ok (t, squeeze .outside rest) := by
  cases text with
  | nil => cases h
  | cons c text =>
      by_cases hnum : c = '-' ∨ c.isDigit = true
      · rw [readScalar_numeral hnum] at h
        obtain ⟨⟨n, _⟩, hn, h⟩ := bind_eq_ok.mp h
        cases h
        have hs := readNumber_squeeze hn hr
        have htoken : isToken c = true :=
          isToken_iff.mpr ⟨isBlank_of_opensNumeral hnum, ne_of_opensNumeral hnum rfl⟩
        rw [squeeze_token htoken] at hs ⊢
        rw [readScalar_numeral hnum, hs]
        rfl
      · by_cases hn : c = 'n'
        · subst hn
          rw [squeeze_token rfl]
          exact readWord_squeeze (by rfl) h
        by_cases ht : c = 't'
        · subst ht
          rw [squeeze_token rfl]
          exact readWord_squeeze (by rfl) h
        by_cases hf : c = 'f'
        · subst hf
          rw [squeeze_token rfl]
          exact readWord_squeeze (by rfl) h
        rw [readScalar, if_neg hn, if_neg ht, if_neg hf] at h
        by_cases hq : c = '"'
        · subst hq
          rw [if_pos rfl] at h
          obtain ⟨⟨s, _⟩, hs, h⟩ := bind_eq_ok.mp h
          cases h
          rw [squeeze_cons fun _ => rfl]
          exact bind_eq_ok.mpr ⟨_, StringLiteral.read_squeeze hs, rfl⟩
        · rw [if_neg hq, if_neg hnum] at h
          cases h

theorem readKey_squeeze {key : String} (h : readKey text = .ok (key, rest)) :
    readKey (squeeze .outside text) = .ok (key, squeeze .outside rest) := by
  unfold readKey at h
  split at h
  next => cases h
  next c tail hd =>
    by_cases hq : c = '"'
    · subst hq
      rw [if_pos rfl] at h
      rw [readKey, dropBlanks_squeeze hd]
      exact StringLiteral.read_squeeze h
    · rw [if_neg hq] at h; cases h

theorem readColon_squeeze (h : readColon text = .ok rest) :
    readColon (squeeze .outside text) = .ok (squeeze .outside rest) := by
  unfold readColon at h
  split at h
  next => cases h
  next c tail hd =>
    by_cases hq : c = ':'
    · subst hq
      cases h
      rw [readColon, dropBlanks_squeeze hd]
      rfl
    · rw [if_neg hq] at h; cases h

/-- A bracket that closes an array or an object. -/
def IsClosing (c : Char) : Prop := c = ']' ∨ c = '\x7d'

/-- A separator is kept, and no number goes on where it stands. -/
theorem readSeparator_squeeze {closing : Char} (hc : IsClosing closing) {another : Bool}
    (h : readSeparator closing text = .ok (another, rest)) :
    readSeparator closing (squeeze .outside text) = .ok (another, squeeze .outside rest) ∧
      EndsNumber (squeeze .outside text) := by
  unfold readSeparator at h
  split at h
  next => cases h
  next c tail hd =>
    have hs := (squeeze_of_dropBlanks hd).2
    rw [readSeparator, dropBlanks_squeeze hd, hs]
    by_cases hclose : c = closing
    · subst hclose
      rw [if_pos rfl] at h
      cases h
      rcases hc with rfl | rfl
      · exact ⟨rfl, endsNumber_cons rfl _⟩
      · exact ⟨rfl, endsNumber_cons rfl _⟩
    · rw [if_neg hclose] at h
      by_cases hcomma : c = ','
      · subst hcomma
        cases h
        exact ⟨if_neg hclose, endsNumber_cons rfl _⟩
      · rw [if_neg hcomma] at h; cases h

end

/-! ### Containers -/

/-- Reading on the squeezed text gives what reading gives, where no number goes on behind it. -/
def Squeezes {α : Type} (item item' : List Char → Except Malformed (α × List Char)) : Prop :=
  ∀ text a rest, item text = .ok (a, rest) → EndsNumber (squeeze .outside rest) →
    item' (squeeze .outside text) = .ok (a, squeeze .outside rest)

section
variable {α : Type} {item item' : List Char → Except Malformed (α × List Char)} {closing : Char}

theorem Separated.squeeze (hi : Squeezes item item') (hc : IsClosing closing) {limit : Nat}
    {text rest : List Char} {as : List α} (h : Separated closing item limit text as rest) :
    ∀ {limit' : Nat}, limit ≤ limit' →
      Separated closing item' limit' (squeeze .outside text) as (squeeze .outside rest) := by
  induction h with
  | last h hs =>
      intro limit' hl
      obtain ⟨hs, hr⟩ := readSeparator_squeeze hc hs
      obtain ⟨n, rfl⟩ := Nat.exists_eq_add_of_le' (Nat.le_trans (Nat.le_add_left 1 _) hl)
      exact .last (hi _ _ _ h hr) hs
  | more h hs _ ih =>
      intro limit' hl
      obtain ⟨hs, hr⟩ := readSeparator_squeeze hc hs
      obtain ⟨n, rfl⟩ := Nat.exists_eq_add_of_le' (Nat.le_trans (Nat.le_add_left 1 _) hl)
      exact .more (hi _ _ _ h hr) hs (ih (Nat.le_of_succ_le_succ hl))

theorem Elements.squeeze (hi : Squeezes item item') (hc : IsClosing closing) {limit limit' : Nat}
    (hl : limit ≤ limit') {text rest : List Char} {as : List α}
    (h : Elements closing item limit text as rest) :
    Elements closing item' limit' (squeeze .outside text) as (squeeze .outside rest) := by
  rcases h with ⟨hd, rfl⟩ | ⟨⟨c, tail, hd, hne⟩, hs⟩
  · refine Or.inl ⟨?_, rfl⟩
    rw [dropBlanks_squeeze hd]
    rcases hc with rfl | rfl
    · rfl
    · rfl
  · exact Or.inr ⟨⟨c, _, dropBlanks_squeeze hd, hne⟩, hs.squeeze hi hc hl⟩

end

theorem readMember_squeeze {item item' : List Char → Except Malformed (Tree × List Char)}
    (hi : Squeezes item item') : Squeezes (readMember item) (readMember item') := by
  intro text m rest h hr
  obtain ⟨text₁, text₂, hkey, hcolon, ht⟩ := readMember_eq_ok.mp h
  exact readMember_eq_ok.mpr
    ⟨_, _, readKey_squeeze hkey, readColon_squeeze hcolon, hi _ _ _ ht hr⟩

/-! ### Trees -/

theorem squeeze_dropBlanks (text : List Char) :
    squeeze .outside (dropBlanks text) = squeeze .outside text := by
  cases hd : dropBlanks text with
  | nil => rw [squeeze_of_dropBlanks_nil hd]; rfl
  | cons c tail =>
      obtain ⟨hb, hs⟩ := squeeze_of_dropBlanks hd
      rw [hs, squeeze_cons fun _ => hb]

theorem squeeze_scalar {limit limit' budget budget' : Nat} {text rest : List Char} {t : Tree}
    (hi : ∀ tail, dropBlanks text ≠ '[' :: tail) (hm : ∀ tail, dropBlanks text ≠ '\x7b' :: tail)
    (h : readTree limit budget text = .ok (t, rest)) (hr : EndsNumber (squeeze .outside rest)) :
    readTree limit' budget' (squeeze .outside text) = .ok (t, squeeze .outside rest) := by
  rw [readTree_scalar hi hm] at h
  have hs := readScalar_squeeze h hr
  cases hd : dropBlanks text with
  | nil => rw [hd] at h; cases h
  | cons c tail =>
      have hd' := dropBlanks_squeeze hd
      rw [readTree_scalar, hd', ← (squeeze_of_dropBlanks hd).2, ← squeeze_dropBlanks, hs]
      · rintro _ he
        rw [hd'] at he
        exact hi tail (hd.trans (by rw [(List.cons.inj he).1]))
      · rintro _ he
        rw [hd'] at he
        exact hm tail (hd.trans (by rw [(List.cons.inj he).1]))

/-- **Trees.**  A tree that is read from a text is read from the squeezed text, with any limit that
is not less. -/
theorem readTree_squeeze {limit limit' : Nat} (hl : limit ≤ limit') (budget : Nat) :
    Squeezes (readTree limit budget) (readTree limit' budget) := by
  induction budget using Nat.strongRecOn with
  | ind budget ih =>
      intro text t rest h hr
      cases treeAt_of_readTree h with
      | scalar hi hm => exact squeeze_scalar hi hm h hr
      | @array budget _ items hd he =>
          have hitems := ih budget (Nat.lt_succ_self budget)
          exact (readTree_array_eq_ok (dropBlanks_squeeze hd)).mpr
            ⟨items, he.squeeze hitems (Or.inl rfl) hl, rfl⟩
      | @object budget _ members hd he =>
          have hmembers := readMember_squeeze (ih budget (Nat.lt_succ_self budget))
          exact (readTree_object_eq_ok (dropBlanks_squeeze hd)).mpr
            ⟨members, he.squeeze hmembers (Or.inr rfl) hl, rfl⟩

theorem ensureEnd_eq_ok {text : List Char} : ensureEnd text = .ok () ↔ dropBlanks text = [] := by
  unfold ensureEnd
  split
  next h => exact ⟨fun _ => h, fun _ => rfl⟩
  next h =>
    rw [h]
    exact ⟨nofun, nofun⟩

theorem readTree_squeeze_of_read {text : String} {t : Tree} (h : Tree.read text = .ok t)
    {limit : Nat} (hl : text.toList.length ≤ limit) :
    readTree limit nestingLimit (squeeze .outside text.toList) = .ok (t, []) := by
  obtain ⟨rest, ht, hend⟩ := Tree.read_eq_ok.mp h
  -- nothing but blanks is left, so that no number goes on
  have hnil := squeeze_of_dropBlanks_nil (ensureEnd_eq_ok.mp hend)
  have hs := readTree_squeeze hl nestingLimit _ _ _ ht (hnil.symm ▸ endsNumber_nil)
  rwa [hnil] at hs

/-- **Blanks carry nothing.**  Texts that differ in blanks outside their strings only are texts of
the same tree. -/
theorem Tree.read_eq_of_squeeze {text text' : String} {t t' : Tree}
    (h : Tree.read text = .ok t) (h' : Tree.read text' = .ok t')
    (hs : squeeze .outside text.toList = squeeze .outside text'.toList) : t = t' := by
  -- the limits of the two texts differ, and a common one will do
  have ht := readTree_squeeze_of_read h (Nat.le_max_left _ text'.toList.length)
  have ht' := readTree_squeeze_of_read h' (Nat.le_max_right text.toList.length _)
  rw [hs, ht'] at ht
  cases ht
  rfl

end Intake.Json
