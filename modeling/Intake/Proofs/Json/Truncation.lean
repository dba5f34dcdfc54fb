import Intake.Proofs.Json.RoundTrip

/-!
# Texts that end too early

A printed tree may be cut off at any character.  Of what is left a reader takes every token that is
complete, and asks for more in the token that is not, or behind the last one.  Only an integer may
be cut off and not be noticed, for what is left of its digits is an integer again; then nothing is
left behind it, and whoever reads on asks for more (`foldRest_nil`).

So a reader of a cut text has run out of text in one of these two ways, which is the invariant of
the induction on the tree (`RunsOut`).  The elements of a container follow the recursion of the
printer, as in the round trip.

* `Cut`: a text and what is left of it.
* `RunsOut`: a reader that asks for more, or has taken all of its text.
* `foldSeparated_cut`: a container that is cut off in its first element or behind it.
* `readTree_cut`: trees.
-/

namespace Intake.Json

/-! ### Cut texts -/

/-- The first text is what is left of the second, which goes on. -/
inductive Cut {α : Type} : List α → List α → Prop where
  | here (c : α) (text : List α) : Cut [] (c :: text)
  | later (c : α) {part text : List α} (h : Cut part text) : Cut (c :: part) (c :: text)

section
variable {α : Type} {part text behind : List α}

theorem cut_append_of_ne_nil (h : behind ≠ []) (part : List α) : Cut part (part ++ behind) := by
  induction part with
  | nil =>
      cases behind with
      | nil => exact absurd rfl h
      | cons c text => exact .here c text
  | cons c part ih => exact .later c ih

/-- Nothing is left of a single character. -/
theorem Cut.eq_nil {c : α} (h : Cut part [c]) : part = [] := by
  cases h with
  | here => rfl
  | later _ h => cases h

/-- Two texts, one behind the other, are cut in the first one or behind it. -/
theorem Cut.of_append (h : Cut part (text ++ behind)) :
    Cut part text ∨ ∃ part', part = text ++ part' ∧ Cut part' behind := by
  induction text generalizing part with
  | nil => exact Or.inr ⟨part, rfl, h⟩
  | cons c text ih =>
      cases h with
      | here => exact Or.inl (.here c text)
      | later _ h =>
          rcases ih h with hcut | ⟨part', rfl, hcut⟩
          · exact Or.inl (.later c hcut)
          · exact Or.inr ⟨part', rfl, hcut⟩

end

theorem Cut.endsNumber {part text : List Char} (h : Cut part text) (ht : EndsNumber text) :
    EndsNumber part := by
  cases h with
  | here => exact endsNumber_nil
  | later c h => exact fun d hd => ht d hd

/-! ### Running out of text -/

/-- The end of a text is lifted to one failure, whatever was to be read. -/
class LiftsEnd (ε : Type) [MonadLiftT (Except Malformed) (Except ε)] where
  /-- The failure. -/
  ended : ε
  liftM_endOfInput : ∀ {α : Type},
    (liftM (m := Except Malformed) (.error .endOfInput) : Except ε α) = .error ended

instance : LiftsEnd Malformed := ⟨.endOfInput, rfl⟩

section
variable {ε : Type} [MonadLiftT (Except Malformed) (Except ε)] [LiftsEnd ε]

/-- A reader asks for more text, or has taken all of it. -/
def RunsOut {α : Type} (result : Except ε (α × List Char)) : Prop :=
  result = .error LiftsEnd.ended ∨ ∃ a, result = .ok (a, [])

/-- What is made of the result does not change what is left of the text. -/
theorem RunsOut.bind {α β : Type} {result : Except ε (α × List Char)} (h : RunsOut result)
    (f : α → β) : RunsOut (result >>= fun p => .ok (f p.1, p.2)) := by
  rcases h with rfl | ⟨a, rfl⟩
  · exact Or.inl rfl
  · exact Or.inr ⟨f a, rfl⟩

variable {σ : Type} {closing : Char} {step : σ → List Char → Except ε (σ × List Char)}

/-- Behind an element, more text must follow. -/
theorem foldRest_nil (limit : Nat) (s : σ) :
    foldRest closing step limit s [] = .error LiftsEnd.ended := by
  have hsep : (liftM (readSeparator closing []) : Except ε (Bool × List Char)) =
      .error LiftsEnd.ended := LiftsEnd.liftM_endOfInput
  rw [foldRest, hsep]
  rfl

/-- **A cut container.**  The elements of a container run out of text if it is cut off in the first
of them, and if it is cut off behind the first and the others run out. -/
theorem foldSeparated_cut {s : σ} {part element behind : List Char}
    (hcut : Cut part (element ++ behind))
    (hfirst : Cut part element → RunsOut (step s part))
    (hbehind : ∀ part', part = element ++ part' → Cut part' behind →
      ∃ s', step s part = .ok (s', part') ∧
        ∀ n, foldRest closing step n s' part' = .error LiftsEnd.ended) (limit : Nat) :
    foldSeparated closing step limit s part = .error LiftsEnd.ended := by
  cases limit with
  | zero => exact LiftsEnd.liftM_endOfInput
  | succ limit =>
      rw [foldSeparated_succ]
      rcases hcut.of_append with hcut | ⟨part', hpart, hcut⟩
      · rcases hfirst hcut with h | ⟨s', h⟩
        · rw [h, error_bind]
        · rw [h, ok_bind, foldRest_nil]
      · obtain ⟨s', h, hrest⟩ := hbehind part' hpart hcut
        rw [h, ok_bind, hrest]

/-- A container that is not empty is cut off behind its opening bracket or later. -/
theorem foldElements_cut {s : σ} {c : Char} {part text : List Char} (hb : isBlank c = false)
    (hc : c ≠ closing) (hcut : Cut part (c :: text)) {limit : Nat}
    (h : foldSeparated closing step limit s part = .error LiftsEnd.ended) :
    foldElements closing step limit s part = .error LiftsEnd.ended := by
  cases hcut with
  | here => exact LiftsEnd.liftM_endOfInput
  | later _ hcut => rwa [foldElements_cons _ _ _ hb hc]

end

/-! ### Words, strings and keys -/

theorem readLetters_cut {part letters : List Char} (h : Cut part letters) :
    readLetters letters part = .error .endOfInput := by
  induction h with
  | here => rfl
  | later c h ih => rw [readLetters, if_pos rfl, ih]

/-- The machine is still waiting for the closing mark. -/
theorem StringLiteral.run_cut {accept : Option Nat → Nat → Except Malformed StringLiteral.Move}
    {s : StringLiteral.State} {part text cs : List Char} (h : Cut part text)
    (hrun : s.run accept text = .ok (cs, [])) : s.run accept part = .error .endOfInput := by
  induction h generalizing s cs with
  | here => rfl
  | later c h ih =>
      rcases run_cons_eq_ok hrun with ⟨-, -, rfl⟩ | ⟨completed, s', cs', hstep, hrun, -⟩
      · cases h
      · rw [run_cons completed s' hstep, ih hrun]
        rfl

theorem StringLiteral.read_cut {s : String} {part : List Char}
    (h : Cut part (s.toList.flatMap escape ++ ['"'])) : read part = .error .endOfInput := by
  rw [read, run_cut h (run_escapes s.toList [])]
  rfl

/-- A key is cut off, or it is read and its colon is missing. -/
theorem readKey_cut {key : String} {part : List Char} (h : Cut part (Tree.printKey key)) :
    readKey part = .error .endOfInput ∨ readKey part = .ok (key, []) := by
  rcases h.of_append with hcut | ⟨part', rfl, hcut⟩
  · cases hcut with
    | here => exact Or.inl rfl
    | later _ hcut => exact Or.inl (StringLiteral.read_cut hcut)
  · rw [hcut.eq_nil]
    exact Or.inr (readKey_write key [])

/-- A member runs out of text in its key, at its colon or in its tree. -/
theorem takeMember_cut {item : List Char → Except Malformed (Tree × List Char)}
    {before : List (String × Tree)} {key : String} {part text : List Char}
    (h : Cut part (Tree.printKey key ++ text))
    (ht : ∀ part', part = Tree.printKey key ++ part' → Cut part' text → RunsOut (item part')) :
    RunsOut (takeMember item before part) := by
  rcases h.of_append with hcut | ⟨part', rfl, hcut⟩
  · rcases readKey_cut hcut with hkey | hkey
    · exact Or.inl (by rw [takeMember, hkey]; rfl)
    · exact Or.inl (by rw [takeMember, hkey]; rfl)
  · rw [takeMember_printKey]
    exact (ht part' rfl hcut).bind fun t => (key, t) :: before

/-! ### Numbers -/

/-- What is left of the digits of a number are the digits of a smaller one. -/
theorem Cut.of_toDigits {n : Nat} {part : List Char} (h : Cut part (Nat.toDigits 10 n)) :
    part = [] ∨ ∃ m, part = Nat.toDigits 10 m ∧ 0 < m ∧ m < n := by
  induction n using Nat.strongRecOn generalizing part with
  | ind n ih =>
      by_cases hn : n < 10
      · rw [Nat.toDigits_of_lt_base hn] at h
        exact Or.inl h.eq_nil
      · -- the last digit is missing at least
        rw [Nat.toDigits_of_base_le (by decide) (Nat.le_of_not_lt hn)] at h
        rcases h.of_append with hcut | ⟨part', rfl, hcut⟩
        · rcases ih (n / 10) (by omega) hcut with hnil | ⟨m, hm, hpos, hlt⟩
          · exact Or.inl hnil
          · exact Or.inr ⟨m, hm, hpos, by omega⟩
        · rw [hcut.eq_nil, List.append_nil]
          exact Or.inr ⟨n / 10, rfl, by omega, by omega⟩

/-- An integer is cut off before its first digit, or it is a smaller one. -/
theorem readNumber_cut {n : Number} (hn : ¬ n.IsDouble) {part : List Char} (h : Cut part n.text) :
    RunsOut (readNumber part) := by
  have hread : ∀ {m : Number}, ¬ m.IsDouble → readNumber m.text = .ok (m, []) := fun hm => by
    simpa using readNumber_text hm endsNumber_nil
  cases n with
  | natural n =>
      rcases h.of_toDigits with rfl | ⟨m, rfl, -, hlt⟩
      · exact Or.inl rfl
      · have hm := hread (m := .natural (UInt64.ofNatLT m (Nat.lt_trans hlt n.toNat_lt))) not_false
        rw [Number.text, UInt64.toNat_ofNatLT] at hm
        exact Or.inr ⟨_, hm⟩
  | negative k =>
      cases h with
      | here => exact Or.inl rfl
      | later _ h =>
          rcases h.of_toDigits with rfl | ⟨m, rfl, hpos, hlt⟩
          · exact Or.inl rfl
          · have hm := hread (m := .negative ⟨m - 1, by omega⟩) not_false
            rw [Number.text, Nat.sub_add_cancel hpos] at hm
            exact Or.inr ⟨_, hm⟩
  | double d => exact absurd trivial hn

/-! ### Trees -/

/-- A word is cut off before its first letter or later. -/
theorem readScalar_cut_word {c : Char} {part letters : List Char} {t : Tree}
    (hword : ∀ text, readScalar (c :: text) =
      readLetters letters text >>= fun rest => .ok (t, rest))
    (h : Cut part (c :: letters)) : RunsOut (readScalar part) := by
  cases h with
  | here => exact Or.inl rfl
  | later _ h =>
      rw [hword, readLetters_cut h]
      exact Or.inl rfl

/-- A string is cut off before its opening mark or later. -/
theorem readScalar_cut_string {s : String} {part : List Char} (h : Cut part (Tree.string s).print) :
    readScalar part = .error .endOfInput := by
  cases h with
  | here => rfl
  | later _ h =>
      have hread := StringLiteral.read_cut h
      simp only [readScalar, hread]
      rfl

/-- What is left of a word, a string or an integer. -/
theorem readScalar_cut {t : Tree} (hd : t.DoubleFree) (hs : t.IsScalar) {part : List Char}
    (h : Cut part t.print) : RunsOut (readScalar part) := by
  cases t with
  | null => exact readScalar_cut_word (fun _ => rfl) h
  | boolean b =>
      cases b with
      | true => exact readScalar_cut_word (fun _ => rfl) h
      | false => exact readScalar_cut_word (fun _ => rfl) h
  | string s => exact Or.inl (readScalar_cut_string h)
  | number n =>
      obtain ⟨c, cs, htext, hc⟩ := n.text_eq_cons hd
      have hnumber := readNumber_cut hd h
      rw [Tree.print, htext] at h
      cases h with
      | here => exact Or.inl rfl
      | later _ h =>
          rw [readScalar_numeral hc]
          exact hnumber.bind Tree.number
  | array _ | object _ => exact hs.elim

/-- No blank and no bracket opens a word, a string or an integer. -/
theorem print_eq_cons_of_isScalar {t : Tree} (hd : t.DoubleFree) (hs : t.IsScalar) :
    ∃ c cs, t.print = c :: cs ∧ isBlank c = false ∧ c ≠ '[' ∧ c ≠ '\x7b' := by
  match t, hd, hs with
  | .null, _, _ => exact ⟨'n', _, rfl, rfl, by decide, by decide⟩
  | .boolean true, _, _ => exact ⟨'t', _, rfl, rfl, by decide, by decide⟩
  | .boolean false, _, _ => exact ⟨'f', _, rfl, rfl, by decide, by decide⟩
  | .string s, _, _ => exact ⟨'"', _, rfl, rfl, by decide, by decide⟩
  | .number n, hd, _ =>
      obtain ⟨c, cs, htext, hc⟩ := n.text_eq_cons hd
      exact ⟨c, cs, htext, isBlank_of_opensNumeral hc, ne_of_opensNumeral hc rfl,
        ne_of_opensNumeral hc rfl⟩

theorem readTree_nil (limit budget : Nat) : readTree limit budget [] = .error .endOfInput :=
  readTree_scalar nofun nofun

/-- What is left of a word, a string or an integer, whatever the budget. -/
theorem readTree_cut_scalar {t : Tree} (hd : t.DoubleFree) (hs : t.IsScalar) (limit budget : Nat)
    {part : List Char} (h : Cut part t.print) : RunsOut (readTree limit budget part) := by
  have hscalar := readScalar_cut hd hs h
  obtain ⟨c, cs, hprint, hb, hi, hm⟩ := print_eq_cons_of_isScalar hd hs
  rw [hprint] at h
  cases h with
  | here => exact Or.inl (readTree_nil limit budget)
  | later _ h =>
      rw [readTree_of_ne hb hi hm]
      exact hscalar

/-! ### Containers -/

section
variable {limit budget : Nat} {t : Tree} {part : List Char}

/-- From an item on, the items of a cut array run out of text. -/
theorem foldSeparated_cut_item {items : List Tree} (before : List Tree) (hd : t.DoubleFree)
    (hb : t.depth ≤ budget) (h : Cut part (t.print ++ Tree.printItems items))
    (hl : part.length ≤ limit) (ht : Cut part t.print → RunsOut (readTree limit budget part))
    (hrest : ∀ part', Cut part' (Tree.printItems items) → part'.length ≤ limit → ∀ n,
      foldRest ']' (takeItem (readTree limit budget)) n (t :: before) part' = .error .endOfInput)
    (n : Nat) :
    foldSeparated ']' (takeItem (readTree limit budget)) n before part = .error .endOfInput := by
  refine foldSeparated_cut h (fun hcut => (ht hcut).bind (· :: before)) ?_ n
  rintro part' rfl hcut
  rw [List.length_append] at hl
  have hends : EndsNumber (Tree.printItems items) := by simpa using endsNumber_printItems items []
  have hread := readTree_print limit hd (by omega) budget (hcut.endsNumber hends)
  refine ⟨t :: before, ?_, hrest part' hcut (by omega)⟩
  rw [takeItem_of_readTree before hread, if_pos hb]

/-- From a member on, the members of a cut object run out of text. -/
theorem foldSeparated_cut_member {members : List (String × Tree)}
    (before : List (String × Tree)) {key : String} (hd : t.DoubleFree) (hb : t.depth ≤ budget)
    (h : Cut part (Tree.printKey key ++ t.print ++ Tree.printMembers members))
    (hl : part.length ≤ limit)
    (ht : ∀ part', Cut part' t.print → part'.length ≤ limit → RunsOut (readTree limit budget part'))
    (hrest : ∀ part', Cut part' (Tree.printMembers members) → part'.length ≤ limit → ∀ n,
      foldRest '\x7d' (takeMember (readTree limit budget)) n ((key, t) :: before) part' =
        .error .endOfInput) (n : Nat) :
    foldSeparated '\x7d' (takeMember (readTree limit budget)) n before part =
      .error .endOfInput := by
  refine foldSeparated_cut h (fun hcut => takeMember_cut hcut ?_) ?_ n
  · rintro part' rfl hcut'
    rw [List.length_append] at hl
    exact ht part' hcut' (by omega)
  · rintro part' rfl hcut
    rw [List.append_assoc, List.length_append, List.length_append] at hl
    have hends : EndsNumber (Tree.printMembers members) := by
      simpa using endsNumber_printMembers members []
    have hread := readTree_print limit hd (by omega) budget (hcut.endsNumber hends)
    refine ⟨(key, t) :: before, ?_, hrest part' hcut (by omega)⟩
    rw [List.append_assoc, takeMember_of_readTree before key hread, if_pos hb]

end

mutual

/-- **A cut tree.**  A tree without doubles, within the budget of levels, runs out of text. -/
theorem readTree_cut (limit : Nat) : ∀ {t : Tree}, t.DoubleFree → ∀ {budget : Nat},
    t.depth ≤ budget → ∀ {part : List Char}, Cut part t.print → part.length ≤ limit →
      RunsOut (readTree limit budget part)
  | .null, hd, budget, _, _, h, _ | .boolean _, hd, budget, _, _, h, _
  | .number _, hd, budget, _, _, h, _ | .string _, hd, budget, _, _, h, _ =>
      readTree_cut_scalar hd trivial limit budget h
  -- within the budget a container has a level left, so that its bracket is taken
  | .array [], _, budget + 1, _, _, h, _ => by
      cases h with
      | here => exact Or.inl rfl
      | later _ h =>
          rw [h.eq_nil]
          exact Or.inl rfl
  | .object [], _, budget + 1, _, _, h, _ => by
      cases h with
      | here => exact Or.inl rfl
      | later _ h =>
          rw [h.eq_nil]
          exact Or.inl rfl
  | .array (t :: items), hd, budget + 1, hb, _, h, hl => by
      simp only [Tree.depth, Tree.depthItems, Nat.add_le_add_iff_right, Nat.max_le] at hb
      cases h with
      | here => exact Or.inl rfl
      | later _ h =>
          rw [List.length_cons] at hl
          have hfold := foldSeparated_cut_item [] hd.1 hb.1 h (by omega)
            (fun h => readTree_cut limit hd.1 hb.1 h (by omega))
            (fun _ h hl n => foldRest_cut_printItems limit hd.2 hb.2 h hl n [t]) limit
          obtain ⟨c, cs, hprint, hblank, hc⟩ := print_eq_cons hd.1
          rw [hprint, List.cons_append] at h
          rw [readTree_array (dropBlanks_cons rfl _), foldElements_cut hblank hc h hfold]
          exact Or.inl rfl
  | .object ((key, t) :: members), hd, budget + 1, hb, _, h, hl => by
      simp only [Tree.depth, Tree.depthMembers, Nat.add_le_add_iff_right, Nat.max_le] at hb
      cases h with
      | here => exact Or.inl rfl
      | later _ h =>
          rw [List.length_cons] at hl
          have hfold := foldSeparated_cut_member [] hd.1 hb.1 h (by omega)
            (fun _ h hl => readTree_cut limit hd.1 hb.1 h hl)
            (fun _ h hl n => foldRest_cut_printMembers limit hd.2 hb.2 h hl n [(key, t)]) limit
          rw [readTree_object (dropBlanks_cons rfl _), foldElements_cut rfl (by decide) h hfold]
          exact Or.inl rfl

theorem foldRest_cut_printItems (limit : Nat) : ∀ {items : List Tree},
    Tree.DoubleFreeItems items → ∀ {budget : Nat}, Tree.depthItems items ≤ budget →
      ∀ {part : List Char}, Cut part (Tree.printItems items) → part.length ≤ limit →
        ∀ (n : Nat) (before : List Tree),
          foldRest ']' (takeItem (readTree limit budget)) n before part = .error .endOfInput
  | [], _, _, _, _, h, _, n, before => by
      rw [h.eq_nil]
      exact foldRest_nil n before
  | t :: items, hd, budget, hb, _, h, hl, n, before => by
      rw [Tree.depthItems, Nat.max_le] at hb
      cases h with
      | here => exact foldRest_nil n before
      | later _ h =>
          rw [List.length_cons] at hl
          rw [foldRest_comma _ _ _ (by decide)]
          exact foldSeparated_cut_item before hd.1 hb.1 h (by omega)
            (fun h => readTree_cut limit hd.1 hb.1 h (by omega))
            (fun _ h hl n => foldRest_cut_printItems limit hd.2 hb.2 h hl n (t :: before)) n

theorem foldRest_cut_printMembers (limit : Nat) : ∀ {members : List (String × Tree)},
    Tree.DoubleFreeMembers members → ∀ {budget : Nat}, Tree.depthMembers members ≤ budget →
      ∀ {part : List Char}, Cut part (Tree.printMembers members) → part.length ≤ limit →
        ∀ (n : Nat) (before : List (String × Tree)),
          foldRest '\x7d' (takeMember (readTree limit budget)) n before part =
            .error .endOfInput
  | [], _, _, _, _, h, _, n, before => by
      rw [h.eq_nil]
      exact foldRest_nil n before
  | (key, t) :: members, hd, budget, hb, _, h, hl, n, before => by
      rw [Tree.depthMembers, Nat.max_le] at hb
      cases h with
      | here => exact foldRest_nil n before
      | later _ h =>
          rw [List.length_cons] at hl
          rw [foldRest_comma _ _ _ (by decide)]
          exact foldSeparated_cut_member before hd.1 hb.1 h (by omega)
            (fun _ h hl => readTree_cut limit hd.1 hb.1 h hl)
            (fun _ h hl n =>
              foldRest_cut_printMembers limit hd.2 hb.2 h hl n ((key, t) :: before)) n

end

end Intake.Json
