import Intake.Proofs.Json.Reader
import Intake.Proofs.Json.Squeeze

/-!
# How deep a text can be nested

A reader leaves a suffix of its text.  Every level of a tree takes a bracket from the text, so that
a tree is no deeper than what was read of the text is long, and a budget of levels that is the
length of the text is never used up.

* `suffix_of_readScalar`, `suffix_of_readKey`: what the readers of tokens leave.
* `Separated.weight_le`: the elements of a container, if each takes as many characters as it weighs.
* `depth_add_length_le`: trees.
-/

namespace Intake.Json

/-! ### What is left of a text -/

section
variable {text rest : List Char}

theorem suffix_of_dropBlanks {c : Char} (h : dropBlanks text = c :: rest) : c :: rest <:+ text :=
  h ▸ List.dropWhile_suffix isBlank

/-- What is left behind the first character that is no blank. -/
theorem suffix_of_dropBlanks_cons {c : Char} {tail : List Char} (h : dropBlanks text = c :: tail)
    (hr : rest <:+ tail) : rest <:+ text :=
  (hr.trans (List.suffix_cons c tail)).trans (suffix_of_dropBlanks h)

theorem suffix_of_readLetters {letters : List Char} (h : readLetters letters text = .ok rest) :
    rest <:+ text := by
  fun_induction readLetters letters text with
  | case1 => cases h; exact List.suffix_rfl
  | case2 => cases h
  | case3 _ _ _ ih => exact (ih h).trans (List.suffix_cons _ _)
  | case4 => cases h

namespace StringLiteral

theorem suffix_of_run {accept : Option Nat → Nat → Except Malformed Move} {s : State}
    {cs : List Char} (h : s.run accept text = .ok (cs, rest)) : rest <:+ text := by
  induction text generalizing s cs with
  | nil => cases h
  | cons c text ih =>
      rcases run_cons_eq_ok h with ⟨-, -, rfl⟩ | ⟨_, _, _, -, hrun, -⟩
      · exact List.suffix_cons _ _
      · exact (ih hrun).trans (List.suffix_cons _ _)

/-- A string that was read is the result of a run. -/
theorem run_of_read {s : String} (h : read text = .ok (s, rest)) :
    ∃ cs, State.plain.run acceptUnit text = .ok (cs, rest) := by
  rw [read] at h
  cases hrun : State.plain.run acceptUnit text with
  | error e => rw [hrun] at h; cases h
  | ok r => rw [hrun] at h; cases h; exact ⟨r.1, rfl⟩

theorem suffix_of_read {s : String} (h : read text = .ok (s, rest)) : rest <:+ text := by
  obtain ⟨_, hrun⟩ := run_of_read h
  exact suffix_of_run hrun

end StringLiteral

namespace Numeral

theorem suffix_of_readDigits {digits : List Char} (h : readDigits text = .ok (digits, rest)) :
    rest <:+ text :=
  ⟨digits, (eq_append_of_readDigits h).1.symm⟩

theorem suffix_of_readWhole {digits : List Char} (h : readWhole text = .ok (digits, rest)) :
    rest <:+ text := by
  obtain ⟨⟨_, _⟩, hd, h⟩ := bind_eq_ok.mp h
  dsimp only at h
  split at h
  · cases h
  · cases h; exact suffix_of_readDigits hd

theorem suffix_of_readFraction {f : Option (List Char)} (h : readFraction text = .ok (f, rest)) :
    rest <:+ text := by
  unfold readFraction at h
  split at h
  · obtain ⟨⟨_, _⟩, hd, h⟩ := bind_eq_ok.mp h
    cases h
    exact (suffix_of_readDigits hd).trans (List.suffix_cons _ _)
  · cases h; exact List.suffix_rfl

theorem suffix_of_readSignedDigits {e : Int} (h : readSignedDigits text = .ok (e, rest)) :
    rest <:+ text := by
  unfold readSignedDigits at h
  split at h
  · obtain ⟨⟨_, _⟩, hd, h⟩ := bind_eq_ok.mp h
    cases h
    exact (suffix_of_readDigits hd).trans (List.suffix_cons _ _)
  · obtain ⟨⟨_, _⟩, hd, h⟩ := bind_eq_ok.mp h
    cases h
    exact (suffix_of_readDigits hd).trans (List.suffix_cons _ _)
  · obtain ⟨⟨_, _⟩, hd, h⟩ := bind_eq_ok.mp h
    cases h
    exact suffix_of_readDigits hd

theorem suffix_of_readExponent {e : Option Int} (h : readExponent text = .ok (e, rest)) :
    rest <:+ text := by
  unfold readExponent at h
  split at h
  · cases h; exact List.suffix_rfl
  · split at h
    · obtain ⟨⟨_, _⟩, he, h⟩ := bind_eq_ok.mp h
      cases h
      exact (suffix_of_readSignedDigits he).trans (List.suffix_cons _ _)
    · cases h; exact List.suffix_rfl

theorem readSign_suffix (text : List Char) : (readSign text).2 <:+ text := by
  unfold readSign
  split
  · exact List.suffix_cons _ _
  · exact List.suffix_rfl

theorem suffix_of_read {numeral : Numeral} (h : read text = .ok (numeral, rest)) :
    rest <:+ text := by
  obtain ⟨text₁, text₂, -, hw, hf, he⟩ := read_eq_ok.mp h
  have hbehind := (suffix_of_readExponent he).trans (suffix_of_readFraction hf)
  exact (hbehind.trans (suffix_of_readWhole hw)).trans (readSign_suffix text)

end Numeral

/-- A number that was read is that of a numeral. -/
theorem numeral_of_readNumber {n : Number} (h : readNumber text = .ok (n, rest)) :
    ∃ numeral, Numeral.read text = .ok (numeral, rest) := by
  obtain ⟨⟨numeral, _⟩, hread, h⟩ := bind_eq_ok.mp h
  dsimp only at h
  split at h
  · cases h; exact ⟨numeral, hread⟩
  · cases h

theorem suffix_of_readScalar {t : Tree} (h : readScalar text = .ok (t, rest)) : rest <:+ text := by
  revert h
  fun_cases readScalar text with
  | case1 => intro h; cases h
  | case2 | case3 | case4 =>
      intro h
      obtain ⟨_, hletters, h⟩ := bind_eq_ok.mp h
      cases h
      exact (suffix_of_readLetters hletters).trans (List.suffix_cons _ _)
  | case5 =>
      intro h
      obtain ⟨⟨_, _⟩, hs, h⟩ := bind_eq_ok.mp h
      cases h
      exact (StringLiteral.suffix_of_read hs).trans (List.suffix_cons _ _)
  | case6 =>
      intro h
      obtain ⟨⟨_, _⟩, hn, h⟩ := bind_eq_ok.mp h
      cases h
      obtain ⟨_, hread⟩ := numeral_of_readNumber hn
      exact Numeral.suffix_of_read hread
  | case7 => intro h; cases h

/-! ### Members and what follows an element -/

theorem suffix_of_readKey {key : String} (h : readKey text = .ok (key, rest)) : rest <:+ text := by
  unfold readKey at h
  split at h
  · cases h
  next hd =>
    split at h
    · exact suffix_of_dropBlanks_cons hd (StringLiteral.suffix_of_read h)
    · cases h

theorem suffix_of_readColon (h : readColon text = .ok rest) : rest <:+ text := by
  unfold readColon at h
  split at h
  · cases h
  next hd =>
    split at h
    · cases h; exact suffix_of_dropBlanks_cons hd List.suffix_rfl
    · cases h

theorem suffix_of_readSeparator {closing : Char} {another : Bool}
    (h : readSeparator closing text = .ok (another, rest)) : rest <:+ text := by
  unfold readSeparator at h
  split at h
  · cases h
  next hd =>
    split at h
    · cases h; exact suffix_of_dropBlanks_cons hd List.suffix_rfl
    · split at h
      · cases h; exact suffix_of_dropBlanks_cons hd List.suffix_rfl
      · cases h

end

/-! ### Containers -/

section
variable {α : Type} {weight : α → Nat} {item : List Char → Except Malformed (α × List Char)}
  {closing : Char} {limit : Nat} {text rest : List Char} {as : List α}

/-- An element takes as many characters from the text as it weighs. -/
def Takes (weight : α → Nat) (item : List Char → Except Malformed (α × List Char)) : Prop :=
  ∀ {text a rest}, item text = .ok (a, rest) → weight a + rest.length ≤ text.length

theorem Separated.weight_le (hi : Takes weight item)
    (h : Separated closing item limit text as rest) :
    rest.length ≤ text.length ∧ ∀ a ∈ as, weight a + rest.length ≤ text.length := by
  induction h with
  | @last _ _ _ _ a h hs =>
      have hitem := hi h
      have hle := (suffix_of_readSeparator hs).length_le
      refine ⟨by omega, fun a' ha => ?_⟩
      obtain rfl := List.mem_singleton.mp ha
      omega
  | @more _ _ _ _ _ a _ h hs _ ih =>
      have hitem := hi h
      have hle := (suffix_of_readSeparator hs).length_le
      refine ⟨by omega, fun a' ha => ?_⟩
      rcases List.mem_cons.mp ha with rfl | ha
      · omega
      · have := ih.2 a' ha
        omega

theorem Elements.weight_le (hi : Takes weight item)
    (h : Elements closing item limit text as rest) :
    rest.length ≤ text.length ∧ ∀ a ∈ as, weight a + rest.length ≤ text.length := by
  rcases h with ⟨hd, rfl⟩ | ⟨-, hs⟩
  · exact ⟨(suffix_of_dropBlanks_cons hd List.suffix_rfl).length_le,
      fun _ ha => absurd ha List.not_mem_nil⟩
  · exact hs.weight_le hi

end

/-! ### Trees -/

theorem Tree.depthItems_le_iff {items : List Tree} {n : Nat} :
    Tree.depthItems items ≤ n ↔ ∀ t ∈ items, t.depth ≤ n := by
  induction items with
  | nil => simp [Tree.depthItems]
  | cons t items ih => rw [Tree.depthItems, Nat.max_le, ih, List.forall_mem_cons]

theorem Tree.depthMembers_le_iff {members : List (String × Tree)} {n : Nat} :
    Tree.depthMembers members ≤ n ↔ ∀ m ∈ members, m.2.depth ≤ n := by
  induction members with
  | nil => simp [Tree.depthMembers]
  | cons m members ih => rw [Tree.depthMembers, Nat.max_le, ih, List.forall_mem_cons]

theorem takes_readMember {item : List Char → Except Malformed (Tree × List Char)}
    (hi : Takes Tree.depth item) : Takes (fun m => m.2.depth) (readMember item) := by
  intro text m rest h
  obtain ⟨text₁, text₂, hkey, hcolon, ht⟩ := readMember_eq_ok.mp h
  have hle := ((suffix_of_readColon hcolon).trans (suffix_of_readKey hkey)).length_le
  have htree := hi ht
  dsimp only
  omega

theorem Tree.depth_of_isScalar : ∀ {t : Tree}, t.IsScalar → t.depth = 0
  | .null, _ | .boolean _, _ | .number _, _ | .string _, _ => rfl

theorem takes_readScalar : Takes Tree.depth readScalar := by
  intro text t rest h
  rw [Tree.depth_of_isScalar (isScalar_of_readScalar h), Nat.zero_add]
  exact (suffix_of_readScalar h).length_le

/-- **Levels take brackets.**  What was read of a text is at least as long as the tree is deep. -/
theorem depth_add_length_le (limit budget : Nat) : Takes Tree.depth (readTree limit budget) := by
  induction budget using Nat.strongRecOn with
  | ind budget ih =>
      intro text t rest h
      cases treeAt_of_readTree h with
      | scalar _ _ h =>
          have hblanks : dropBlanks text <:+ text := List.dropWhile_suffix isBlank
          exact Nat.le_trans (takes_readScalar h) hblanks.length_le
      | @array budget tail items hd he =>
          have hle := (suffix_of_dropBlanks hd).length_le
          obtain ⟨hrest, hitems⟩ := he.weight_le (ih budget (Nat.lt_succ_self budget))
          have hdepth : Tree.depthItems items ≤ tail.length - rest.length :=
            Tree.depthItems_le_iff.mpr fun t ht => Nat.le_sub_of_add_le (hitems t ht)
          rw [List.length_cons] at hle
          rw [Tree.depth]
          omega
      | @object budget tail members hd he =>
          have hle := (suffix_of_dropBlanks hd).length_le
          obtain ⟨hrest, hmembers⟩ :=
            he.weight_le (takes_readMember (ih budget (Nat.lt_succ_self budget)))
          have hdepth : Tree.depthMembers members ≤ tail.length - rest.length :=
            Tree.depthMembers_le_iff.mpr fun m hm => Nat.le_sub_of_add_le (hmembers m hm)
          rw [List.length_cons] at hle
          rw [Tree.depth]
          omega

end Intake.Json
