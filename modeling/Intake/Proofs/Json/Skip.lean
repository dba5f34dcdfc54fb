import Intake.Proofs.Json.Depth

/-!
# Passing over what can be read

A value that is not wanted is passed over with less care than one that is read.  Less is refused
then, and never more: where a tree can be read, passing over it leaves the text that reading it
leaves, if the budget of levels is enough for the tree.

* `StringLiteral.step_ignored`: the machine that ignores code units follows the one that accepts
  them, without the halves of pairs.
* `skipScalar_of_readScalar`, `skipKey_of_readKey`: tokens.
* `skipTree_of_readTree`: trees.
-/

namespace Intake.Json

/-! ### Strings -/

namespace StringLiteral

/-- The state that the machine has when it ignores code units, and so knows no halves of pairs. -/
def State.ignored : State → State
  | plain | half _ => plain
  | escape | halfEscape _ => escape
  | codeUnit _ taken => codeUnit none taken

theorem ignored_of_acceptUnit {high : Option Nat} {unit : Nat} {completed : Option Char}
    {s : State} (h : acceptUnit high unit = .ok (.next completed s)) : s.ignored = .plain := by
  unfold acceptUnit at h
  split at h
  · split at h
    · cases h
    · split at h
      · cases h; rfl
      · cases h; rfl
  · split at h
    · cases h; rfl
    · cases h

/-- **One character.**  Where code units are accepted, they are ignored. -/
theorem step_ignored {s s' : State} {c : Char} {completed : Option Char}
    (h : s.step acceptUnit c = .ok (.next completed s')) :
    ∃ completed', s.ignored.step ignoreUnit c = .ok (.next completed' s'.ignored) := by
  cases s with
  | plain =>
      rw [State.step] at h
      rw [State.ignored, State.step]
      split at h
      · cases h
      next hq =>
        rw [if_neg hq]
        split at h
        next hs => cases h; exact ⟨none, if_pos hs⟩
        next hs =>
          rw [if_neg hs]
          split at h
          · cases h
          next hc => cases h; exact ⟨some c, if_neg hc⟩
  | escape =>
      rw [State.step] at h
      rw [State.ignored, State.step]
      split at h
      next hu => cases h; exact ⟨none, if_pos hu⟩
      next hu =>
        rw [if_neg hu]
        split at h
        next c' _ => cases h; exact ⟨some c', rfl⟩
        next => cases h
  | codeUnit high taken =>
      rw [State.step] at h
      rw [State.ignored, State.step]
      split at h
      next hlt => cases h; exact ⟨none, if_pos hlt⟩
      next hlt =>
        rw [if_neg hlt]
        split at h
        next => exact ⟨none, by rw [ignored_of_acceptUnit h]; rfl⟩
        next => cases h
  | half high =>
      rw [State.step] at h
      split at h
      next hs => cases h; subst hs; exact ⟨none, rfl⟩
      next => cases h
  | halfEscape high =>
      rw [State.step] at h
      split at h
      next hu => cases h; subst hu; exact ⟨none, rfl⟩
      next => cases h

variable {text rest : List Char}

theorem run_ignored {s : State} {cs : List Char} (h : s.run acceptUnit text = .ok (cs, rest)) :
    ∃ cs', s.ignored.run ignoreUnit text = .ok (cs', rest) := by
  induction text generalizing s cs with
  | nil => cases h
  | cons c text ih =>
      rcases run_cons_eq_ok h with ⟨hclose, -, rfl⟩ | ⟨_, s', _, hstep, hrun, -⟩
      · obtain ⟨rfl, rfl⟩ := eq_of_step_close hclose
        exact ⟨[], rfl⟩
      · obtain ⟨completed', hstep'⟩ := step_ignored hstep
        obtain ⟨cs', hrun'⟩ := ih hrun
        exact ⟨completed'.toList ++ cs', by rw [run_cons completed' _ hstep', hrun']; rfl⟩

/-- A string that can be read is passed over. -/
theorem skip_of_read {s : String} (h : read text = .ok (s, rest)) : skip text = .ok rest := by
  obtain ⟨_, hrun⟩ := run_of_read h
  obtain ⟨_, hrun'⟩ := run_ignored hrun
  rw [State.ignored] at hrun'
  rw [skip, hrun']
  rfl

end StringLiteral

/-! ### Scalars and keys -/

section
variable {text rest : List Char}

theorem skipNumber_of_readNumber {n : Number} (h : readNumber text = .ok (n, rest)) :
    skipNumber text = .ok rest := by
  obtain ⟨_, hread⟩ := numeral_of_readNumber h
  rw [skipNumber, hread]

theorem skipScalar_of_readScalar {t : Tree} (h : readScalar text = .ok (t, rest)) :
    skipScalar text = .ok rest := by
  revert h
  fun_cases readScalar text with
  | case1 => intro h; cases h
  | case2 | case3 | case4 =>
      intro h
      obtain ⟨_, hletters, h⟩ := bind_eq_ok.mp h
      cases h
      exact hletters
  | case5 =>
      intro h
      obtain ⟨⟨_, _⟩, hs, h⟩ := bind_eq_ok.mp h
      cases h
      exact StringLiteral.skip_of_read hs
  | case6 c text hn ht hf hq hd =>
      intro h
      obtain ⟨⟨_, _⟩, hnumber, h⟩ := bind_eq_ok.mp h
      cases h
      rw [skipScalar, if_neg hn, if_neg ht, if_neg hf, if_neg hq, if_pos hd]
      exact skipNumber_of_readNumber hnumber
  | case7 => intro h; cases h

theorem skipKey_of_readKey {key : String} (h : readKey text = .ok (key, rest)) :
    skipKey text = .ok rest := by
  unfold readKey at h
  split at h
  · cases h
  next hd =>
    rw [skipKey, hd]
    dsimp only
    split at h
    next hq => rw [if_pos hq, StringLiteral.skip_of_read h]
    next => cases h

end

/-! ### Trees -/

section
variable {limit budget : Nat} {text tail rest : List Char}

theorem skipTree_array (h : dropBlanks text = '[' :: tail) :
    skipTree limit (budget + 1) text =
      foldElements ']' (skipItem (skipTree limit budget)) limit () tail >>= fun p => .ok p.2 := by
  rw [skipTree, h]
  rfl

theorem skipTree_object (h : dropBlanks text = '\x7b' :: tail) :
    skipTree limit (budget + 1) text =
      foldElements '\x7d' (skipMember (skipTree limit budget)) limit () tail >>= fun p =>
        .ok p.2 := by
  rw [skipTree, h]
  rfl

theorem skipTree_scalar (hi : ∀ tail, dropBlanks text ≠ '[' :: tail)
    (hm : ∀ tail, dropBlanks text ≠ '\x7b' :: tail) :
    skipTree limit budget text = skipScalar (dropBlanks text) := by
  rw [skipTree]
  split
  next h => exact absurd h (hi _)
  next h => exact absurd h (hm _)
  next => rfl

end

/-- Takes in nothing. -/
def passOver {α : Type} (_ : Unit) (_ : α) : Except Malformed Unit := .ok ()

theorem foldlM_passOver {α : Type} (as : List α) : as.foldlM passOver () = .ok () := by
  induction as with
  | nil => rfl
  | cons a as ih => exact foldlM_cons_eq_ok.mpr ⟨(), rfl, ih⟩

section
variable {item : List Char → Except Malformed (Tree × List Char)}
  {skip : List Char → Except Malformed (List Char)}

theorem takesInOf_skipItem {items : List Tree}
    (h : ∀ t ∈ items, ∀ text rest, item text = .ok (t, rest) → skip text = .ok rest) :
    TakesInOf items item passOver (skipItem skip) := by
  intro _ text t rest hmem ht
  rw [skipItem, h t hmem text rest ht]
  rfl

theorem takesInOf_skipMember {members : List (String × Tree)}
    (h : ∀ m ∈ members, ∀ text rest, item text = .ok (m.2, rest) → skip text = .ok rest) :
    TakesInOf members (readMember item) passOver (skipMember skip) := by
  intro _ text m rest hmem hm
  obtain ⟨text₁, text₂, hkey, hcolon, ht⟩ := readMember_eq_ok.mp hm
  rw [skipMember, skipKey_of_readKey hkey, ok_bind, hcolon, ok_bind, h m hmem text₂ rest ht]
  rfl

end

/-- **Trees.**  A tree that can be read is passed over, with any budget that its depth allows. -/
theorem skipTree_of_readTree {limit budget : Nat} {text rest : List Char} {t : Tree}
    (h : readTree limit budget text = .ok (t, rest)) {budget' : Nat} (hd : t.depth ≤ budget') :
    skipTree limit budget' text = .ok rest := by
  induction budget using Nat.strongRecOn generalizing text rest t budget' with
  | ind budget ih =>
      cases treeAt_of_readTree h with
      | scalar hi hm h =>
          rw [skipTree_scalar hi hm]
          exact skipScalar_of_readScalar h
      -- a container has a level, which the bracket takes from both budgets
      | @array budget tail items hb he =>
          rw [Tree.depth] at hd
          obtain ⟨budget', rfl⟩ := Nat.exists_eq_add_of_le' (Nat.le_trans (Nat.le_add_left 1 _) hd)
          have hitems := Tree.depthItems_le_iff.mp (Nat.le_of_succ_le_succ hd)
          have hstep : TakesInOf items (readTree limit budget) passOver
              (skipItem (skipTree limit budget')) :=
            takesInOf_skipItem fun t ht _ _ h =>
              ih budget (Nat.lt_succ_self budget) h (hitems t ht)
          rw [skipTree_array hb, foldElements_of_elements he hstep, foldlM_passOver]
          rfl
      | @object budget tail members hb he =>
          rw [Tree.depth] at hd
          obtain ⟨budget', rfl⟩ := Nat.exists_eq_add_of_le' (Nat.le_trans (Nat.le_add_left 1 _) hd)
          have hmembers := Tree.depthMembers_le_iff.mp (Nat.le_of_succ_le_succ hd)
          have hstep : TakesInOf members (readMember (readTree limit budget)) passOver
              (skipMember (skipTree limit budget')) :=
            takesInOf_skipMember fun m hm _ _ h =>
              ih budget (Nat.lt_succ_self budget) h (hmembers m hm)
          rw [skipTree_object hb, foldElements_of_elements he hstep, foldlM_passOver]
          rfl

end Intake.Json
