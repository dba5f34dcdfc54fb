import Intake.Json.Reader
import Intake.Proofs.Json.Container
import Intake.Proofs.Json.Normal

/-!
# The trees in a text

What `readTree` reads is told here without its folds, by the bracket at the start of the text: an
array or an object is made of the elements up to its closing bracket, and anything else is a word,
a number or a string.

* `readMember`: the member at the start of a text, whatever becomes of it.
* `readTree_array_eq_ok`, `readTree_object_eq_ok`, `readTree_scalar`: the three kinds of texts.
* `treeAt_of_readTree`: the same, told from the tree.
* `Tree.read_eq_ok`: the tree of a whole text.
-/

namespace Intake.Json

/-! ### Elements put in front of one another -/

section
variable {α : Type}

/-- Puts an element in front of those before it. -/
def push (as : List α) (a : α) : Except Malformed (List α) := .ok (a :: as)

theorem foldlM_push_eq_ok {as before after : List α} :
    as.foldlM push before = .ok after ↔ as.reverse ++ before = after := by
  induction as generalizing before with
  | nil => exact foldlM_nil_eq_ok
  | cons a as ih =>
      rw [foldlM_cons_eq_ok, List.reverse_cons, List.append_assoc]
      constructor
      · rintro ⟨_, h, hfold⟩
        cases h
        exact ih.mp hfold
      · intro h
        exact ⟨_, rfl, ih.mpr h⟩

end

section
variable {item : List Char → Except Malformed (Tree × List Char)}

/-- The member at the start of a text: a key, a colon and a tree. -/
def readMember (item : List Char → Except Malformed (Tree × List Char)) (text : List Char) :
    Except Malformed ((String × Tree) × List Char) := do
  let (key, rest) ← readKey text
  let (t, rest) ← item (← readColon rest)
  return ((key, t), rest)

theorem readMember_eq_ok {m : String × Tree} {text rest : List Char} :
    readMember item text = .ok (m, rest) ↔
      ∃ text₁ text₂, readKey text = .ok (m.1, text₁) ∧ readColon text₁ = .ok text₂ ∧
        item text₂ = .ok (m.2, rest) := by
  rw [readMember, bind_eq_ok]
  constructor
  · rintro ⟨⟨key, text₁⟩, hkey, h⟩
    obtain ⟨text₂, hcolon, h⟩ := bind_eq_ok.mp h
    obtain ⟨⟨t, _⟩, ht, h⟩ := bind_eq_ok.mp h
    cases h
    exact ⟨text₁, text₂, hkey, hcolon, ht⟩
  · rintro ⟨text₁, text₂, hkey, hcolon, ht⟩
    exact ⟨_, hkey, bind_eq_ok.mpr ⟨_, hcolon, bind_eq_ok.mpr ⟨_, ht, rfl⟩⟩⟩

theorem takesIn_takeItem : TakesIn item push (takeItem item) := by
  intro items text items' rest
  rw [takeItem, bind_eq_ok]
  constructor
  · rintro ⟨⟨t, _⟩, ht, h⟩
    cases h
    exact ⟨t, ht, rfl⟩
  · rintro ⟨t, ht, h⟩
    cases h
    exact ⟨_, ht, rfl⟩

theorem takesIn_takeMember : TakesIn (readMember item) push (takeMember item) := by
  intro members text members' rest
  rw [takeMember, bind_eq_ok]
  constructor
  · rintro ⟨⟨key, text₁⟩, hkey, h⟩
    obtain ⟨text₂, hcolon, h⟩ := bind_eq_ok.mp h
    obtain ⟨⟨t, _⟩, ht, h⟩ := bind_eq_ok.mp h
    cases h
    exact ⟨(key, t), readMember_eq_ok.mpr ⟨text₁, text₂, hkey, hcolon, ht⟩, rfl⟩
  · rintro ⟨m, hm, h⟩
    cases h
    obtain ⟨text₁, text₂, hkey, hcolon, ht⟩ := readMember_eq_ok.mp hm
    exact ⟨_, hkey, bind_eq_ok.mpr ⟨_, hcolon, bind_eq_ok.mpr ⟨_, ht, rfl⟩⟩⟩

end

/-! ### The three kinds of texts -/

section
variable {limit budget : Nat} {text tail rest : List Char} {t : Tree}

theorem readTree_array (h : dropBlanks text = '[' :: tail) :
    readTree limit (budget + 1) text =
      foldElements ']' (takeItem (readTree limit budget)) limit [] tail >>= fun p =>
        .ok (.array p.1.reverse, p.2) := by
  rw [readTree, h]
  rfl

theorem readTree_object (h : dropBlanks text = '\x7b' :: tail) :
    readTree limit (budget + 1) text =
      foldElements '\x7d' (takeMember (readTree limit budget)) limit [] tail >>= fun p =>
        .ok (.object p.1.reverse, p.2) := by
  rw [readTree, h]
  rfl

/-- Behind an opening bracket stand the items of an array. -/
theorem readTree_array_eq_ok (h : dropBlanks text = '[' :: tail) :
    readTree limit (budget + 1) text = .ok (t, rest) ↔
      ∃ items, Elements ']' (readTree limit budget) limit tail items rest ∧ t = .array items := by
  rw [readTree_array h, bind_eq_ok]
  constructor
  · rintro ⟨⟨_, _⟩, hf, h⟩
    cases h
    obtain ⟨items, he, hp⟩ := (foldElements_eq_ok takesIn_takeItem).mp hf
    obtain rfl := foldlM_push_eq_ok.mp hp
    exact ⟨items, he, by simp⟩
  · rintro ⟨items, he, rfl⟩
    have hp : items.foldlM push [] = .ok items.reverse := foldlM_push_eq_ok.mpr (by simp)
    exact ⟨_, (foldElements_eq_ok takesIn_takeItem).mpr ⟨items, he, hp⟩, by simp⟩

/-- Behind an opening brace stand the members of an object. -/
theorem readTree_object_eq_ok (h : dropBlanks text = '\x7b' :: tail) :
    readTree limit (budget + 1) text = .ok (t, rest) ↔
      ∃ members, Elements '\x7d' (readMember (readTree limit budget)) limit tail members rest ∧
        t = .object members := by
  rw [readTree_object h, bind_eq_ok]
  constructor
  · rintro ⟨⟨_, _⟩, hf, h⟩
    cases h
    obtain ⟨members, he, hp⟩ := (foldElements_eq_ok takesIn_takeMember).mp hf
    obtain rfl := foldlM_push_eq_ok.mp hp
    exact ⟨members, he, by simp⟩
  · rintro ⟨members, he, rfl⟩
    have hp : members.foldlM push [] = .ok members.reverse := foldlM_push_eq_ok.mpr (by simp)
    exact ⟨_, (foldElements_eq_ok takesIn_takeMember).mpr ⟨members, he, hp⟩, by simp⟩

/-- A bracket that opens one level too many is refused. -/
theorem readTree_zero {c : Char} (hc : c = '[' ∨ c = '\x7b') (h : dropBlanks text = c :: tail) :
    readTree limit 0 text = .error .badSyntax := by
  rcases hc with rfl | rfl
  · rw [readTree, h]; rfl
  · rw [readTree, h]; rfl

/-- Where no bracket stands, there is a scalar, whatever the budget. -/
theorem readTree_scalar (hi : ∀ tail, dropBlanks text ≠ '[' :: tail)
    (hm : ∀ tail, dropBlanks text ≠ '\x7b' :: tail) :
    readTree limit budget text = readScalar (dropBlanks text) := by
  rw [readTree]
  split
  next h => exact absurd h (hi _)
  next h => exact absurd h (hm _)
  next => rfl

/-- What a tree was read from: a scalar behind the blanks, or the elements behind a bracket, which
takes a level of the budget. -/
inductive TreeAt (limit : Nat) (text rest : List Char) : Nat → Tree → Prop where
  | scalar {budget : Nat} {t : Tree} (hi : ∀ tail, dropBlanks text ≠ '[' :: tail)
      (hm : ∀ tail, dropBlanks text ≠ '\x7b' :: tail)
      (h : readScalar (dropBlanks text) = .ok (t, rest)) : TreeAt limit text rest budget t
  | array {budget : Nat} {tail : List Char} {items : List Tree} (h : dropBlanks text = '[' :: tail)
      (he : Elements ']' (readTree limit budget) limit tail items rest) :
      TreeAt limit text rest (budget + 1) (.array items)
  | object {budget : Nat} {tail : List Char} {members : List (String × Tree)}
      (h : dropBlanks text = '\x7b' :: tail)
      (he : Elements '\x7d' (readMember (readTree limit budget)) limit tail members rest) :
      TreeAt limit text rest (budget + 1) (.object members)

/-- **The three kinds of texts**, told from the tree that was read. -/
theorem treeAt_of_readTree (h : readTree limit budget text = .ok (t, rest)) :
    TreeAt limit text rest budget t := by
  by_cases hi : ∃ tail, dropBlanks text = '[' :: tail
  · obtain ⟨tail, hd⟩ := hi
    cases budget with
    | zero => rw [readTree_zero (Or.inl rfl) hd] at h; cases h
    | succ budget =>
        obtain ⟨items, he, rfl⟩ := (readTree_array_eq_ok hd).mp h
        exact .array hd he
  by_cases hm : ∃ tail, dropBlanks text = '\x7b' :: tail
  · obtain ⟨tail, hd⟩ := hm
    cases budget with
    | zero => rw [readTree_zero (Or.inr rfl) hd] at h; cases h
    | succ budget =>
        obtain ⟨members, he, rfl⟩ := (readTree_object_eq_ok hd).mp h
        exact .object hd he
  have hi' : ∀ tail, dropBlanks text ≠ '[' :: tail := fun tail hd => hi ⟨tail, hd⟩
  have hm' : ∀ tail, dropBlanks text ≠ '\x7b' :: tail := fun tail hd => hm ⟨tail, hd⟩
  rw [readTree_scalar hi' hm'] at h
  exact .scalar hi' hm' h

end

theorem isScalar_of_readScalar {text rest : List Char} {t : Tree}
    (h : readScalar text = .ok (t, rest)) : t.IsScalar := by
  revert h
  fun_cases readScalar text with
  | case1 => exact nofun
  | case2 | case3 | case4 =>
      intro h
      obtain ⟨_, -, h⟩ := bind_eq_ok.mp h
      cases h
      trivial
  | case5 | case6 =>
      intro h
      obtain ⟨⟨_, _⟩, -, h⟩ := bind_eq_ok.mp h
      cases h
      trivial
  | case7 => exact nofun

theorem Tree.read_eq_ok {text : String} {t : Tree} :
    Tree.read text = .ok t ↔
      ∃ rest, readTree text.toList.length nestingLimit text.toList = .ok (t, rest) ∧
        ensureEnd rest = .ok () := by
  rw [Tree.read, bind_eq_ok]
  constructor
  · rintro ⟨⟨t', rest⟩, ht, h⟩
    obtain ⟨_, hend, h⟩ := bind_eq_ok.mp h
    cases h
    exact ⟨rest, ht, hend⟩
  · rintro ⟨rest, ht, hend⟩
    exact ⟨_, ht, bind_eq_ok.mpr ⟨_, hend, rfl⟩⟩

theorem Value.read_eq_ok {text : String} {v : Value} :
    Value.read text = .ok v ↔ ∃ t, Tree.read text = .ok t ∧ Value.ofTree t = v := by
  rw [Value.read]
  cases Tree.read text with
  | error e => simp [Except.map]
  | ok t => simp [Except.map]

end Intake.Json
