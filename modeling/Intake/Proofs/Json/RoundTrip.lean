import Intake.Proofs.Json.Normal
import Intake.Proofs.Json.Numeral
import Intake.Proofs.Json.Reader
import Intake.Proofs.Json.StringLiteral

/-!
# Printed trees, read back

A tree without doubles is read back from its compact text if the budget of levels suffices, and is
a fault of syntax at the bracket that opens one level too many if it does not.  Both are one
statement, `readTree_print`, because everything in front of that bracket must be read as well.

The statement quantifies over the text that follows, the budget and the limit on the number of
elements.  The induction is on the tree; the items behind the first one of an array, and the
members behind the first one of an object, have a statement of their own (`foldRest_printItems`,
`foldRest_printMembers`), which follows the recursion of the printer.

* `Tree.DoubleFree`: no number in the tree is a double.
* `readTree_print`: the round trip with its limit.
* `Tree.read_text`: the round trip for a whole text.
-/

namespace Intake.Json

/-! ### Trees without doubles -/

namespace Tree

mutual

/-- No number in the tree is a double. -/
def DoubleFree : Tree → Prop
  | number n => ¬ n.IsDouble
  | array items => DoubleFreeItems items
  | object members => DoubleFreeMembers members
  | _ => True

/-- No tree of a list has a double. -/
def DoubleFreeItems : List Tree → Prop
  | [] => True
  | t :: items => t.DoubleFree ∧ DoubleFreeItems items

/-- No member's tree has a double. -/
def DoubleFreeMembers : List (String × Tree) → Prop
  | [] => True
  | (_, t) :: members => t.DoubleFree ∧ DoubleFreeMembers members

end

theorem doubleFreeMembers_insertMember {key : String} {t : Tree} {members : List (String × Tree)}
    (h : key ∉ members.map Prod.fst) :
    DoubleFreeMembers (insertMember key t members) ↔ t.DoubleFree ∧ DoubleFreeMembers members := by
  fun_induction insertMember key t members with
  | case1 => rfl
  | case2 => rfl
  | case3 => exact absurd List.mem_cons_self h
  | case4 k u members _ _ ih =>
      rw [DoubleFreeMembers, ih fun hmem => h (List.mem_cons_of_mem _ hmem), DoubleFreeMembers,
        and_left_comm]

mutual

/-- Where no key is repeated, the tree has a double only if its normal form has. -/
theorem DoubleFree.of_normalize : ∀ {t : Tree}, t.DistinctKeys → t.normalize.DoubleFree →
    t.DoubleFree
  | .null, _, h | .boolean _, _, h | .number _, _, h | .string _, _, h => h
  | .array _, hd, h => DoubleFreeItems.of_normalizeItems hd h
  | .object _, hd, h => DoubleFreeMembers.of_normalizeMembers hd.1 hd.2 h

theorem DoubleFreeItems.of_normalizeItems : ∀ {items : List Tree}, DistinctKeysItems items →
    DoubleFreeItems (normalizeItems items) → DoubleFreeItems items
  | [], _, h => h
  | _ :: _, hd, h => ⟨DoubleFree.of_normalize hd.1 h.1, DoubleFreeItems.of_normalizeItems hd.2 h.2⟩

theorem DoubleFreeMembers.of_normalizeMembers : ∀ {members : List (String × Tree)},
    (members.map Prod.fst).Nodup → DistinctKeysMembers members →
    DoubleFreeMembers (normalizeMembers members) → DoubleFreeMembers members
  | [], _, _, h => h
  | (key, t) :: members, hn, hd, h => by
      obtain ⟨hmem, hn⟩ := List.nodup_cons.mp hn
      rw [normalizeMembers,
        doubleFreeMembers_insertMember (notMem_keys_normalizeMembers.mpr hmem)] at h
      exact ⟨DoubleFree.of_normalize hd.1 h.1, DoubleFreeMembers.of_normalizeMembers hn hd.2 h.2⟩

end

theorem DoubleFreeMembers.insertMember {key : String} {t : Tree} {members : List (String × Tree)}
    (ht : t.DoubleFree) (h : DoubleFreeMembers members) :
    DoubleFreeMembers (insertMember key t members) := by
  fun_induction Tree.insertMember key t members with
  | case1 => exact ⟨ht, h⟩
  | case2 => exact ⟨ht, h⟩
  | case3 => exact h
  | case4 _ _ _ _ _ ih => exact ⟨h.1, ih h.2⟩

mutual

/-- The normal form of a tree without doubles has none. -/
theorem DoubleFree.normalize : ∀ {t : Tree}, t.DoubleFree → t.normalize.DoubleFree
  | .null, h | .boolean _, h | .number _, h | .string _, h => h
  | .array _, h => DoubleFreeItems.normalizeItems h
  | .object _, h => DoubleFreeMembers.normalizeMembers h

theorem DoubleFreeItems.normalizeItems : ∀ {items : List Tree}, DoubleFreeItems items →
    DoubleFreeItems (normalizeItems items)
  | [], h => h
  | _ :: _, h => ⟨DoubleFree.normalize h.1, DoubleFreeItems.normalizeItems h.2⟩

theorem DoubleFreeMembers.normalizeMembers : ∀ {members : List (String × Tree)},
    DoubleFreeMembers members → DoubleFreeMembers (normalizeMembers members)
  | [], h => h
  | (_, _) :: _, h =>
      (DoubleFreeMembers.normalizeMembers h.2).insertMember (DoubleFree.normalize h.1)

end

end Tree

/-! ### Keys and scalars -/

theorem readKey_write (key : String) (rest : List Char) :
    readKey (StringLiteral.write key ++ rest) = .ok (key, rest) := by
  have h := StringLiteral.read_write key rest
  simp only [readKey, StringLiteral.write, List.cons_append, List.append_assoc, List.nil_append,
    dropBlanks_cons (c := '"') rfl, if_true, h]

/-- A member is taken in behind its printed key as soon as its tree is read. -/
theorem takeMember_printKey (item : List Char → Except Malformed (Tree × List Char))
    (members : List (String × Tree)) (key : String) (text : List Char) :
    takeMember item members (Tree.printKey key ++ text) =
      item text >>= fun p => .ok ((key, p.1) :: members, p.2) := by
  rw [takeMember, Tree.printKey, List.append_assoc, readKey_write]
  rfl

/-- Where no bracket stands, a scalar is read, whatever the budget. -/
theorem readTree_of_ne {c : Char} (hb : isBlank c = false) (hi : c ≠ '[') (hm : c ≠ '\x7b')
    (limit budget : Nat) (text : List Char) :
    readTree limit budget (c :: text) = readScalar (c :: text) := by
  have h := dropBlanks_cons hb text
  rw [readTree_scalar (fun _ he => hi (List.cons.inj (h.symm.trans he)).1)
    (fun _ he => hm (List.cons.inj (h.symm.trans he)).1), h]

/-- An integer is written with a digit or a minus sign in front. -/
theorem Number.text_eq_cons {n : Number} (hn : ¬ n.IsDouble) :
    ∃ c cs, n.text = c :: cs ∧ (c = '-' ∨ c.isDigit = true) := by
  cases n with
  | natural n =>
      cases h : Nat.toDigits 10 n.toNat with
      | nil => exact absurd h Nat.toDigits_ne_nil
      | cons c cs => exact ⟨c, cs, h, Or.inr (isDigit_of_mem_toDigits (h ▸ List.mem_cons_self))⟩
  | negative k => exact ⟨'-', _, rfl, Or.inl rfl⟩
  | double d => exact absurd trivial hn

/-- Words, strings and integers are read back, whatever the budget. -/
theorem readTree_print_scalar {t : Tree} (hd : t.DoubleFree) (hi : ∀ items, t ≠ .array items)
    (hm : ∀ members, t ≠ .object members) (limit budget : Nat) {rest : List Char}
    (hr : EndsNumber rest) : readTree limit budget (t.print ++ rest) = .ok (t, rest) := by
  cases t with
  | null => exact readTree_of_ne rfl (by decide) (by decide) limit budget _
  | boolean b =>
      cases b with
      | true => exact readTree_of_ne rfl (by decide) (by decide) limit budget _
      | false => exact readTree_of_ne rfl (by decide) (by decide) limit budget _
  | number n =>
      have hread := readNumber_text hd hr
      obtain ⟨c, cs, htext, hc⟩ := n.text_eq_cons hd
      rw [htext, List.cons_append] at hread
      rw [Tree.print, htext, List.cons_append,
        readTree_of_ne (isBlank_of_opensNumeral hc) (ne_of_opensNumeral hc rfl)
          (ne_of_opensNumeral hc rfl),
        readScalar_numeral hc, hread, ok_bind]
  | string s =>
      have hread := StringLiteral.read_write s rest
      simp only [Tree.print, StringLiteral.write, List.cons_append, List.append_assoc,
        List.nil_append]
      rw [readTree_of_ne rfl (by decide) (by decide)]
      simp [readScalar, hread, pure, Except.pure]
  | array items => exact absurd rfl (hi items)
  | object members => exact absurd rfl (hm members)

/-! ### Containers -/

/-- No printed tree starts with a blank or with a closing bracket. -/
theorem print_eq_cons {t : Tree} (ht : t.DoubleFree) :
    ∃ c cs, t.print = c :: cs ∧ isBlank c = false ∧ c ≠ ']' := by
  match t, ht with
  | .null, _ => exact ⟨'n', _, rfl, rfl, by decide⟩
  | .boolean true, _ => exact ⟨'t', _, rfl, rfl, by decide⟩
  | .boolean false, _ => exact ⟨'f', _, rfl, rfl, by decide⟩
  | .string s, _ => exact ⟨'"', _, rfl, rfl, by decide⟩
  | .array [], _ | .array (_ :: _), _ => exact ⟨'[', _, rfl, rfl, by decide⟩
  | .object [], _ | .object (_ :: _), _ => exact ⟨'\x7b', _, rfl, rfl, by decide⟩
  | .number n, ht =>
      obtain ⟨c, cs, htext, hc⟩ := n.text_eq_cons ht
      exact ⟨c, cs, htext, isBlank_of_opensNumeral hc, ne_of_opensNumeral hc rfl⟩

theorem endsNumber_printItems (items : List Tree) (rest : List Char) :
    EndsNumber (Tree.printItems items ++ rest) := by
  cases items with
  | nil => exact endsNumber_cons rfl _
  | cons => exact endsNumber_cons rfl _

theorem endsNumber_printMembers (members : List (String × Tree)) (rest : List Char) :
    EndsNumber (Tree.printMembers members ++ rest) := by
  cases members with
  | nil => exact endsNumber_cons rfl _
  | cons => exact endsNumber_cons rfl _

theorem length_le_printItems (items : List Tree) :
    items.length ≤ (Tree.printItems items).length := by
  induction items with
  | nil => exact Nat.zero_le _
  | cons t items ih =>
      simp only [Tree.printItems, List.length_cons, List.length_append]
      omega

theorem length_le_printMembers (members : List (String × Tree)) :
    members.length ≤ (Tree.printMembers members).length := by
  induction members with
  | nil => exact Nat.zero_le _
  | cons m members ih =>
      simp only [Tree.printMembers, List.length_cons, List.length_append]
      omega

/-- The first element and those behind it are within the budget, or one of them is not. -/
theorem foldSeparated_of_foldRest {σ : Type} {closing : Char}
    {step : σ → List Char → Except Malformed (σ × List Char)} {m n : Nat} {s s' : σ}
    {text rest : List Char} {r : σ × List Char} {e : Malformed} {P Q : Prop} [Decidable P]
    [Decidable Q] (hm : m = n + 1) (hstep : step s text = if P then .ok (s', rest) else .error e)
    (hrest : foldRest closing step n s' rest = if Q then .ok r else .error e) :
    foldSeparated closing step m s text = if P ∧ Q then .ok r else .error e := by
  rw [hm, foldSeparated_succ, hstep]
  by_cases hP : P
  · simp [hP, hrest]
  · simp [hP]

theorem takeItem_of_readTree {limit budget : Nat} {t : Tree} {text rest : List Char}
    (before : List Tree)
    (h : readTree limit budget text =
      if t.depth ≤ budget then .ok (t, rest) else .error .badSyntax) :
    takeItem (readTree limit budget) before text =
      if t.depth ≤ budget then .ok (t :: before, rest) else .error .badSyntax := by
  by_cases ht : t.depth ≤ budget
  · simp [takeItem, h, ht, pure, Except.pure]
  · simp [takeItem, h, ht]

theorem takeMember_of_readTree {limit budget : Nat} {t : Tree} {text rest : List Char}
    (before : List (String × Tree)) (key : String)
    (h : readTree limit budget text =
      if t.depth ≤ budget then .ok (t, rest) else .error .badSyntax) :
    takeMember (readTree limit budget) before (Tree.printKey key ++ text) =
      if t.depth ≤ budget then .ok ((key, t) :: before, rest) else .error .badSyntax := by
  rw [takeMember_printKey]
  by_cases ht : t.depth ≤ budget
  · simp [h, ht]
  · simp [h, ht]

/-! ### The round trip -/

mutual

/-- **The round trip with its limit.**  A tree without doubles is read back if the budget of levels
suffices, and is a fault of syntax otherwise. -/
theorem readTree_print (limit : Nat) : ∀ {t : Tree}, t.DoubleFree → t.print.length ≤ limit →
    ∀ (budget : Nat) {rest : List Char}, EndsNumber rest →
      readTree limit budget (t.print ++ rest) =
        if t.depth ≤ budget then .ok (t, rest) else .error .badSyntax
  | .null, hd, _, budget, _, hr | .boolean _, hd, _, budget, _, hr
  | .number _, hd, _, budget, _, hr | .string _, hd, _, budget, _, hr => by
      simp only [Tree.depth, Nat.zero_le, if_true]
      exact readTree_print_scalar hd nofun nofun limit budget hr
  -- no level is left: the bracket is refused before anything behind it is looked at
  | .array [], _, _, 0, _, _ | .array (_ :: _), _, _, 0, _, _ =>
      readTree_zero (Or.inl rfl) (dropBlanks_cons rfl _)
  | .object [], _, _, 0, _, _ | .object (_ :: _), _, _, 0, _, _ =>
      readTree_zero (Or.inr rfl) (dropBlanks_cons rfl _)
  | .array [], _, _, budget + 1, rest, _ => by
      have hempty : foldElements ']' (takeItem (readTree limit budget)) limit [] (']' :: rest) =
          .ok ([], rest) := foldElements_closing _ limit [] rfl rest
      simp only [Tree.print, Tree.depth, Tree.depthItems, Nat.le_add_left, if_true,
        List.cons_append, List.nil_append, readTree_array (dropBlanks_cons rfl _), hempty]
      rfl
  | .object [], _, _, budget + 1, rest, _ => by
      have hempty : foldElements '\x7d' (takeMember (readTree limit budget)) limit []
          ('\x7d' :: rest) = .ok ([], rest) := foldElements_closing _ limit [] rfl rest
      simp only [Tree.print, Tree.depth, Tree.depthMembers, Nat.le_add_left, if_true,
        List.cons_append, List.nil_append, readTree_object (dropBlanks_cons rfl _), hempty]
      rfl
  | .array (t :: items), hd, hl, budget + 1, rest, _ => by
      simp only [Tree.print, List.length_cons, List.length_append] at hl
      have hlen := length_le_printItems items
      -- the first item has a comma or the bracket behind it, and the fold goes on from there
      obtain ⟨n, hn⟩ : ∃ n, limit = n + 1 := ⟨limit - 1, by omega⟩
      have ht := takeItem_of_readTree []
        (readTree_print limit hd.1 (by omega) budget (endsNumber_printItems items rest))
      have hall := foldSeparated_of_foldRest hn ht
        (foldRest_printItems limit hd.2 (by omega) budget [t] rest (by omega))
      obtain ⟨c, cs, hprint, hb, hc⟩ := print_eq_cons hd.1
      rw [hprint, List.cons_append, ← foldElements_cons _ _ _ hb hc, ← List.cons_append,
        ← hprint] at hall
      simp only [Tree.print, Tree.depth, Tree.depthItems, List.cons_append, List.append_assoc,
        readTree_array (dropBlanks_cons rfl _), hall, Nat.add_le_add_iff_right, Nat.max_le]
      split
      · simp
      · rfl
  | .object ((key, t) :: members), hd, hl, budget + 1, rest, _ => by
      simp only [Tree.print, List.length_cons, List.length_append] at hl
      have hlen := length_le_printMembers members
      obtain ⟨n, hn⟩ : ∃ n, limit = n + 1 := ⟨limit - 1, by omega⟩
      have ht := takeMember_of_readTree [] key
        (readTree_print limit hd.1 (by omega) budget (endsNumber_printMembers members rest))
      have hall := foldSeparated_of_foldRest hn ht
        (foldRest_printMembers limit hd.2 (by omega) budget [(key, t)] rest (by omega))
      rw [Tree.printKey, StringLiteral.write, List.cons_append, List.cons_append,
        ← foldElements_cons (c := '"') _ _ _ rfl (by decide)] at hall
      simp only [Tree.print, Tree.printKey, StringLiteral.write, Tree.depth, Tree.depthMembers,
        List.cons_append, List.append_assoc, readTree_object (dropBlanks_cons rfl _),
        Nat.add_le_add_iff_right, Nat.max_le] at hall ⊢
      rw [hall]
      split
      · simp
      · rfl

theorem foldRest_printItems (limit : Nat) : ∀ {items : List Tree}, Tree.DoubleFreeItems items →
    (Tree.printItems items).length ≤ limit →
    ∀ (budget : Nat) {n : Nat} (before : List Tree) (rest : List Char), items.length ≤ n →
      foldRest ']' (takeItem (readTree limit budget)) n before (Tree.printItems items ++ rest) =
        if Tree.depthItems items ≤ budget then .ok (items.reverse ++ before, rest)
        else .error .badSyntax
  | [], _, _, budget, n, before, rest, _ => by
      simp only [Tree.depthItems, Nat.zero_le, if_true]
      exact foldRest_closing _ n before rfl rest
  | t :: items, hd, hl, budget, n + 1, before, rest, hn => by
      simp only [Tree.printItems, List.length_cons, List.length_append] at hl hn
      have ht := takeItem_of_readTree before
        (readTree_print limit hd.1 (by omega) budget (endsNumber_printItems items rest))
      have hall := foldSeparated_of_foldRest (n := n) rfl ht
        (foldRest_printItems limit hd.2 (by omega) budget (t :: before) rest (by omega))
      simp only [Tree.printItems, Tree.depthItems, List.cons_append, List.append_assoc,
        foldRest_comma _ _ _ (by decide : ']' ≠ ','), hall, Nat.max_le, List.reverse_cons,
        List.nil_append]

theorem foldRest_printMembers (limit : Nat) :
    ∀ {members : List (String × Tree)}, Tree.DoubleFreeMembers members →
    (Tree.printMembers members).length ≤ limit →
    ∀ (budget : Nat) {n : Nat} (before : List (String × Tree)) (rest : List Char),
      members.length ≤ n →
      foldRest '\x7d' (takeMember (readTree limit budget)) n before
          (Tree.printMembers members ++ rest) =
        if Tree.depthMembers members ≤ budget then .ok (members.reverse ++ before, rest)
        else .error .badSyntax
  | [], _, _, budget, n, before, rest, _ => by
      simp only [Tree.depthMembers, Nat.zero_le, if_true]
      exact foldRest_closing _ n before rfl rest
  | (key, t) :: members, hd, hl, budget, n + 1, before, rest, hn => by
      simp only [Tree.printMembers, List.length_cons, List.length_append] at hl hn
      have ht := takeMember_of_readTree before key
        (readTree_print limit hd.1 (by omega) budget (endsNumber_printMembers members rest))
      have hall := foldSeparated_of_foldRest (n := n) rfl ht
        (foldRest_printMembers limit hd.2 (by omega) budget ((key, t) :: before) rest (by omega))
      simp only [Tree.printMembers, Tree.depthMembers, List.cons_append, List.append_assoc,
        foldRest_comma _ _ _ (by decide : '\x7d' ≠ ','), hall, Nat.max_le, List.reverse_cons,
        List.nil_append]

end

/-- A whole text is read back if its tree is nested at most 127 levels deep. -/
theorem Tree.read_text {t : Tree} (hd : t.DoubleFree) :
    Tree.read t.text = if t.depth ≤ nestingLimit then .ok t else .error .badSyntax := by
  have h := readTree_print t.print.length hd (Nat.le_refl _) nestingLimit endsNumber_nil
  rw [List.append_nil] at h
  simp only [Tree.read, Tree.text, String.toList_ofList, h]
  split
  · rfl
  · rfl

end Intake.Json
