import Intake.Proofs.Json.RoundTrip

/-!
# Values and their texts

A value without doubles is known from its text, however deep it is nested.  The limit of levels is
the reader's and not the text's: a reader with levels enough for two trees reads either of them from
its text, and what it reads from one text is one tree.  So it does not matter what a string holds;
brackets, commas and quotation marks in it cannot make two trees look alike.

Doubles are left out.  The two zeros among them are equal as numbers and have different texts.

* `Number.agrees_iff`, `Tree.DoubleFree.agrees_iff`: equality without doubles.
* `Tree.print_append_inj`: which tree was printed, and where it ends.
* `Value.text_inj`: values are told apart by their texts.
-/

namespace Intake.Json

/-! ### Equality -/

/-- An integer is equal to no number but itself. -/
theorem Number.agrees_iff {m n : Number} (hm : ¬ m.IsDouble) : m.agrees n = true ↔ m = n := by
  cases m with
  | natural | negative => cases n <;> simp [Number.agrees]
  | double => exact absurd trivial hm

namespace Tree

mutual

/-- A tree without doubles is equal to no tree but itself. -/
theorem DoubleFree.agrees_iff : ∀ {t u : Tree}, t.DoubleFree → (t.agrees u = true ↔ t = u)
  | .null, u, _ | .boolean _, u, _ | .string _, u, _ => by cases u <;> simp [agrees]
  | .number _, u, h => by cases u <;> simp [agrees, Number.agrees_iff h]
  | .array _, u, h => by cases u <;> simp [agrees, DoubleFreeItems.agreesItems_iff h]
  | .object _, u, h => by cases u <;> simp [agrees, DoubleFreeMembers.agreesMembers_iff h]

theorem DoubleFreeItems.agreesItems_iff : ∀ {ts us : List Tree}, DoubleFreeItems ts →
    (agreesItems ts us = true ↔ ts = us)
  | [], us, _ => by cases us <;> simp [agreesItems]
  | _ :: _, us, h => by
      cases us <;>
        simp [agreesItems, DoubleFree.agrees_iff h.1, DoubleFreeItems.agreesItems_iff h.2]

theorem DoubleFreeMembers.agreesMembers_iff : ∀ {ms ns : List (String × Tree)},
    DoubleFreeMembers ms → (agreesMembers ms ns = true ↔ ms = ns)
  | [], ns, _ => by cases ns <;> simp [agreesMembers]
  | (_, _) :: _, ns, h => by
      cases ns <;>
        simp [agreesMembers, DoubleFree.agrees_iff h.1, DoubleFreeMembers.agreesMembers_iff h.2,
          Prod.ext_iff]

end

/-! ### Texts -/

section
variable {t u : Tree} (ht : t.DoubleFree) (hu : u.DoubleFree)
include ht hu

/-- **One text, one tree.**  Whatever stands behind a printed tree, if only it does not go on a
number, the characters tell which tree it is and where it ends. -/
theorem print_append_inj {rest rest' : List Char} (hr : EndsNumber rest) (hr' : EndsNumber rest')
    (h : t.print ++ rest = u.print ++ rest') : t = u ∧ rest = rest' := by
  -- one reader with room and levels enough for both trees
  have hread := readTree_print (max t.print.length u.print.length) ht (Nat.le_max_left _ _)
    (max t.depth u.depth) hr
  have hread' := readTree_print (max t.print.length u.print.length) hu (Nat.le_max_right _ _)
    (max t.depth u.depth) hr'
  rw [if_pos (Nat.le_max_left _ _)] at hread
  rw [if_pos (Nat.le_max_right _ _), ← h, hread] at hread'
  exact Prod.mk.inj (Except.ok.inj hread')

theorem text_inj : t.text = u.text ↔ t = u := by
  refine ⟨fun h => ?_, congrArg text⟩
  have hprint : t.print ++ [] = u.print ++ [] := congrArg (· ++ []) (String.ofList_injective h)
  exact (print_append_inj ht hu endsNumber_nil endsNumber_nil hprint).1

end

end Tree

namespace Value

section
variable {v w : Value} (hv : v.tree.DoubleFree)
include hv

/-- **Equality.**  A value without doubles is equal to no value but itself. -/
theorem agrees_iff : v.agrees w = true ↔ v = w := hv.agrees_iff.trans Value.ext_iff.symm

/-- **One text, one value.**  Values without doubles have one text only if they are the same. -/
theorem text_inj (hw : w.tree.DoubleFree) : v.text = w.text ↔ v = w :=
  (Tree.text_inj hv hw).trans Value.ext_iff.symm

end

/-- The two zeros are equal and have different texts. -/
example :
    (ofTree (.number (.double ⟨false, 0, by decide⟩))).agrees
        (ofTree (.number (.double ⟨true, 0, by decide⟩))) = true ∧
      (ofTree (.number (.double ⟨false, 0, by decide⟩))).text ≠
        (ofTree (.number (.double ⟨true, 0, by decide⟩))).text := by
  decide +kernel

end Value
end Intake.Json
