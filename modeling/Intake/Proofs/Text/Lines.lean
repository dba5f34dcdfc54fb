import Intake.Proofs.Text.Embedded
import Mathlib.Data.List.DropRight

/-!
# Lines of octets

A line feed is one octet, which occurs in the octets of no other character and continues none.  So
the decoder cannot take one for anything else, whatever ill-formed parts stand around it: the lines
of a text are the lines of its octets, each decoded on its own.

* `lossy_append_lineFeed`: a line feed separates what is decoded.
* `lines_induction`: induction on the lines of an octet string.
* `splitOn_lossy`, `count_lossy`, `rtakeWhile_lossy`: the lines of a text, the number of its line
  feeds, and what stands behind the last of them.
-/

namespace Intake.Text.Utf8

/-- The octet of a line feed. -/
def lineFeed : UInt8 := 0x0A

/-! ### One line feed -/

/-- **A line feed separates.**  What stands before it and what stands behind it are decoded on their
own. -/
theorem lossy_append_lineFeed (before behind : List UInt8) :
    (lossy (before ++ lineFeed :: behind)).toList =
      (lossy before).toList ++ '\n' :: (lossy behind).toList := by
  have henc : before ++ lineFeed :: behind = before ++ encode "\n" ++ behind := by
    rw [List.append_assoc]
    rfl
  rw [henc, lossy_append_encode_append (by decide), String.toList_append, String.toList_append,
    List.append_assoc]
  rfl

/-- The octets of the characters that are decoded occur in what is decoded. -/
theorem mem_of_some_mem_parts {octets : List UInt8} {out : Output} (h : Parts octets out) {c : Char}
    (hc : some c ∈ out) {octet : UInt8} (ho : octet ∈ String.utf8EncodeChar c) :
    octet ∈ octets := by
  induction h with
  | nil => cases hc
  | character d _ ih =>
      rw [List.mem_append]
      rcases List.mem_cons.mp hc with heq | hc
      · cases heq
        exact Or.inl ho
      · exact Or.inr (ih hc)
  | illFormed _ _ ih =>
      rw [List.mem_append]
      rcases List.mem_cons.mp hc with heq | hc
      · cases heq
      · exact Or.inr (ih hc)

/-- No line feed is decoded from octets without one. -/
theorem newline_notMem_lossy {octets : List UInt8} (h : lineFeed ∉ octets) :
    '\n' ∉ (lossy octets).toList := by
  rw [lossy, String.toList_ofList, List.mem_map]
  rintro ⟨part?, hmem, heq⟩
  cases part? with
  | none => exact absurd heq (by decide)
  | some c =>
      cases heq
      exact h (mem_of_some_mem_parts (parts_decode octets) hmem (by decide))

/-! ### All lines -/

/-- An octet string is one line, or a line before a line feed and others behind it. -/
theorem lines_induction {motive : List UInt8 → Prop}
    (last : ∀ line, lineFeed ∉ line → motive line)
    (more : ∀ line rest, lineFeed ∉ line → motive rest → motive (line ++ lineFeed :: rest))
    (octets : List UInt8) : motive octets := by
  generalize hn : octets.length = n
  induction n using Nat.strongRecOn generalizing octets with
  | ind n ih =>
      by_cases h : lineFeed ∈ octets
      · obtain ⟨line, rest, rfl, hline⟩ := List.eq_append_cons_of_mem h
        rw [List.length_append, List.length_cons] at hn
        exact more line rest hline (ih rest.length (by omega) rest rfl)
      · exact last octets h

/-- **The lines of a text** are the lines of its octets, each decoded on its own. -/
theorem splitOn_lossy (octets : List UInt8) :
    (lossy octets).toList.splitOn '\n' =
      (octets.splitOn lineFeed).map fun line => (lossy line).toList := by
  induction octets using lines_induction with
  | last line h =>
      rw [List.splitOn_eq_singleton h, List.splitOn_eq_singleton (newline_notMem_lossy h)]
      rfl
  | more line rest h ih =>
      rw [lossy_append_lineFeed, List.splitOn_append_cons_self_of_not_mem h,
        List.splitOn_append_cons_self_of_not_mem (newline_notMem_lossy h), ih]
      rfl

theorem count_lossy (octets : List UInt8) :
    (lossy octets).toList.count '\n' = octets.count lineFeed := by
  induction octets using lines_induction with
  | last line h =>
      rw [List.count_eq_zero_of_not_mem h, List.count_eq_zero_of_not_mem (newline_notMem_lossy h)]
  | more line rest h ih =>
      rw [lossy_append_lineFeed, List.count_append, List.count_append, List.count_cons_self,
        List.count_cons_self, List.count_eq_zero_of_not_mem h,
        List.count_eq_zero_of_not_mem (newline_notMem_lossy h), ih]

theorem rtakeWhile_append_cons {α : Type} {p : α → Bool} {a : α} (h : ¬ p a) (before l : List α) :
    (before ++ a :: l).rtakeWhile p = l.rtakeWhile p := by
  induction l using List.reverseRecOn with
  | nil => rw [List.rtakeWhile_concat_neg _ _ _ h, List.rtakeWhile_nil]
  | append_singleton l b ih =>
      rw [← List.cons_append, ← List.append_assoc, List.rtakeWhile_concat, List.rtakeWhile_concat,
        ih]

/-- What stands behind the last line feed of a text is decoded from what stands behind the last one
of its octets. -/
theorem rtakeWhile_lossy (octets : List UInt8) :
    (lossy octets).toList.rtakeWhile (· ≠ '\n') =
      (lossy (octets.rtakeWhile (· ≠ lineFeed))).toList := by
  induction octets using lines_induction with
  | last line h =>
      have hline : line.rtakeWhile (· ≠ lineFeed) = line := by
        rw [List.rtakeWhile_eq_self_iff]
        intro octet ho
        exact decide_eq_true fun he => h (he ▸ ho)
      rw [hline, List.rtakeWhile_eq_self_iff]
      intro c hc
      exact decide_eq_true fun he => newline_notMem_lossy h (he ▸ hc)
  | more line rest h ih =>
      rw [lossy_append_lineFeed, rtakeWhile_append_cons (by simp), ih,
        rtakeWhile_append_cons (by simp)]

end Intake.Text.Utf8
