import Intake.Proofs.Text.Parts

/-!
# Text between octets

The octets of a text may stand between any others.  The first of them continues no sequence that is
still open, and the last of them leaves none open, so that the text is decoded as it is and what
stands around it is decoded as if the text were not there.

* `exists_start`: the first octet of a character starts afresh.
* `lossy_append_encode_append`: text between octets.
* `lossy_encode`, `length_encode`: text alone, and how many octets it takes.
-/

namespace Intake.Text.Utf8

theorem Opens.le_lead {octet : Nat} {s : State} (h : Opens octet s) : 0xC0 ≤ octet := by
  cases h <;> omega

/-- The first octet of a character is no continuation octet. -/
theorem exists_start (c : Char) :
    ∃ octet more, String.utf8EncodeChar c = octet :: more ∧
      (octet.toNat < 0x80 ∨ 0xC0 ≤ octet.toNat) := by
  rcases Nat.lt_or_ge c.toNat 0x80 with h | h
  · have htoNat : (UInt8.ofNat c.toNat).toNat = c.toNat := by
      rw [UInt8.toNat_ofNat', Nat.mod_eq_of_lt (by omega)]
    exact ⟨_, [], utf8EncodeChar_one h, Or.inl (by rw [htoNat]; exact h)⟩
  · obtain ⟨octet, later, bits, low, high, ho, -, henc⟩ := exists_opens h
    exact ⟨octet, _, henc, Or.inr ho.le_lead⟩

/-- Characters are decoded as they are, and what stands before them and behind them is decoded on
its own. -/
theorem decode_append_flatMap_append {cs : List Char} (h : cs ≠ [])
    (before behind : List UInt8) :
    decode (before ++ cs.flatMap String.utf8EncodeChar ++ behind) =
      decode before ++ (cs.map some ++ decode behind) := by
  obtain ⟨c, more, rfl⟩ := List.exists_cons_of_ne_nil h
  obtain ⟨octet, octets, henc, hstart⟩ := exists_start c
  have hcons : (c :: more).flatMap String.utf8EncodeChar ++ behind =
      octet :: (octets ++ (more.flatMap String.utf8EncodeChar ++ behind)) := by
    rw [List.flatMap_cons, henc, List.append_assoc, List.cons_append]
  rw [List.append_assoc, hcons, decode_append_of_starts hstart, ← hcons, decode_flatMap_append]

/-- Where a character was decoded there is nothing to replace. -/
theorem map_getD_map_some (cs : List Char) :
    (cs.map some).map (·.getD '\uFFFD') = cs := by
  rw [List.map_map]
  exact List.map_id cs

/-- **Text between octets.**  The empty text is left out, because the octets around it may belong
together. -/
theorem lossy_append_encode_append {text : String} (h : text ≠ "") (before behind : List UInt8) :
    lossy (before ++ encode text ++ behind) = lossy before ++ text ++ lossy behind := by
  have hne : text.toList ≠ [] := by
    intro hnil
    exact h (String.toList_eq_nil_iff.mp hnil)
  rw [← String.toList_inj, lossy, lossy, lossy, encode, decode_append_flatMap_append hne]
  simp only [String.toList_ofList, String.toList_append, List.map_append, map_getD_map_some,
    List.append_assoc]

/-- The octets of a text are decoded as the text. -/
theorem lossy_encode (text : String) : lossy (encode text) = text := by
  have hdecode : decode (encode text) = text.toList.map some := decode_eq_map_some_iff.mpr rfl
  rw [lossy, hdecode, map_getD_map_some, String.ofList_toList]

theorem length_encode (text : String) : (encode text).length = text.utf8ByteSize := by
  rw [encode, ← List.size_toByteArray, ← List.utf8Encode, String.utf8Encode_toList,
    String.size_toByteArray]

end Intake.Text.Utf8
