import Intake.Proofs.Json.Truncation
import Intake.Proofs.Wire.TextRoundTrip

/-!
# Truncated outcomes

What is left of the text of an outcome is never taken for an outcome, and the decoder finds nothing
wrong with it but that it ends.  The pass is followed over the two members that the encoder writes,
as in the round trip: whatever is complete of them is accepted, and what is not runs out of text.
So no text of an outcome is the beginning of another one's.

* `openMember_cut_tag`, `openMember_cut_key`: the pass at a member that is cut off.
* `readTagged_cut`: the pass over an outcome that is cut off, for any tree in the place of the
  payload.
* `readOutcome_truncated`: truncated texts, for payloads of every shape.
-/

namespace Intake.Wire
open Intake.Json

instance : LiftsEnd TextError := ⟨.malformed .endOfInput, rfl⟩

/-! ### The two members -/

section
variable {limit : Nat} {opened : Opened} {key : String} {part : List Char}

/-- In a key that may stand there, and in front of its colon, more text must follow. -/
theorem openMember_cut (ho : key = Variant.tagField → opened.variant = none)
    (h : Cut part (Tree.printKey key)) :
    openMember limit opened part = .error (.malformed .endOfInput) := by
  rcases readKey_cut h with hkey | hkey
  · rw [openMember, hkey]
    rfl
  · rw [openMember, hkey]
    change (if key = Variant.tagField then _ else _) = _
    by_cases hk : key = Variant.tagField
    · rw [if_pos hk, ho hk]
      rfl
    · rw [if_neg hk]
      rfl

/-- A tag that is cut off is not complained about. -/
theorem readVariant_cut {s : String} (h : Cut part (Tree.string s).print) :
    readVariant part = .error (.malformed .endOfInput) := by
  have hread := readScalar_cut_string h
  cases h with
  | here => rfl
  | later _ h =>
      rw [readVariant, readInPlace, dropBlanks_cons rfl]
      change (liftM (readScalar _) >>= _) = _
      rw [hread]
      rfl

theorem openMember_cut_tag {s : String}
    (h : Cut part (Tree.printKey Variant.tagField ++ (Tree.string s).print)) :
    RunsOut (openMember limit .empty part) := by
  rcases h.of_append with hcut | ⟨part', rfl, hcut⟩
  · exact Or.inl (openMember_cut (fun _ => rfl) hcut)
  · refine Or.inl ?_
    rw [openMember, Tree.printKey, List.append_assoc, readKey_write]
    change (readVariant part' >>= _) = _
    rw [readVariant_cut hcut]
    rfl

theorem openMember_cut_key (hk : key ≠ Variant.tagField) {text : List Char}
    (h : Cut part (Tree.printKey key ++ text))
    (ht : ∀ part', part = Tree.printKey key ++ part' → Cut part' text →
      RunsOut (readInner limit part')) : RunsOut (openMember limit opened part) := by
  rcases h.of_append with hcut | ⟨part', rfl, hcut⟩
  · exact Or.inl (openMember_cut (fun h => absurd h hk) hcut)
  · rw [openMember_printKey hk]
    rcases ht part' rfl hcut with hread | ⟨t, hread⟩
    · rw [hread]
      exact Or.inl rfl
    · rw [hread]
      exact Or.inr ⟨_, rfl⟩

end

/-! ### The pass over an outcome that is cut off -/

section
variable {limit : Nat} {v : Variant} {t : Tree} {part : List Char}

/-- Behind the tag, the member of the payload or the closing brace runs out of text. -/
theorem foldRest_cut_payload (hd : t.DoubleFree) (hn : t.depth ≤ 126)
    (h : Cut part (',' :: (Tree.printKey v.payloadField ++ (t.print ++ ['\x7d']))))
    (hl : part.length ≤ limit) (n : Nat) :
    foldRest '\x7d' (openMember limit) n ⟨some v, []⟩ part = .error (.malformed .endOfInput) := by
  have hk : v.payloadField ≠ Variant.tagField := payloadField_ne_tagField v
  cases h with
  | here => exact foldRest_nil n _
  | later _ h =>
      rw [List.length_cons] at hl
      rw [← List.append_assoc] at h
      rw [foldRest_comma _ _ _ (by decide)]
      refine foldSeparated_cut h (fun hcut => openMember_cut_key hk hcut ?_) ?_ n
      · rintro part' rfl hcut'
        rw [List.length_append] at hl
        exact readTree_cut limit hd hn hcut' (by omega)
      · rintro part' rfl hcut
        obtain rfl := hcut.eq_nil
        simp only [List.length_append] at hl
        have hread : readInner limit (t.print ++ []) = .ok (t, []) :=
          (readTree_print limit hd (by omega) 126 endsNumber_nil).trans (if_pos hn)
        refine ⟨Opened.takeOther ⟨some v, []⟩ v.payloadField t, ?_, fun n => foldRest_nil n _⟩
        rw [List.append_assoc, openMember_printKey hk, hread]
        rfl

/-- **The pass over an outcome that is cut off.**  It runs out of text, wherever the cut is. -/
theorem readTagged_cut (hd : t.DoubleFree) (hn : t.depth ≤ 126)
    (h : Cut part (outcomeTree v t).print) (hl : part.length ≤ limit) :
    readTagged limit part = .error (.malformed .endOfInput) := by
  rw [print_outcomeTree, ← List.append_assoc] at h
  cases h with
  | here => rfl
  | @later _ part _ h =>
      rw [List.length_cons] at hl
      have hends : ∀ text, EndsNumber (',' :: text) := endsNumber_cons rfl
      have hfold : foldElements '\x7d' (openMember limit) limit .empty part =
          .error (.malformed .endOfInput) := by
        refine foldElements_cut rfl (by decide) h ?_
        refine foldSeparated_cut h openMember_cut_tag ?_ limit
        rintro part' rfl hcut
        rw [List.length_append] at hl
        refine ⟨⟨some v, []⟩, ?_, foldRest_cut_payload hd hn hcut (by omega)⟩
        rw [List.append_assoc, openMember_printTag v (hcut.endsNumber (hends _))]
      rw [readTagged, dropBlanks_cons rfl]
      change (foldElements '\x7d' (openMember limit) limit .empty part >>= _) = _
      rw [hfold]
      rfl

end

section
variable {α β : Type} {values : Codec α} {reasons : Codec β}

/-- What is left of the text of a variant with a payload. -/
theorem readOutcome_cut {v : Variant} {t : Tree} (hd : t.DoubleFree) (hn : t.depth ≤ 126)
    {part rest : String} (hrest : rest ≠ "") (h : part ++ rest = (outcomeTree v t).text) :
    readOutcome values reasons part = .error (.malformed .endOfInput) := by
  have hne : rest.toList ≠ [] := fun he => hrest (String.toList_eq_nil_iff.mp he)
  have hcut : Cut part.toList (outcomeTree v t).print := by
    rw [← String.toList_ofList (l := (outcomeTree v t).print), ← Tree.text, ← h,
      String.toList_append]
    exact cut_append_of_ne_nil hne part.toList
  rw [readOutcome, readTagged_cut hd hn hcut (Nat.le_refl _)]
  rfl

end

/-- The text of an outcome whose untyped form has no double and at most 127 levels is that of its
tag and a tree with a level less, from which its payload is decoded. -/
theorem wire_eq_text (S E : Shape) {o : Outcome S.Carrier E.Carrier}
    (hd : ((Codec.outcome S.codec E.codec).untyped o).tree.DoubleFree)
    (hn : ((Codec.outcome S.codec E.codec).untyped o).tree.depth ≤ 127) :
    ∃ t, (Codec.outcome S.codec E.codec).wire o = (outcomeTree o.variant t).text ∧
      t.DoubleFree ∧ t.depth ≤ 126 ∧ HasPayload S.codec E.codec o.variant [t] o := by
  have hkeys := (S.codec_lawful.outcome E.codec_lawful).distinctKeys o
  obtain ⟨t, he, hp⟩ := encode_eq_outcomeTree S.codec_lawful E.codec_lawful o
  have hfree := Tree.DoubleFree.of_normalize hkeys hd
  have hdepth := Tree.depth_normalize hkeys
  rw [he] at hfree
  rw [he, depth_outcomeTree] at hdepth
  rw [Codec.untyped, Value.ofTree, he, hdepth] at hn
  exact ⟨t, congrArg Tree.text he, hfree.2.1, Nat.le_of_succ_le_succ hn, hp⟩

/-- **Truncated texts.**  For payloads of every shape: if an outcome has no doubles and at most 127
levels, then whatever is left of its text when the end is missing is refused, because it ends too
early.  So its text does not go on that of another such outcome. -/
theorem readOutcome_truncated (S E : Shape) {o : Outcome S.Carrier E.Carrier}
    (hd : ((Codec.outcome S.codec E.codec).untyped o).tree.DoubleFree)
    (hn : ((Codec.outcome S.codec E.codec).untyped o).tree.depth ≤ 127) :
    (∀ part rest : String, rest ≠ "" → part ++ rest = (Codec.outcome S.codec E.codec).wire o →
      readOutcome S.codec E.codec part = .error (.malformed .endOfInput)) ∧
    ∀ (o' : Outcome S.Carrier E.Carrier) (rest : String),
      ((Codec.outcome S.codec E.codec).untyped o').tree.DoubleFree →
      ((Codec.outcome S.codec E.codec).untyped o').tree.depth ≤ 127 →
      (Codec.outcome S.codec E.codec).wire o' ++ rest = (Codec.outcome S.codec E.codec).wire o →
        rest = "" := by
  obtain ⟨t, hwire, hfree, hdepth, -⟩ := wire_eq_text S E hd hn
  rw [hwire]
  refine ⟨fun part rest hrest h => readOutcome_cut hfree hdepth hrest h, ?_⟩
  intro o' rest hd' hn' h
  obtain ⟨t', hwire', hfree', hdepth', hp⟩ := wire_eq_text S E hd' hn'
  rw [hwire'] at h
  by_contra hrest
  -- the shorter text would be decoded, and run out of text
  have hread : readOutcome S.codec E.codec (outcomeTree o'.variant t').text = .ok o' :=
    (readOutcome_print hfree' hp).trans (if_pos hdepth')
  rw [readOutcome_cut hfree hdepth hrest h] at hread
  cases hread

/-- Cut off inside an escape of its payload, and behind all of it. -/
theorem readOutcome_truncated_lineFeed :
    readOutcome Shape.string.codec Shape.u8.codec "\x7b\"tag\":\"ok\",\"value\":\"\\" =
        .error (.malformed .endOfInput) ∧
      readOutcome Shape.string.codec Shape.u8.codec "\x7b\"tag\":\"ok\",\"value\":\"\\n\"" =
        .error (.malformed .endOfInput) := by
  have htree : ((Codec.outcome Shape.string.codec Shape.u8.codec).untyped (.ok "\n")).tree =
      outcomeTree .ok (.string "\n") := Tree.normalize_of_canonical
    ⟨List.pairwise_pair.mpr (by decide : Variant.tagField < Variant.ok.payloadField), trivial,
      trivial, trivial⟩
  have hspec := (readOutcome_truncated .string .u8 (o := .ok "\n")
    (htree ▸ ⟨trivial, trivial, trivial⟩)
    (by rw [htree, depth_outcomeTree]; exact Nat.le_add_left 1 126)).1
  exact ⟨hspec _ "n\"\x7d" (by decide) rfl, hspec _ "\x7d" (by decide) rfl⟩

end Intake.Wire
