import Intake.Proofs.Json.RoundTrip
import Intake.Proofs.Wire.TextDecoder

/-!
# Outcomes through their texts

The text of an outcome is decoded as that outcome if the text is nested at most 127 levels deep,
and is a fault of syntax otherwise.  The pass of the decoder is followed over the text that the
encoder writes, tag first: the tag is accepted where it stands, and the payload is one tree whose
budget is a level less than that of the text.

* `openMember_printTag`, `openMember_printKey`: the pass at the two members that the encoder writes.
* `readOutcome_print`: the round trip for any tree in the place of the payload.
* `readOutcome_wire`: the round trip for payloads of every shape.
-/

namespace Intake.Wire
open Intake.Json

/-! ### The two members -/

section
variable {limit : Nat}

/-- The written tag is accepted where it stands. -/
theorem openMember_printTag (v : Variant) {rest : List Char} (hr : EndsNumber rest) :
    openMember limit .empty
        (Tree.printKey Variant.tagField ++ ((Tree.string v.tag).print ++ rest)) =
      .ok (⟨some v, []⟩, rest) := by
  have hread : readInner limit ((Tree.string v.tag).print ++ rest) = .ok (.string v.tag, rest) :=
    readTree_print_scalar (t := .string v.tag) trivial nofun nofun limit _ hr
  have hkey := readKey_write Variant.tagField (':' :: ((Tree.string v.tag).print ++ rest))
  rw [Tree.printKey, List.append_assoc]
  refine (takesIn_openMember ..).mpr ⟨(Variant.tagField, .string v.tag), ?_, ?_⟩
  · exact readMember_eq_ok.mpr ⟨_, _, hkey, rfl, hread⟩
  · exact take_tag_eq_ok.mpr ⟨rfl, v, decodeVariant_tag .direct v, rfl⟩

/-- Behind any other written key, a tree is read and set aside. -/
theorem openMember_printKey {key : String} (hk : key ≠ Variant.tagField) (opened : Opened)
    (text : List Char) :
    openMember limit opened (Tree.printKey key ++ text) =
      (readInner limit text).mapError .malformed >>= fun p =>
        .ok (opened.takeOther key p.1, p.2) := by
  rw [openMember, Tree.printKey, List.append_assoc, readKey_write]
  change (if key = Variant.tagField then _ else _) = _
  rw [if_neg hk]
  rfl

end

/-! ### The pass over a written outcome -/

/-- The object that the encoder writes for a variant with a payload. -/
def outcomeTree (v : Variant) (t : Tree) : Tree :=
  .object [(Variant.tagField, .string v.tag), (v.payloadField, t)]

theorem depth_outcomeTree (v : Variant) (t : Tree) : (outcomeTree v t).depth = t.depth + 1 := by
  simp [outcomeTree, Tree.depth, Tree.depthMembers]

theorem print_outcomeTree (v : Variant) (t : Tree) :
    (outcomeTree v t).print =
      '\x7b' :: (Tree.printKey Variant.tagField ++ ((Tree.string v.tag).print ++
        ',' :: (Tree.printKey v.payloadField ++ (t.print ++ ['\x7d'])))) := by
  simp [outcomeTree, Tree.print, Tree.printMembers]

/-- **The pass over a written outcome.**  The payload may have one level less than the text. -/
theorem readTagged_print (v : Variant) {t : Tree} (hd : t.DoubleFree) {limit : Nat}
    (hl : (outcomeTree v t).print.length ≤ limit) :
    readTagged limit (outcomeTree v t).print =
      if t.depth ≤ 126 then .ok ((v, .members [(v.payloadField, t)]), [])
      else .error (.malformed .badSyntax) := by
  rw [print_outcomeTree] at hl ⊢
  simp only [List.length_cons, List.length_append] at hl
  obtain ⟨n, rfl⟩ : ∃ n, limit = n + 2 := ⟨limit - 2, by omega⟩
  have hend : ∀ text, EndsNumber (',' :: text) := endsNumber_cons rfl
  have hbrace : EndsNumber ['\x7d'] := endsNumber_cons rfl _
  have hinner : readInner (n + 2) (t.print ++ ['\x7d']) =
      if t.depth ≤ 126 then .ok (t, ['\x7d']) else .error .badSyntax :=
    readTree_print (n + 2) hd (by omega) 126 hbrace
  have hsecond : openMember (n + 2) ⟨some v, []⟩
      (Tree.printKey v.payloadField ++ (t.print ++ ['\x7d'])) = _ :=
    openMember_printKey (payloadField_ne_tagField v) ⟨some v, []⟩ (t.print ++ ['\x7d'])
  rw [hinner] at hsecond
  have hfold : ∀ text, foldElements '\x7d' (openMember (n + 2)) (n + 2) .empty
      (Tree.printKey Variant.tagField ++ text) = foldSeparated '\x7d' (openMember (n + 2)) (n + 2)
        .empty (Tree.printKey Variant.tagField ++ text) := fun _ =>
    foldElements_cons (c := '"') _ _ _ rfl (by decide) _
  rw [readTagged, dropBlanks_cons rfl]
  simp only [hfold, foldSeparated_succ, openMember_printTag v (hend _), ok_bind,
    foldRest_comma _ _ _ (by decide : '\x7d' ≠ ','), hsecond]
  by_cases ht : t.depth ≤ 126
  · have hclose : foldRest '\x7d' (openMember (n + 2)) n
        (Opened.takeOther ⟨some v, []⟩ v.payloadField t) ['\x7d'] =
          .ok (⟨some v, [(v.payloadField, t)]⟩, []) := foldRest_closing _ n _ rfl []
    simp only [if_pos ht, Except.mapError, ok_bind, hclose]
    rfl
  · simp only [if_neg ht]
    rfl

section
variable {α β : Type} {values : Codec α} {reasons : Codec β}

/-- The text of an outcome whose payload is decoded from a tree, for any tree without doubles. -/
theorem readOutcome_print {v : Variant} {t : Tree} {o : Outcome α β} (hd : t.DoubleFree)
    (hp : HasPayload values reasons v [t] o) :
    readOutcome values reasons (outcomeTree v t).text =
      if t.depth ≤ 126 then .ok o else .error (.malformed .badSyntax) := by
  have hu : Tree.under v.payloadField [(v.payloadField, t)] = [t] := by simp
  have ho : decodePayload values reasons (v, .members [(v.payloadField, t)]) = .ok o :=
    decodePayload_members_eq_ok.mpr (hu.symm ▸ hp)
  rw [readOutcome, Tree.text, String.toList_ofList, readTagged_print v hd (Nat.le_refl _)]
  by_cases ht : t.depth ≤ 126
  · simp only [if_pos ht, ok_bind, ho]
    rfl
  · simp only [if_neg ht, error_bind]

theorem encode_eq_outcomeTree (hv : values.Lawful) (hr : reasons.Lawful) (o : Outcome α β) :
    ∃ t, (Codec.outcome values reasons).encode o = outcomeTree o.variant t ∧
      HasPayload values reasons o.variant [t] o := by
  cases o with
  | ok a => exact ⟨values.encode a, rfl, .ok (.present (hv.decode_encode .setAside a))⟩
  | failure b => exact ⟨reasons.encode b, rfl, .failure (.present (hr.decode_encode .setAside b))⟩

end

/-- **The round trip through the text, with its limit.**  For payloads of every shape, the text of
an outcome without doubles is decoded as the outcome if its untyped form is nested at most 127
levels deep, and is a fault of syntax otherwise. -/
theorem readOutcome_wire (S E : Shape) (o : Outcome S.Carrier E.Carrier)
    (hd : ((Codec.outcome S.codec E.codec).untyped o).tree.DoubleFree) :
    readOutcome S.codec E.codec ((Codec.outcome S.codec E.codec).wire o) =
      if ((Codec.outcome S.codec E.codec).untyped o).tree.depth ≤ 127 then .ok o
      else .error (.malformed .badSyntax) := by
  have hkeys := (S.codec_lawful.outcome E.codec_lawful).distinctKeys o
  obtain ⟨t, he, hp⟩ := encode_eq_outcomeTree S.codec_lawful E.codec_lawful o
  have hfree := Tree.DoubleFree.of_normalize hkeys hd
  have hdepth := Tree.depth_normalize hkeys
  rw [he] at hfree
  rw [he, depth_outcomeTree] at hdepth
  rw [Codec.wire, Codec.untyped, Value.ofTree, he, hdepth, readOutcome_print hfree.2.1 hp]
  exact if_congr (Nat.add_le_add_iff_right (n := 1)).symm rfl rfl

/-- A word inside as many arrays as a number says. -/
def nested : Nat → Value
  | 0 => ⟨.null, trivial⟩
  | n + 1 => ⟨.array [(nested n).tree], (nested n).canonical, trivial⟩

theorem depth_nested (n : Nat) : (nested n).tree.depth = n := by
  induction n with
  | zero => rfl
  | succ n ih => rw [nested, Tree.depth, Tree.depthItems, Tree.depthItems, ih, Nat.max_zero]

theorem doubleFree_nested (n : Nat) : (nested n).tree.DoubleFree := by
  induction n with
  | zero => trivial
  | succ n ih => exact ⟨ih, trivial⟩

theorem untyped_nested (n : Nat) :
    ((Codec.outcome Codec.value Codec.string).untyped (.ok (nested n))).tree =
      outcomeTree .ok (nested n).tree := by
  have hlt : Variant.tagField < Variant.ok.payloadField := by decide
  exact Tree.normalize_of_canonical
    ⟨List.pairwise_pair.mpr hlt, trivial, (nested n).canonical, trivial⟩

/-- At the limit and one level beyond it. -/
theorem readOutcome_wire_nested :
    readOutcome Codec.value Codec.string
        ((Codec.outcome Codec.value Codec.string).wire (.ok (nested 126))) =
          .ok (.ok (nested 126)) ∧
      readOutcome Codec.value Codec.string
        ((Codec.outcome Codec.value Codec.string).wire (.ok (nested 127))) =
          .error (.malformed .badSyntax) := by
  have hfree : ∀ n, ((Codec.outcome Codec.value Codec.string).untyped
      (.ok (nested n))).tree.DoubleFree := fun n => by
    rw [untyped_nested]
    exact ⟨trivial, doubleFree_nested n, trivial⟩
  have hdepth : ∀ n, ((Codec.outcome Codec.value Codec.string).untyped
      (.ok (nested n))).tree.depth = n + 1 := fun n => by
    rw [untyped_nested, depth_outcomeTree, depth_nested]
  constructor
  · exact (readOutcome_wire .value .string (.ok (nested 126)) (hfree 126)).trans
      (if_pos (Nat.le_of_eq (hdepth 126)))
  · refine (readOutcome_wire .value .string (.ok (nested 127)) (hfree 127)).trans (if_neg ?_)
    rw [Nat.not_le]
    exact Nat.le_of_eq (hdepth 127).symm

end Intake.Wire
