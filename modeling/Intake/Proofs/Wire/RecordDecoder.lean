import Intake.Proofs.Json.Skip
import Intake.Proofs.Wire.Ambiguity

/-!
# Records from text and from values

A record is decoded from a text in one pass, which decodes the fields where it meets them and passes
over all other members.  Decoding the untyped value of the text gives the same record, except where
a name is repeated: the value has kept the last of what stood under it, and the pass refuses the
second.

The fields of the records at hand are plain: their values are scalars, which have only one form.  So
it is enough to know how many trees stand under the name of a field.

* `Record.Plain`: records of two plain fields.
* `Record.Plain.takesInOf_readMember`: the step of the pass, on a member that can be read.
* `Record.Plain.readRecord_eq_ok`, `Record.Plain.readRecord_object`: the pass, told by the tree in
  the text.
* `Record.Plain.decodeMembers_iff`: an object and its normal form.
* `Record.decodeMembers_own`: the members for no field.
* `readRecord_agrees`: the two decoders, for locations and source files.
-/

namespace Intake.Wire
open Intake.Json
open Intake.Json.Tree (under occurrences normalizeMembers)

variable {ρ α β : Type}

/-! ### Plain fields -/

/-- The values of a field are scalars, and where none stands, the field's type is what is missed. -/
def Field.Plain (field : Field α) : Prop :=
  ∀ t : Tree, ¬ t.IsScalar → field.codec.decode .direct t = Codec.refuse t field.expected

/-- Both fields of a record are plain, and differ in name. -/
structure Record.Plain (record : Record ρ α β) : Prop where
  names : record.first.name ≠ record.second.name
  first : record.first.Plain
  second : record.second.Plain

theorem Record.coordinate_plain (name : String) : (Record.coordinate name).Plain := by
  intro t ht
  cases t with
  | array _ | object _ => rfl
  | null | boolean _ | number _ | string _ => exact absurd trivial ht

theorem Record.stringField_plain (name : String) : (Record.stringField name).Plain := by
  intro t ht
  cases t with
  | array _ | object _ => rfl
  | null | boolean _ | number _ | string _ => exact absurd trivial ht

theorem Record.location_plain : Record.location.Plain :=
  ⟨by decide, coordinate_plain _, coordinate_plain _⟩

theorem Record.sourceFile_plain : Record.sourceFile.Plain :=
  ⟨by decide, stringField_plain _, stringField_plain _⟩

/-- A plain field need not care about normal forms. -/
theorem Field.Plain.decode_normalize {field : Field α} (h : field.Plain) (t : Tree) :
    field.codec.decode .direct t.normalize = field.codec.decode .direct t := by
  by_cases ht : t.IsScalar
  · rw [Tree.normalize_of_isScalar ht]
  · rw [h t ht, h _ (mt Tree.isScalar_of_normalize ht)]
    cases t with
    | array _ | object _ => rfl
    | null | boolean _ | number _ | string _ => exact absurd trivial ht

section
variable {limit budget : Nat} {text rest : List Char} {t : Tree}

/-- **In place.**  Where a tree stands, a plain field is decoded from it. -/
theorem Field.Plain.read_of_readTree {field : Field α} (h : field.Plain)
    (ht : readTree limit budget text = .ok (t, rest)) :
    field.read text =
      (field.codec.decode .direct t).mapError .rejected >>= fun a => .ok (a, rest) := by
  rw [Field.read, readInPlace]
  cases treeAt_of_readTree ht with
  | scalar hi hm hs =>
      split
      next hd => exact absurd hd (hi _)
      next hd => exact absurd hd (hm _)
      next =>
        rw [liftM_bind_of_ok hs]
        rfl
  | array hd he =>
      rw [hd, h _ id]
      rfl
  | object hd he =>
      rw [hd, h _ id]
      rfl

theorem Field.Plain.isScalar_of_decode {field : Field α} (h : field.Plain) {a : α}
    (ha : field.codec.decode .direct t = .ok a) : t.IsScalar := by
  by_contra hscalar
  rw [h t hscalar] at ha
  cases ha

/-- What is decoded in place is a scalar, and can be read and passed over as any tree can. -/
theorem Field.Plain.exists_tree_of_read {field : Field α} (h : field.Plain) {a : α}
    (hread : field.read text = .ok (a, rest)) (limit budget : Nat) :
    ∃ t, readTree limit (budget + 1) text = .ok (t, rest) ∧
      field.codec.decode .direct t = .ok a ∧ skipTree limit budget text = .ok rest := by
  obtain ⟨t, ht, ha⟩ := (readInPlace_eq_ok h.isScalar_of_decode).mp hread
  have hdepth := Tree.depth_of_isScalar (h.isScalar_of_decode ha)
  exact ⟨t, ht, ha, skipTree_of_readTree ht (hdepth ▸ Nat.zero_le budget)⟩

/-! ### Objects -/

variable {record : Record ρ α β}

/-- A member that was met before is refused, whatever stands under its key. -/
theorem Field.Plain.readMember_of_readTree {field : Field α} (h : field.Plain) {text₁ : List Char}
    (hcolon : readColon text₁ = .ok text) (ht : readTree limit budget text = .ok (t, rest))
    (seen : Option α) :
    field.readMember seen text₁ =
      (Record.refuseSecond field.name seen (field.codec.decode .direct t)).mapError .rejected >>=
        fun a => .ok (some a, rest) := by
  cases seen with
  | some _ => rfl
  | none =>
      rw [Field.readMember, liftM_bind_of_ok hcolon, h.read_of_readTree ht, Record.refuseSecond]
      cases field.codec.decode .direct t with
      | error e => rfl
      | ok a => rfl

theorem Record.refuseSecond_bind {γ δ δ' : Type} {name : String} {seen : Option γ}
    {x : Except Complaint δ} {f : δ → Except Complaint δ'} :
    Record.refuseSecond name seen (x >>= f) = Record.refuseSecond name seen x >>= f := by
  cases seen with
  | none => rfl
  | some _ => rfl

/-- **One member.**  A member that was read is taken in, or passed over if it is for no field. -/
theorem Record.Plain.takesInOf_readMember (h : record.Plain) {members : List (String × Tree)}
    (hd : ∀ m ∈ members, m.2.depth ≤ limit) :
    TakesInOf members (Json.readMember (readTree limit budget))
      (fun seen m => (record.takeMember .direct seen m).mapError .rejected)
      (record.readMember limit) := by
  rintro seen text ⟨key, t⟩ rest hmem hm
  obtain ⟨text₁, text₂, hkey, hcolon, ht⟩ := readMember_eq_ok.mp hm
  rw [Record.readMember, liftM_bind_of_ok hkey]
  dsimp only [Record.takeMember]
  split
  next hf =>
    rw [h.first.readMember_of_readTree hcolon ht, hf, Record.refuseSecond_bind, mapError_bind,
      bind_assoc, bind_assoc]
    rfl
  next hf =>
    split
    next hs =>
      rw [h.second.readMember_of_readTree hcolon ht, hs, Record.refuseSecond_bind, mapError_bind,
        bind_assoc, bind_assoc]
      rfl
    next hs =>
      rw [liftM_bind_of_ok hcolon, liftM_bind_of_ok (skipTree_of_readTree ht (hd _ hmem))]
      rfl

/-- **Objects.**  The members are decoded as those of a tree. -/
theorem Record.Plain.read_object (h : record.Plain) {tail : List Char}
    {members : List (String × Tree)} (hb : dropBlanks text = '\x7b' :: tail)
    (he : Elements '\x7d' (Json.readMember (readTree limit budget)) limit tail members rest)
    (hd : ∀ m ∈ members, m.2.depth ≤ limit) :
    record.read limit text =
      (record.decodeMembers .direct members).mapError .rejected >>= fun r => .ok (r, rest) := by
  have hread : record.read limit text =
      foldElements '\x7d' (record.readMember limit) limit (none, none) tail >>= fun p =>
        (record.finish p.1).mapError .rejected >>= fun r => .ok (r, p.2) := by
    rw [Record.read, hb]
    rfl
  rw [hread, foldElements_of_elements he (h.takesInOf_readMember hd), ← mapError_foldlM,
    Record.decodeMembers, mapError_bind, bind_assoc, bind_assoc]
  rfl

/-! ### Arrays -/

/-- **Arrays.**  The text ends behind the second item exactly if there is no third one. -/
theorem Record.Plain.readItems_eq_ok (h : record.Plain) {items : List Tree}
    (he : Elements ']' (readTree limit budget) limit text items rest) {p : ρ × List Char} :
    record.readItems text = .ok p ↔
      ∃ r, record.decodeItems .direct items = .ok r ∧ (r, rest) = p := by
  rcases he with ⟨hd, rfl⟩ | ⟨⟨c, tail, hd, hne⟩, hs⟩
  · simp [Record.readItems, Record.decodeItems, Record.readPresent, hd]
  -- the first item, and the second one if there is one
  cases hs with
  | last ht hs =>
      simp [Record.readItems, Record.decodeItems, Record.readPresent, hd, hne,
        h.first.read_of_readTree ht, hs]
  | more ht hs hmore =>
      cases hmore with
      | last ht' hs' =>
          simp [Record.readItems, Record.decodeItems, Record.readPresent, hd, hne,
            h.first.read_of_readTree ht, hs, h.second.read_of_readTree ht', hs']
      | more ht' hs' hmore =>
          simp [Record.readItems, Record.decodeItems, Record.readPresent, hd, hne,
            h.first.read_of_readTree ht, hs, h.second.read_of_readTree ht', hs', hmore.ne_nil]

/-! ### Whole texts -/

/-- **The record at the start of a text.**  It is that of the tree there. -/
theorem Record.Plain.read_eq_ok (h : record.Plain)
    (ht : readTree limit nestingLimit text = .ok (t, rest)) (hd : t.depth ≤ limit)
    {p : ρ × List Char} :
    record.read limit text = .ok p ↔
      ∃ r, record.codec.decode .direct t = .ok r ∧ (r, rest) = p := by
  cases treeAt_of_readTree ht with
  | scalar hi hm hs =>
      rw [Record.read]
      split
      next hb => exact absurd hb (hm _)
      next hb => exact absurd hb (hi _)
      next =>
        refine ⟨fun h => (refuseScalar_ne_ok h).elim, ?_⟩
        rintro ⟨r, hr, -⟩
        have hscalar := isScalar_of_readScalar hs
        cases t with
        | array _ | object _ => exact hscalar.elim
        | null | boolean _ | number _ | string _ => cases hr
  | @array _ tail _ hb he =>
      have hread : record.read limit text = record.readItems tail := by
        rw [Record.read, hb]
        rfl
      rw [hread]
      exact h.readItems_eq_ok he
  | @object _ _ members hb he =>
      have hmembers : ∀ m ∈ members, m.2.depth ≤ limit :=
        Tree.depthMembers_le_iff.mp (Nat.le_of_succ_le hd)
      rw [h.read_object hb he hmembers, bind_eq_ok]
      simp only [mapError_eq_ok, Except.ok.injEq]
      rfl

end

section
variable {record : Record ρ α β} {text : String} {t : Tree} {members : List (String × Tree)}

/-- **The record of a whole text.**  It is that of the tree in the text. -/
theorem Record.Plain.readRecord_eq_ok (h : record.Plain) (ht : Tree.read text = .ok t) {r : ρ} :
    readRecord record text = .ok r ↔ record.codec.decode .direct t = .ok r := by
  obtain ⟨rest, htree, hend⟩ := Tree.read_eq_ok.mp ht
  have hdepth : t.depth ≤ text.toList.length :=
    Nat.le_of_add_right_le (depth_add_length_le _ _ htree)
  rw [readRecord, bind_eq_ok]
  constructor
  · rintro ⟨⟨r', rest'⟩, hread, hr⟩
    obtain ⟨r'', hdecode, hp⟩ := (h.read_eq_ok htree hdepth).mp hread
    cases hp
    obtain ⟨_, -, hr⟩ := bind_eq_ok.mp hr
    cases hr
    exact hdecode
  · intro hdecode
    exact ⟨(r, rest), (h.read_eq_ok htree hdepth).mpr ⟨r, hdecode, rfl⟩,
      bind_eq_ok.mpr ⟨(), LiftsFaults.liftM_eq_ok.mpr hend, rfl⟩⟩

/-- **The object of a whole text.**  What is wrong with it is what is wrong with its members. -/
theorem Record.Plain.readRecord_object (h : record.Plain)
    (ht : Tree.read text = .ok (.object members)) :
    readRecord record text = (record.decodeMembers .direct members).mapError .rejected := by
  obtain ⟨rest, htree, hend⟩ := Tree.read_eq_ok.mp ht
  have hdepth : (Tree.object members).depth ≤ text.toList.length :=
    Nat.le_of_add_right_le (depth_add_length_le _ _ htree)
  cases treeAt_of_readTree htree with
  | scalar _ _ hs => exact (isScalar_of_readScalar hs).elim
  | object hb he =>
      have hmembers : ∀ m ∈ members, m.2.depth ≤ text.toList.length :=
        Tree.depthMembers_le_iff.mp (Nat.le_of_succ_le hdepth)
      rw [readRecord, h.read_object hb he hmembers]
      cases record.decodeMembers .direct members with
      | error e => rfl
      | ok r =>
          rw [ok_mapError, ok_bind, ok_bind]
          dsimp only
          rw [liftM_bind_of_ok hend]
          rfl

end

/-! ### Normal forms -/

section
variable {record : Record ρ α β} {members : List (String × Tree)}

/-- The normal form has kept one tree under the name of a field.  It was the only one, unless the
name is repeated. -/
theorem Field.Plain.exists_under_iff {field : Field α} (h : field.Plain)
    (members : List (String × Tree)) {a : α} :
    (∃ t, under field.name members = [t] ∧ field.codec.decode .direct t = .ok a) ↔
      (∃ t, under field.name (normalizeMembers members) = [t] ∧
        field.codec.decode .direct t = .ok a) ∧ ¬ 2 ≤ occurrences field.name members := by
  rw [Tree.under_normalizeMembers, Tree.occurrences_eq_length_under]
  match under field.name members with
  | [] => simp
  | [t] => simp [h.decode_normalize]
  | t :: u :: ts => simp

theorem Record.form_object_iff {setting : Setting} {r : ρ} :
    record.Form setting (.object members) r ↔
      ∃ a b, (∃ t, under record.first.name members = [t] ∧
          record.first.codec.decode setting t = .ok a) ∧
        (∃ u, under record.second.name members = [u] ∧
          record.second.codec.decode setting u = .ok b) ∧ record.make a b = r := by
  constructor
  · intro h
    cases h with
    | object ht hu ha hb => exact ⟨_, _, ⟨_, ht, ha⟩, ⟨_, hu, hb⟩, rfl⟩
  · rintro ⟨a, b, ⟨t, ht, ha⟩, ⟨u, hu, hb⟩, rfl⟩
    exact .object ht hu ha hb

/-- **Objects and their normal forms.** -/
theorem Record.Plain.decodeMembers_iff (h : record.Plain) {r : ρ} :
    record.decodeMembers .direct members = .ok r ↔
      record.decodeMembers .direct (normalizeMembers members) = .ok r ∧
        ¬ (2 ≤ occurrences record.first.name members ∨
          2 ≤ occurrences record.second.name members) := by
  rw [Record.decodeMembers_eq_ok h.names, Record.decodeMembers_eq_ok h.names,
    Record.form_object_iff, Record.form_object_iff, not_or]
  simp only [h.first.exists_under_iff members, h.second.exists_under_iff members]
  constructor
  · rintro ⟨a, b, ⟨ha, hfirst⟩, ⟨hb, hsecond⟩, rfl⟩
    exact ⟨⟨a, b, ha, hb, rfl⟩, hfirst, hsecond⟩
  · rintro ⟨⟨a, b, ha, hb, rfl⟩, hfirst, hsecond⟩
    exact ⟨a, b, ⟨ha, hfirst⟩, ⟨hb, hsecond⟩, rfl⟩

/-- **Arrays and their normal forms.** -/
theorem Record.Plain.decodeItems_normalizeItems (h : record.Plain) (items : List Tree) :
    record.decodeItems .direct (Tree.normalizeItems items) = record.decodeItems .direct items := by
  match items with
  | [] => rfl
  | [t] => simp [Tree.normalizeItems, Record.decodeItems, h.first.decode_normalize]
  | t :: u :: more =>
      simp [Tree.normalizeItems, Record.decodeItems, h.first.decode_normalize,
        h.second.decode_normalize, Tree.normalizeItems_eq_map]

end

/-! ### The members of a record's own -/

section
variable {record : Record ρ α β}

/-- The members under the names of the two fields. -/
def Record.own (record : Record ρ α β) (members : List (String × Tree)) : List (String × Tree) :=
  Tree.withKeys (fun key => key = record.first.name ∨ key = record.second.name) members

/-- **Members for no field.**  They may be left out. -/
theorem Record.decodeMembers_own (setting : Setting) (members : List (String × Tree)) :
    record.decodeMembers setting (record.own members) = record.decodeMembers setting members := by
  have htake : (fun seen m =>
      if decide (m.1 = record.first.name ∨ m.1 = record.second.name) = true then
        record.takeMember setting seen m else pure seen) = record.takeMember setting := by
    funext seen ⟨key, t⟩
    by_cases hf : key = record.first.name
    · simp [hf]
    by_cases hs : key = record.second.name
    · simp [hs]
    simp [Record.takeMember, hf, hs, pure, Except.pure]
  rw [Record.decodeMembers, Record.own, Tree.withKeys, List.foldlM_filter, htake,
    Record.decodeMembers]

theorem Record.ofValue_object_own (members : List (String × Tree)) :
    record.codec.ofValue (.ofTree (.object members)) =
      record.decodeMembers .direct (normalizeMembers (record.own members)) := by
  rw [Record.own, ← Tree.withKeys_normalizeMembers]
  exact (Record.decodeMembers_own .direct _).symm

end

/-! ### The two decoders -/

section
variable {record : Record ρ α β} {text : String} {v : Value}

/-- The text is that of an object that has one of the record's names more than once. -/
def Record.Repeats (record : Record ρ α β) (text : String) : Prop :=
  ∃ members, Tree.read text = .ok (.object members) ∧
    (2 ≤ occurrences record.first.name members ∨ 2 ≤ occurrences record.second.name members)

/-- How the decoders of a record type deal with a text and its value. -/
structure Record.Agrees (record : Record ρ α β) (text : String) (v : Value) : Prop where
  /-- What is decoded from the text is what is decoded from the value, unless a name is repeated. -/
  decoded : ∀ r, readRecord record text = .ok r ↔
    record.codec.ofValue v = .ok r ∧ ¬ record.Repeats text
  /-- The members under other names make no difference, be it to a record or to a refusal. -/
  others : ∀ members text' members', Tree.read text = .ok (.object members) →
    Tree.read text' = .ok (.object members') → record.own members = record.own members' →
      readRecord record text = readRecord record text' ∧
        record.codec.ofValue v = record.codec.ofValue (.ofTree (.object members'))

theorem Record.Plain.readRecord_iff_ofValue (h : record.Plain) (hv : Value.read text = .ok v)
    {r : ρ} :
    readRecord record text = .ok r ↔ record.codec.ofValue v = .ok r ∧ ¬ record.Repeats text := by
  obtain ⟨t, ht, rfl⟩ := Value.read_eq_ok.mp hv
  rw [h.readRecord_eq_ok ht]
  have hrepeats : record.Repeats text ↔ ∃ members, t = .object members ∧
      (2 ≤ occurrences record.first.name members ∨
        2 ≤ occurrences record.second.name members) := by
    simp only [Record.Repeats, ht, Except.ok.injEq]
  rw [hrepeats]
  cases t with
  | object members =>
      simp only [Tree.object.injEq, exists_eq_left']
      exact h.decodeMembers_iff
  | array items =>
      have hitems : record.codec.ofValue (.ofTree (.array items)) =
          record.codec.decode .direct (.array items) := h.decodeItems_normalizeItems items
      rw [hitems]
      exact (and_iff_left nofun).symm
  | null | boolean _ | number _ | string _ => exact (and_iff_left nofun).symm

theorem Record.Plain.agrees (h : record.Plain) (hv : Value.read text = .ok v) :
    record.Agrees text v where
  decoded _ := h.readRecord_iff_ofValue hv
  others members text' members' ht ht' hown := by
    obtain ⟨t, htree, rfl⟩ := Value.read_eq_ok.mp hv
    cases ht.symm.trans htree
    rw [h.readRecord_object ht, h.readRecord_object ht', ← Record.decodeMembers_own,
      ← Record.decodeMembers_own .direct members', hown, Record.ofValue_object_own,
      Record.ofValue_object_own, hown]
    exact ⟨rfl, rfl⟩

end

/-- **The two decoders of records agree.**  For locations and source files: from a text that has a
value, the text decoder gives what the decoder of values gives, except that it refuses an object
with one of the record's own names more than once; and members under other names, however many there
are, wherever they stand and whatever they hold, make no difference to either. -/
theorem readRecord_agrees {text : String} {v : Value} (hv : Value.read text = .ok v) :
    Record.location.Agrees text v ∧ Record.sourceFile.Agrees text v :=
  ⟨Record.location_plain.agrees hv, Record.sourceFile_plain.agrees hv⟩

/-! ### A location among other members, the same alone, and with a name repeated -/

/-- A location among members that are passed over; one of them has a name of the record inside. -/
def crowded : String :=
  "\x7b\"x\":[1,\x7b\"column\":9\x7d],\"column\":3,\"line_number\":2,\"x\":null\x7d"

/-- The members of `crowded`. -/
def crowdedMembers : List (String × Tree) :=
  [("x", .array [.number (.natural 1), .object [("column", .number (.natural 9))]]),
    ("column", .number (.natural 3)), ("line_number", .number (.natural 2)), ("x", .null)]

/-- The members of the location alone, in the same order. -/
def alone : String := "\x7b\"column\":3,\"line_number\":2\x7d"

/-- The members of `alone`. -/
def aloneMembers : List (String × Tree) :=
  [("column", .number (.natural 3)), ("line_number", .number (.natural 2))]

/-- The column twice, with the same number. -/
def repeated : String := "\x7b\"column\":3,\"column\":3,\"line_number\":2\x7d"

/-- The members of `repeated`. -/
def repeatedMembers : List (String × Tree) :=
  [("column", .number (.natural 3)), ("column", .number (.natural 3)),
    ("line_number", .number (.natural 2))]

/-- The location is decoded from both texts, and the repeated column is refused although the value
is that of a location. -/
theorem readRecord_agrees_crowded :
    readRecord Record.location crowded = .ok ⟨2, 3⟩ ∧
      readRecord Record.location alone = .ok ⟨2, 3⟩ ∧
      readRecord Record.location repeated ≠ .ok ⟨2, 3⟩ := by
  have hcrowded : Tree.read crowded = .ok (.object crowdedMembers) := rfl
  have halone : Tree.read alone = .ok (.object aloneMembers) := rfl
  have hrepeated : Tree.read repeated = .ok (.object repeatedMembers) := rfl
  have hspec := (readRecord_agrees (Value.read_eq_ok.mpr ⟨_, hcrowded, rfl⟩)).1
  have hsame := (hspec.others _ _ _ hcrowded halone rfl).1
  have hread : readRecord Record.location crowded = .ok ⟨2, 3⟩ := by
    refine (hspec.decoded _).mpr ⟨rfl, ?_⟩
    rintro ⟨members, hmembers, htwice⟩
    cases hcrowded.symm.trans hmembers
    revert htwice
    decide
  refine ⟨hread, hsame ▸ hread, fun h => ?_⟩
  have hrefused := (readRecord_agrees (Value.read_eq_ok.mpr ⟨_, hrepeated, rfl⟩)).1
  exact ((hrefused.decoded _).mp h).2 ⟨_, hrepeated, Or.inr (by decide)⟩

end Intake.Wire
