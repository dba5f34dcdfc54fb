import Intake.Proofs.Json.Reader
import Intake.Proofs.Wire.Codec
import Intake.Wire.Text

/-!
# Decoding from text and decoding trees

An outcome is decoded from a text in one pass, with no tree of the whole text in between.  Here the
pass is told apart into reading the tree of the text and decoding that tree: either of the two
gives an outcome exactly if the other does, and then the same one (`readOutcome_eq_ok`).  The two
may differ in what they report, since the pass stops at the first fault of either kind.

The steps of the pass are related to the steps of the two stages (`takesIn_openMember`,
`takesIn_openItem`), and the folds over them by `foldElements_eq_ok`.

* `readInPlace_eq_ok`: reading a scalar in place is reading a tree and decoding it.
* `readTagged_eq_ok`: the tag and the rest of an outcome in a text are those of its tree.
* `readOutcome_eq_ok`: the pass in its two parts.
-/

namespace Intake.Wire
open Intake.Json

instance : LiftsFaults TextError := ⟨mapError_eq_ok⟩

theorem liftM_complaint_eq_ok {α : Type} {x : Except Complaint α} {a : α} :
    (liftM x : Except TextError α) = .ok a ↔ x = .ok a := mapError_eq_ok

section
variable {α : Type} {decode : Tree → Except Complaint α}

/-- **Scalars in place.**  If a decoder takes neither arrays nor objects, decoding in place is
reading a tree, whatever the budget, and decoding it. -/
theorem readInPlace_eq_ok (hd : ∀ {t a}, decode t = .ok a → t.IsScalar) {expected : Expected}
    {limit budget : Nat} {text rest : List Char} {a : α} :
    readInPlace expected decode text = .ok (a, rest) ↔
      ∃ t, readTree limit (budget + 1) text = .ok (t, rest) ∧ decode t = .ok a := by
  rw [readInPlace]
  split
  next tail h =>
    refine ⟨nofun, ?_⟩
    rintro ⟨t, ht, ha⟩
    obtain ⟨items, -, rfl⟩ := (readTree_array_eq_ok h).mp ht
    exact (hd ha).elim
  next tail h =>
    refine ⟨nofun, ?_⟩
    rintro ⟨t, ht, ha⟩
    obtain ⟨members, -, rfl⟩ := (readTree_object_eq_ok h).mp ht
    exact (hd ha).elim
  next hi hm =>
    rw [readTree_scalar hi hm, bind_eq_ok]
    constructor
    · rintro ⟨⟨t, _⟩, ht, h⟩
      obtain ⟨a', ha, h⟩ := bind_eq_ok.mp h
      cases h
      exact ⟨t, LiftsFaults.liftM_eq_ok.mp ht, liftM_complaint_eq_ok.mp ha⟩
    · rintro ⟨t, ht, ha⟩
      exact ⟨_, LiftsFaults.liftM_eq_ok.mpr ht, bind_eq_ok.mpr
        ⟨a, liftM_complaint_eq_ok.mpr ha, rfl⟩⟩

/-- A scalar is refused where an array or an object should stand. -/
theorem refuseScalar_ne_ok {expected : Expected} {text : List Char} {a : α} :
    refuseScalar expected text ≠ .ok a := by
  intro h
  obtain ⟨_, -, h⟩ := bind_eq_ok.mp h
  cases h

end

/-! ### The steps of the pass -/

section
variable {limit : Nat}

theorem readVariant_eq_ok {text rest : List Char} {v : Variant} :
    readVariant text = .ok (v, rest) ↔
      ∃ t, readInner limit text = .ok (t, rest) ∧ decodeVariant .direct t = .ok v :=
  readInPlace_eq_ok isScalar_of_decodeVariant

/-- A member of an outcome is read as any member is, and then taken in. -/
theorem takesIn_openMember :
    TakesIn (readMember (readInner limit)) (Opened.take .direct) (openMember limit) := by
  intro opened text opened' rest
  rw [openMember, Tagged.tagField_eq, bind_eq_ok]
  constructor
  · rintro ⟨⟨key, text₁⟩, hkey, h⟩
    have hkey := LiftsFaults.liftM_eq_ok.mp hkey
    by_cases hk : key = Variant.tagField
    · simp only [hk, if_true] at h
      cases hv : opened.variant with
      | some v => simp [hv] at h
      | none =>
          simp only [hv] at h
          obtain ⟨text₂, hcolon, h⟩ := bind_eq_ok.mp h
          obtain ⟨⟨v, _⟩, hvar, h⟩ := bind_eq_ok.mp h
          cases h
          obtain ⟨t, ht, hd⟩ := readVariant_eq_ok.mp hvar
          refine ⟨(key, t), readMember_eq_ok.mpr ⟨text₁, text₂, hkey,
            LiftsFaults.liftM_eq_ok.mp hcolon, ht⟩, ?_⟩
          rw [Opened.take, Tagged.tagField_eq, if_pos hk]
          exact takeTag_eq_ok.mpr ⟨hv, v, hd, rfl⟩
    · simp only [hk, if_false] at h
      obtain ⟨text₂, hcolon, h⟩ := bind_eq_ok.mp h
      obtain ⟨⟨t, _⟩, ht, h⟩ := bind_eq_ok.mp h
      cases h
      refine ⟨(key, t), readMember_eq_ok.mpr ⟨text₁, text₂, hkey, LiftsFaults.liftM_eq_ok.mp hcolon,
        LiftsFaults.liftM_eq_ok.mp ht⟩, ?_⟩
      rw [Opened.take, Tagged.tagField_eq, if_neg hk]
  · rintro ⟨⟨key, t⟩, hm, h⟩
    obtain ⟨text₁, text₂, hkey, hcolon, ht⟩ := readMember_eq_ok.mp hm
    refine ⟨(key, text₁), LiftsFaults.liftM_eq_ok.mpr hkey, ?_⟩
    rw [Opened.take, Tagged.tagField_eq] at h
    by_cases hk : key = Variant.tagField
    · rw [if_pos hk] at h
      obtain ⟨hv, v, hd, rfl⟩ := takeTag_eq_ok.mp h
      simp only [hk, if_true, hv]
      exact bind_eq_ok.mpr ⟨text₂, LiftsFaults.liftM_eq_ok.mpr hcolon, bind_eq_ok.mpr
        ⟨(v, rest), readVariant_eq_ok.mpr ⟨t, ht, hd⟩, rfl⟩⟩
    · rw [if_neg hk] at h
      cases h
      simp only [hk, if_false]
      exact bind_eq_ok.mpr ⟨text₂, LiftsFaults.liftM_eq_ok.mpr hcolon, bind_eq_ok.mpr
        ⟨(t, rest), LiftsFaults.liftM_eq_ok.mpr ht, rfl⟩⟩

/-- Takes in an item of an outcome: the first one is the tag, the others are set aside. -/
def takeOpened : Option Variant × List Tree → Tree → Except Complaint (Option Variant × List Tree)
  | (none, items), t => do return (some (← decodeVariant .direct t), items)
  | (some v, items), t => .ok (some v, t :: items)

/-- An item of an outcome is read as any item is, and then taken in. -/
theorem takesIn_openItem : TakesIn (readInner limit) takeOpened (openItem limit) := by
  rintro ⟨_ | v, items⟩ text opened' rest
  · simp only [openItem, takeOpened]
    constructor
    · intro h
      obtain ⟨⟨v, _⟩, hvar, h⟩ := bind_eq_ok.mp h
      cases h
      obtain ⟨t, ht, hd⟩ := readVariant_eq_ok.mp hvar
      exact ⟨t, ht, bind_eq_ok.mpr ⟨v, hd, rfl⟩⟩
    · rintro ⟨t, ht, h⟩
      obtain ⟨v, hd, h⟩ := bind_eq_ok.mp h
      cases h
      exact bind_eq_ok.mpr ⟨(v, rest), readVariant_eq_ok.mpr ⟨t, ht, hd⟩, rfl⟩
  · simp only [openItem, takeOpened]
    constructor
    · intro h
      obtain ⟨⟨t, _⟩, ht, h⟩ := bind_eq_ok.mp h
      cases h
      exact ⟨t, LiftsFaults.liftM_eq_ok.mp ht, rfl⟩
    · rintro ⟨t, ht, h⟩
      cases h
      exact bind_eq_ok.mpr ⟨(t, rest), LiftsFaults.liftM_eq_ok.mpr ht, rfl⟩

end

/-- Behind the tag, every item is set aside. -/
theorem foldlM_takeOpened_some {items before : List Tree} {v : Variant} :
    items.foldlM takeOpened (some v, before) = .ok (some v, items.reverse ++ before) := by
  induction items generalizing before with
  | nil => rfl
  | cons t items ih =>
      rw [foldlM_cons_eq_ok, List.reverse_cons, List.append_assoc]
      exact ⟨_, rfl, ih⟩

theorem splitTag_array_eq_ok {setting : Setting} {items : List Tree} {tagged : Variant × Body} :
    splitTag setting (.array items) = .ok tagged ↔
      ∃ t ts v, items = t :: ts ∧ decodeVariant setting t = .ok v ∧ tagged = (v, .items ts) := by
  cases items with
  | nil => exact ⟨nofun, nofun⟩
  | cons t ts =>
      rw [splitTag, bind_eq_ok]
      constructor
      · rintro ⟨v, hv, h⟩
        cases h
        exact ⟨t, ts, v, rfl, hv, rfl⟩
      · rintro ⟨_, _, v, h, hv, rfl⟩
        cases h
        exact ⟨v, hv, rfl⟩

/-! ### The pass -/

/-- **The tag of an outcome in a text.**  The tag and the rest are those of the tree in the
text. -/
theorem readTagged_eq_ok {limit : Nat} {text rest : List Char} {tagged : Variant × Body} :
    readTagged limit text = .ok (tagged, rest) ↔
      ∃ t, readTree limit nestingLimit text = .ok (t, rest) ∧ splitTag .direct t = .ok tagged := by
  rw [readTagged]
  split
  -- an object
  next tail h =>
    rw [bind_eq_ok]
    constructor
    · rintro ⟨⟨opened, _⟩, hf, hc⟩
      obtain ⟨_, hclose, hc⟩ := bind_eq_ok.mp hc
      cases hc
      obtain ⟨members, he, hfold⟩ := (foldElements_eq_ok takesIn_openMember).mp hf
      exact ⟨.object members, (readTree_object_eq_ok h).mpr ⟨members, he, rfl⟩,
        bind_eq_ok.mpr ⟨opened, hfold, liftM_complaint_eq_ok.mp hclose⟩⟩
    · rintro ⟨t, ht, hs⟩
      obtain ⟨members, he, rfl⟩ := (readTree_object_eq_ok h).mp ht
      obtain ⟨opened, hfold, hclose⟩ := bind_eq_ok.mp hs
      exact ⟨(opened, rest), (foldElements_eq_ok takesIn_openMember).mpr ⟨members, he, hfold⟩,
        bind_eq_ok.mpr ⟨tagged, liftM_complaint_eq_ok.mpr hclose, rfl⟩⟩
  -- an array, whose first item is the tag
  next tail h =>
    rw [bind_eq_ok]
    constructor
    · rintro ⟨⟨⟨variant, before⟩, _⟩, hf, hc⟩
      obtain ⟨items, he, hfold⟩ := (foldElements_eq_ok takesIn_openItem).mp hf
      cases items with
      | nil =>
          cases hfold
          cases hc
      | cons t items =>
          obtain ⟨opened, hopen, hfold⟩ := foldlM_cons_eq_ok.mp hfold
          obtain ⟨v, hv, hopen⟩ := bind_eq_ok.mp hopen
          cases hopen
          cases foldlM_takeOpened_some.symm.trans hfold
          cases hc
          refine ⟨.array (t :: items), (readTree_array_eq_ok h).mpr ⟨_, he, rfl⟩,
            splitTag_array_eq_ok.mpr ⟨t, items, v, rfl, hv, by simp⟩⟩
    · rintro ⟨t, ht, hs⟩
      obtain ⟨items, he, rfl⟩ := (readTree_array_eq_ok h).mp ht
      obtain ⟨u, us, v, rfl, hv, rfl⟩ := splitTag_array_eq_ok.mp hs
      have hfold : (u :: us).foldlM takeOpened (none, []) = .ok (some v, us.reverse ++ []) :=
        foldlM_cons_eq_ok.mpr ⟨(some v, []), bind_eq_ok.mpr ⟨v, hv, rfl⟩, foldlM_takeOpened_some⟩
      exact ⟨_, (foldElements_eq_ok takesIn_openItem).mpr ⟨_, he, hfold⟩, by simp⟩
  -- anything else is refused by both
  next hm hi =>
    refine ⟨fun h => (refuseScalar_ne_ok h).elim, ?_⟩
    rintro ⟨t, ht, hs⟩
    rw [readTree_scalar hi hm] at ht
    have hscalar := isScalar_of_readScalar ht
    cases t with
    | array _ | object _ => exact hscalar.elim
    | null | boolean _ | number _ | string _ => cases hs

section
variable {α β : Type} {values : Codec α} {reasons : Codec β}

/-- **The pass in its two parts.**  An outcome is decoded from a text exactly if the text is that
of a tree and the tree is decoded as that outcome. -/
theorem readOutcome_eq_ok {text : String} {o : Outcome α β} :
    readOutcome values reasons text = .ok o ↔
      ∃ t, Tree.read text = .ok t ∧ (Codec.outcome values reasons).decode .direct t = .ok o := by
  simp only [Tree.read_eq_ok]
  rw [readOutcome, bind_eq_ok]
  constructor
  · rintro ⟨⟨tagged, rest⟩, htagged, h⟩
    obtain ⟨_, ho, h⟩ := bind_eq_ok.mp h
    obtain ⟨_, hend, h⟩ := bind_eq_ok.mp h
    cases h
    obtain ⟨t, ht, hs⟩ := readTagged_eq_ok.mp htagged
    exact ⟨t, ⟨rest, ht, LiftsFaults.liftM_eq_ok.mp hend⟩,
      bind_eq_ok.mpr ⟨tagged, hs, liftM_complaint_eq_ok.mp ho⟩⟩
  · rintro ⟨t, ⟨rest, ht, hend⟩, hd⟩
    obtain ⟨tagged, hs, ho⟩ := bind_eq_ok.mp hd
    exact ⟨(tagged, rest), readTagged_eq_ok.mpr ⟨t, ht, hs⟩, bind_eq_ok.mpr
      ⟨o, liftM_complaint_eq_ok.mpr ho, bind_eq_ok.mpr
        ⟨(), LiftsFaults.liftM_eq_ok.mpr hend, rfl⟩⟩⟩

end
end Intake.Wire
