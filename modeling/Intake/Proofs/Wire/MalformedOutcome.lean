import Intake.Proofs.Json.Fault
import Intake.Proofs.Wire.Faults
import Intake.Proofs.Wire.TextDecoder

/-!
# Malformed outcomes

The text of an outcome is read in one pass, and the first thing that is wrong is reported.  Where a
text breaks off or breaks the syntax inside its outermost brackets, the pass gets to the payload of
the outcome no more: it was set aside, or it was not reached.  So the report is the fault that the
reader of trees reports, or a complaint about the outcome's own tag, if the tag was met before.

* `Reports`: what is reported is one of some faults or one of some complaints.
* `TagComplaint`: the complaints about the tag, each with the place where the pass stops.
* `reports_of_openMember`, `reports_of_openItem`: what a step of the pass can fail with.
* `Follows`, `reports_of_faultyElements`: how a pass of such steps ends over faulty elements.
* `readOutcome_malformed`: what is reported of a malformed outcome.
-/

namespace Intake.Wire
open Intake.Json
open Intake.Json.Tree (under)

/-! ### Reports -/

/-- One of the faults or one of the complaints. -/
inductive Reports (faults : Malformed → Prop) (complaints : Complaint → Prop) :
    TextError → Prop where
  | malformed {fault : Malformed} (h : faults fault) : Reports faults complaints (.malformed fault)
  | rejected {c : Complaint} (h : complaints c) : Reports faults complaints (.rejected c)

section
variable {α β γ : Type} {x : Except Malformed α} {faults : Malformed → Prop}
  {complaints complaints' : Complaint → Prop} {e : TextError}

theorem Reports.imp (h : Reports faults complaints e) (hc : ∀ c, complaints c → complaints' c) :
    Reports faults complaints' e := by
  cases h with
  | malformed h => exact .malformed h
  | rejected h => exact .rejected (hc _ h)

/-- A stage of the pass that the reader of trees has as well. -/
theorem Reports.bind {f : α → Except TextError β} {g : α → Except Malformed γ}
    (h : (liftM x >>= f) = .error e)
    (hf : ∀ a, x = .ok a → f a = .error e → Reports (g a = .error ·) complaints e) :
    Reports ((x >>= g) = .error ·) complaints e := by
  cases hx : x with
  | error fault =>
      rw [hx] at h
      cases h
      exact .malformed rfl
  | ok a =>
      rw [hx] at h
      exact hf a hx h

/-- The reader of trees does no more than make something of what it has read. -/
theorem Reports.last {g : α → β} (h : Reports (x = .error ·) complaints e) :
    Reports ((x >>= fun a => .ok (g a)) = .error ·) complaints e := by
  cases h with
  | malformed h => exact .malformed (bind_ok_eq_error.mpr h)
  | rejected h => exact .rejected h

theorem reports_of_liftM (h : (liftM x : Except TextError α) = .error e) :
    Reports (x = .error ·) complaints e := by
  cases x with
  | error fault =>
      cases h
      exact .malformed rfl
  | ok a => cases h

end

/-! ### Complaints about the tag -/

/-- What stands in the place of a tag and is none, with the complaint about it.  A bracket is enough
to see that. -/
inductive BadTag (text : List Char) : Complaint → Prop where
  | array {tail : List Char} (h : dropBlanks text = '[' :: tail) :
      BadTag text (.invalidType .sequence .tag)
  | object {tail : List Char} (h : dropBlanks text = '\x7b' :: tail) :
      BadTag text (.invalidType .map .tag)
  | scalar {t : Tree} {rest : List Char} {c : Complaint}
      (h : readScalar (dropBlanks text) = .ok (t, rest)) (hc : TagFault (some t) c) : BadTag text c

/-- A complaint about the tag of the outcome in a text: the text is well-formed up to there, and the
tag is no tag or the second one. -/
inductive TagComplaint (limit : Nat) (text : List Char) : Complaint → Prop where
  | second {tail rest rest₁ : List Char} {members : List (String × Tree)} {v : Variant}
      (h : dropBlanks text = '\x7b' :: tail)
      (ha : Ahead '\x7d' (readMember (readInner limit)) tail members rest)
      (hm : under Variant.tagField members = [.string v.tag])
      (hkey : readKey rest = .ok (Variant.tagField, rest₁)) :
      TagComplaint limit text (.duplicateField Variant.tagField)
  | member {tail rest rest₁ rest₂ : List Char} {members : List (String × Tree)} {c : Complaint}
      (h : dropBlanks text = '\x7b' :: tail)
      (ha : Ahead '\x7d' (readMember (readInner limit)) tail members rest)
      (hm : under Variant.tagField members = [])
      (hkey : readKey rest = .ok (Variant.tagField, rest₁)) (hcolon : readColon rest₁ = .ok rest₂)
      (hc : BadTag rest₂ c) : TagComplaint limit text c
  | item {tail : List Char} {c : Complaint} (h : dropBlanks text = '[' :: tail)
      (hc : BadTag tail c) : TagComplaint limit text c

theorem TagFault.kind {t : Tree} {c : Complaint} (h : TagFault (some t) c) :
    (∃ s, c = .unknownVariant s) ∨ ∃ found, c = .invalidType found .tag := by
  cases h with
  | unknown => exact Or.inl ⟨_, rfl⟩
  | noString => exact Or.inr ⟨_, rfl⟩

theorem BadTag.kind {text : List Char} {c : Complaint} (h : BadTag text c) :
    (∃ s, c = .unknownVariant s) ∨ ∃ found, c = .invalidType found .tag := by
  cases h with
  | array | object => exact Or.inr ⟨_, rfl⟩
  | scalar _ hc => exact hc.kind

/-- There are three kinds of complaints about a tag, and none of them is about a payload. -/
theorem TagComplaint.kind {limit : Nat} {text : List Char} {c : Complaint}
    (h : TagComplaint limit text c) :
    c = .duplicateField Variant.tagField ∨ (∃ s, c = .unknownVariant s) ∨
      ∃ found, c = .invalidType found .tag := by
  cases h with
  | second => exact Or.inl rfl
  | member _ _ _ _ _ hc | item _ hc => exact Or.inr hc.kind

/-! ### The steps of the pass -/

/-- A tag that is refused has a fault. -/
theorem tagFault_of_decodeVariant {t : Tree} {c : Complaint}
    (h : decodeVariant .direct t = .error c) : TagFault (some t) c := by
  have hno : ∀ variant : Variant, some t ≠ some (.string variant.tag) := by
    intro variant htag
    rw [Option.some.inj htag, decodeVariant_tag] at h
    cases h
  obtain ⟨c', hc⟩ := exists_tagFault hno
  rw [decodeVariant_of_tagFault hc] at h
  cases h
  exact hc

section
variable {limit : Nat} {text : List Char} {e : TextError}

/-- Where a tag is expected, the pass fails with the fault of what stands there, or complains. -/
theorem reports_of_readVariant (limit : Nat) (h : readVariant text = .error e) :
    Reports (readInner limit text = .error ·) (BadTag text) e := by
  rw [readVariant, readInPlace] at h
  split at h
  next tail hb =>
    cases h
    exact .rejected (.array hb)
  next tail hb =>
    cases h
    exact .rejected (.object hb)
  next hi hm =>
    rw [readInner, readTree_scalar hi hm, ← bind_pure (readScalar (dropBlanks text))]
    refine Reports.bind h fun p hread h => ?_
    obtain ⟨t, rest⟩ := p
    cases hd : decodeVariant .direct t with
    | error c =>
        simp only [hd] at h
        cases h
        exact .rejected (.scalar hread (tagFault_of_decodeVariant hd))
    | ok v =>
        simp only [hd] at h
        cases h

/-- What the pass complains about at a member: a second tag, or one that is none. -/
inductive BadMember (opened : Opened) (text : List Char) : Complaint → Prop where
  | second {v : Variant} {text₁ : List Char} (hv : opened.variant = some v)
      (hkey : readKey text = .ok (Variant.tagField, text₁)) :
      BadMember opened text (.duplicateField Variant.tagField)
  | tag {text₁ text₂ : List Char} {c : Complaint} (hv : opened.variant = none)
      (hkey : readKey text = .ok (Variant.tagField, text₁)) (hcolon : readColon text₁ = .ok text₂)
      (hc : BadTag text₂ c) : BadMember opened text c

/-- At a member, the pass fails with the fault of the member, or complains about a tag. -/
theorem reports_of_openMember {opened : Opened} (h : openMember limit opened text = .error e) :
    Reports (readMember (readInner limit) text = .error ·) (BadMember opened text) e := by
  rw [openMember, Tagged.tagField_eq] at h
  refine Reports.bind h fun p hkey h => ?_
  obtain ⟨key, text₁⟩ := p
  dsimp only at h
  by_cases hk : key = Variant.tagField
  · subst hk
    rw [if_pos rfl] at h
    cases hv : opened.variant with
    | some v =>
        rw [hv] at h
        cases h
        exact .rejected (.second hv hkey)
    | none =>
        rw [hv] at h
        refine Reports.bind h fun text₂ hcolon h => .last ?_
        exact (reports_of_readVariant limit (bind_ok_eq_error.mp h)).imp
          fun _ hc => .tag hv hkey hcolon hc
  · rw [if_neg hk] at h
    refine Reports.bind h fun text₂ hcolon h => .last ?_
    exact reports_of_liftM (bind_ok_eq_error.mp h)

/-- At an item, the pass fails with the fault of the item, or complains about the first one. -/
theorem reports_of_openItem {opened : Option Variant × List Tree}
    (h : openItem limit opened text = .error e) :
    Reports (readInner limit text = .error ·) (fun c => opened.1 = none ∧ BadTag text c) e := by
  obtain ⟨_ | v, items⟩ := opened
  · exact (reports_of_readVariant limit (bind_ok_eq_error.mp h)).imp fun _ hc => ⟨rfl, hc⟩
  · exact reports_of_liftM (bind_ok_eq_error.mp h)

end

/-! ### The pass over faulty elements -/

section
variable {σ α : Type} {closing : Char} {item : List Char → Except Malformed (α × List Char)}
  {take : σ → α → Except Complaint σ} {bad : σ → List Char → Complaint → Prop}
  {step : σ → List Char → Except TextError (σ × List Char)} {limit : Nat}
  {text text₁ : List Char} {a : α} {s : σ} {c : Complaint} {fault : Malformed}

/-- The step takes in an element that was read, and fails with a fault of the element or with a
complaint. -/
structure Follows (item : List Char → Except Malformed (α × List Char))
    (take : σ → α → Except Complaint σ) (bad : σ → List Char → Complaint → Prop)
    (step : σ → List Char → Except TextError (σ × List Char)) : Prop where
  takes : TakesIn item take step
  fails : ∀ {s text e}, step s text = .error e → Reports (item text = .error ·) (bad s text) e

theorem follows_openMember :
    Follows (readMember (readInner limit)) (Opened.take .direct) BadMember (openMember limit) :=
  ⟨takesIn_openMember, reports_of_openMember⟩

theorem follows_openItem :
    Follows (readInner limit) takeOpened (fun opened text c => opened.1 = none ∧ BadTag text c)
      (openItem limit) :=
  ⟨takesIn_openItem, reports_of_openItem⟩

/-- An element that is read is taken in, unless there is a complaint. -/
theorem Follows.of_ok (hf : Follows item take bad step) (h : item text = .ok (a, text₁)) (s : σ) :
    (∃ c, step s text = .error (.rejected c) ∧ bad s text c) ∨
      ∃ s', take s a = .ok s' ∧ step s text = .ok (s', text₁) := by
  cases hstep : step s text with
  | error e =>
      cases hf.fails hstep with
      | malformed hfault => rw [h] at hfault; cases hfault
      | rejected hc => exact Or.inl ⟨_, rfl, hc⟩
  | ok p =>
      obtain ⟨b, hitem, ht⟩ := (hf.takes s text p.1 p.2).mp hstep
      rw [h] at hitem
      cases hitem
      exact Or.inr ⟨p.1, ht, rfl⟩

/-- The fault of an element is reported, unless there is a complaint. -/
theorem Follows.of_error (hf : Follows item take bad step) (h : item text = .error fault) (s : σ) :
    ∃ e, step s text = .error e ∧ Reports (· = fault) (bad s text) e := by
  cases hstep : step s text with
  | error e =>
      refine ⟨e, rfl, ?_⟩
      cases hf.fails hstep with
      | malformed hfault => exact .malformed (Except.error.inj (hfault.symm.trans h))
      | rejected hc => exact .rejected hc
  | ok p =>
      obtain ⟨b, hitem, -⟩ := (hf.takes s text p.1 p.2).mp hstep
      rw [h] at hitem
      cases hitem

/-- The elements in front of a place are taken in, and there is a complaint at this place. -/
def ComplainsAt (closing : Char) (item : List Char → Except Malformed (α × List Char))
    (take : σ → α → Except Complaint σ) (bad : σ → List Char → Complaint → Prop) (s : σ)
    (text : List Char) (c : Complaint) : Prop :=
  ∃ as rest s', Ahead closing item text as rest ∧ as.foldlM take s = .ok s' ∧ bad s' rest c

theorem ComplainsAt.here (h : bad s text c) : ComplainsAt closing item take bad s text c :=
  ⟨[], text, s, .nil text, rfl, h⟩

theorem ComplainsAt.behind {s' : σ} {text₂ : List Char} (h : item text = .ok (a, text₁))
    (hs : readSeparator closing text₁ = .ok (true, text₂)) (ht : take s a = .ok s')
    (hc : ComplainsAt closing item take bad s' text₂ c) :
    ComplainsAt closing item take bad s text c := by
  obtain ⟨as, rest, s'', ha, hfold, hbad⟩ := hc
  exact ⟨a :: as, rest, s'', .cons h hs ha, foldlM_cons_eq_ok.mpr ⟨s', ht, hfold⟩, hbad⟩

theorem reports_of_faulty (hf : Follows item take bad step)
    (h : Faulty closing item limit text fault) (s : σ) :
    ∃ e, foldSeparated closing step limit s text = .error e ∧
      Reports (· = fault) (ComplainsAt closing item take bad s text) e := by
  -- the pass gets to the fault, unless there is something to complain about before
  induction h generalizing s with
  | limit => exact ⟨_, rfl, .malformed rfl⟩
  | element h =>
      obtain ⟨e, hstep, he⟩ := hf.of_error h s
      rw [foldSeparated_succ, hstep]
      exact ⟨e, rfl, he.imp fun _ => .here⟩
  | separator h hs =>
      rw [foldSeparated_succ]
      rcases hf.of_ok h s with ⟨c, hstep, hc⟩ | ⟨s', -, hstep⟩
      · rw [hstep]
        exact ⟨_, rfl, .rejected (.here hc)⟩
      · rw [hstep, ok_bind, foldRest, hs]
        exact ⟨_, rfl, .malformed rfl⟩
  | more h hs _ ih =>
      rw [foldSeparated_succ]
      rcases hf.of_ok h s with ⟨c, hstep, hc⟩ | ⟨s', ht, hstep⟩
      · rw [hstep]
        exact ⟨_, rfl, .rejected (.here hc)⟩
      · obtain ⟨e, hfold, he⟩ := ih s'
        rw [hstep, ok_bind, foldRest_of_readSeparator _ _ _ hs, if_pos rfl]
        exact ⟨e, hfold, he.imp fun _ hc => hc.behind h hs ht⟩

/-- **The pass over faulty elements.**  It fails with the fault, unless there is something to
complain about in front of it. -/
theorem reports_of_faultyElements (hf : Follows item take bad step)
    (h : FaultyElements closing item limit text fault) (s : σ) :
    ∃ e, foldElements closing step limit s text = .error e ∧
      Reports (· = fault) (ComplainsAt closing item take bad s text) e := by
  rw [foldElements]
  rcases h with ⟨hd, rfl⟩ | ⟨⟨c, tail, hd, hne⟩, h⟩
  · rw [hd]
    exact ⟨_, rfl, .malformed rfl⟩
  · rw [hd]
    dsimp only
    rw [if_neg hne]
    exact reports_of_faulty hf h s

end

/-! ### Malformed outcomes -/

section
variable {limit : Nat} {text tail : List Char} {c : Complaint} {fault : Malformed}

theorem tagComplaint_of_members (hb : dropBlanks text = '\x7b' :: tail)
    (h : ComplainsAt '\x7d' (readMember (readInner limit)) (Opened.take .direct) BadMember .empty
      tail c) : TagComplaint limit text c := by
  obtain ⟨members, rest, opened, ha, hfold, hbad⟩ := h
  have hmet := (foldlM_take_eq_ok.mp hfold).1
  cases hbad with
  | second hv hkey =>
      rw [hv] at hmet
      obtain ⟨t, ht, hd⟩ := met_none_some_iff.mp hmet
      exact .second hb ha (decodeVariant_direct_eq_ok.mp hd ▸ ht) hkey
  | tag hv hkey hcolon hc =>
      rw [hv] at hmet
      exact .member hb ha (met_none_none_iff.mp hmet) hkey hcolon hc

theorem tagComplaint_of_items (hb : dropBlanks text = '[' :: tail)
    (h : ComplainsAt ']' (readInner limit) takeOpened
      (fun opened text c => opened.1 = none ∧ BadTag text c) (none, []) tail c) :
    TagComplaint limit text c := by
  obtain ⟨items, rest, opened, ha, hfold, hn, hc⟩ := h
  cases ha with
  | nil => exact .item hb hc
  -- behind an item that is taken in, there is a tag
  | cons =>
      obtain ⟨opened₁, hopen, hfold⟩ := foldlM_cons_eq_ok.mp hfold
      obtain ⟨v, -, hopen⟩ := bind_eq_ok.mp hopen
      cases hopen
      cases foldlM_takeOpened_some.symm.trans hfold
      cases hn

/-- What the pass reports where the reader of trees finds a fault. -/
theorem reports_of_readTree_eq_error (h : readTree limit nestingLimit text = .error fault) :
    ∃ e, readTagged limit text = .error e ∧ Reports (· = fault) (TagComplaint limit text) e := by
  rw [readTagged]
  split
  next tail hb =>
    have hfaulty := faultyElements_of_readTree_object hb h
    obtain ⟨e, hfold, he⟩ := reports_of_faultyElements follows_openMember hfaulty .empty
    exact ⟨e, by rw [hfold]; rfl, he.imp fun _ => tagComplaint_of_members hb⟩
  next tail hb =>
    have hfaulty := faultyElements_of_readTree_array hb h
    obtain ⟨e, hfold, he⟩ := reports_of_faultyElements follows_openItem hfaulty (none, [])
    exact ⟨e, by rw [hfold]; rfl, he.imp fun _ => tagComplaint_of_items hb⟩
  next hm hi =>
    rw [readTree_scalar hi hm] at h
    rw [refuseScalar, h]
    exact ⟨_, rfl, .malformed rfl⟩

end

/-- **Malformed outcomes.**  If the reader of untyped values does not get to the end of the value
that a text begins with, then no outcome is decoded from the text, whatever the types of the
payloads.  What is reported is the fault that the reader of untyped values reports, or a complaint
about the outcome's own tag, up to which the text is well-formed: that it is the second tag, that it
names no variant or that it is no name.  Nothing is reported of a payload. -/
theorem readOutcome_malformed {text : String} {fault : Malformed}
    (h : readTree text.toList.length nestingLimit text.toList = .error fault) :
    Value.read text = .error fault ∧
      ∃ e, (∀ S E : Shape, readOutcome S.codec E.codec text = .error e) ∧
        (e = .malformed fault ∨
          ∃ c, e = .rejected c ∧ TagComplaint text.toList.length text.toList c ∧
            (c = .duplicateField "tag" ∨ (∃ s, c = .unknownVariant s) ∨
              ∃ found, c = .invalidType found .tag)) := by
  refine ⟨by rw [Value.read, Tree.read, h]; rfl, ?_⟩
  obtain ⟨e, htagged, he⟩ := reports_of_readTree_eq_error h
  refine ⟨e, fun S E => by rw [readOutcome, htagged]; rfl, ?_⟩
  cases he with
  | malformed hfault => exact Or.inl (congrArg _ hfault)
  | rejected hc => exact Or.inr ⟨_, rfl, hc, hc.kind⟩

/-- A payload that breaks off behind an unknown tag. -/
def brokenBehindTag : String := "\x7b\"tag\":\"maybe\",\"value\":[1,\x7d"

/-- A payload that is no octet, and one that breaks off. -/
def brokenBehindPayload : String :=
  "\x7b\"value\":\"x\",\"tag\":\"ok\",\"value\":[1,\x7d"

/-- The unknown tag is complained about, and the payload that is no octet is not; so it is for any
types of payloads. -/
theorem readOutcome_malformed_broken :
    readOutcome Shape.location.codec Shape.outcome.codec brokenBehindTag =
        .error (.rejected (.unknownVariant "maybe")) ∧
      readOutcome Shape.u8.codec Shape.string.codec brokenBehindPayload =
        .error (.malformed .badSyntax) := by
  have htag : readTree brokenBehindTag.toList.length nestingLimit brokenBehindTag.toList =
      .error .badSyntax := rfl
  have hpayload : readTree brokenBehindPayload.toList.length nestingLimit
      brokenBehindPayload.toList = .error .badSyntax := rfl
  obtain ⟨-, e, he, -⟩ := readOutcome_malformed htag
  obtain ⟨-, e', he', -⟩ := readOutcome_malformed hpayload
  have hread : readOutcome Shape.unit.codec Shape.unit.codec brokenBehindTag =
      .error (.rejected (.unknownVariant "maybe")) := rfl
  have hread' : readOutcome Shape.unit.codec Shape.unit.codec brokenBehindPayload =
      .error (.malformed .badSyntax) := rfl
  cases (he .unit .unit).symm.trans hread
  cases (he' .unit .unit).symm.trans hread'
  exact ⟨he .location .outcome, he' .u8 .string⟩

end Intake.Wire
