import Intake.Proofs.Wire.Acceptance
import Intake.Proofs.Wire.Narrowing
import Intake.Proofs.Wire.TextDecoder

/-!
# No ambiguous object

An object that is decoded from a text has one tag, and one payload of the variant that the tag
names; only an optional payload may be missing.  Of its other members nothing matters: not how many
there are, where they stand or whether a key is repeated among them.

* `Adds`: members with others in between.
* `readOutcome_object_eq_ok`: the objects from which an outcome is decoded.
* `readOutcome_unambiguous`: how often the members that matter occur in them.
-/

namespace Intake.Json.Tree

/-- How many members have a key. -/
def occurrences (key : String) (members : List (String × Tree)) : Nat :=
  (members.map Prod.fst).count key

theorem occurrences_eq_length_under (key : String) (members : List (String × Tree)) :
    occurrences key members = (under key members).length := by
  induction members with
  | nil => rfl
  | cons m members ih =>
      obtain ⟨k, t⟩ := m
      rw [occurrences, List.map_cons]
      by_cases hk : k = key
      · subst hk
        rw [List.count_cons_self, under_cons_self, List.length_cons, ← ih, occurrences]
      · rw [List.count_cons_of_ne hk, under_cons_of_ne hk, ← ih, occurrences]

/-- The second members are the first ones and, in between, any members whose keys are not among
`keys`. -/
inductive Adds (keys : List String) : List (String × Tree) → List (String × Tree) → Prop where
  | nil : Adds keys [] []
  | keep (m : String × Tree) {ms ns : List (String × Tree)} (h : Adds keys ms ns) :
      Adds keys (m :: ms) (m :: ns)
  | add {m : String × Tree} (hm : m.1 ∉ keys) {ms ns : List (String × Tree)}
      (h : Adds keys ms ns) : Adds keys ms (m :: ns)

/-- Nothing is added under the keys. -/
theorem Adds.under_eq {keys : List String} {ms ns : List (String × Tree)} (h : Adds keys ms ns)
    {key : String} (hk : key ∈ keys) : under key ns = under key ms := by
  induction h with
  | nil => rfl
  | @keep m _ _ _ ih =>
      obtain ⟨k, t⟩ := m
      by_cases hkey : k = key
      · subst hkey
        rw [under_cons_self, under_cons_self, ih]
      · rw [under_cons_of_ne hkey, under_cons_of_ne hkey, ih]
  | @add m hm _ _ _ ih =>
      obtain ⟨k, t⟩ := m
      rw [under_cons_of_ne fun (hkey : k = key) => hm (hkey ▸ hk), ih]

end Intake.Json.Tree

namespace Intake.Wire
open Intake.Json
open Intake.Json.Tree (under occurrences Adds)

/-! ### The objects of outcomes -/

section
variable {α β : Type} {values : Codec α} {reasons : Codec β} {text text' : String}
  {members members' : List (String × Tree)} {o : Outcome α β}

/-- **The objects of outcomes.**  An outcome is decoded from the text of an object exactly if its
tag and its payload are all that stands under their keys. -/
theorem readOutcome_object_eq_ok (ht : Tree.read text = .ok (.object members)) :
    readOutcome values reasons text = .ok o ↔
      under Variant.tagField members = [.string o.tag] ∧
        HasPayload values reasons o.variant (under o.variant.payloadField members) o := by
  simp only [readOutcome_eq_ok, ht, Except.ok.injEq, exists_eq_left', outcome_decode_direct_eq_ok]
  constructor
  · rintro (⟨_, h, htag, hp⟩ | ⟨_, h, _⟩)
    · cases h
      exact ⟨htag, hp⟩
    · cases h
  · rintro ⟨htag, hp⟩
    exact Or.inl ⟨members, rfl, htag, hp⟩

/-- Members under other keys than those of the tag and the payload make no difference. -/
theorem readOutcome_adds (ht : Tree.read text = .ok (.object members))
    (ht' : Tree.read text' = .ok (.object members'))
    (h : Adds [Variant.tagField, o.variant.payloadField] members members') :
    readOutcome values reasons text = .ok o ↔ readOutcome values reasons text' = .ok o := by
  rw [readOutcome_object_eq_ok ht, readOutcome_object_eq_ok ht', h.under_eq (by simp),
    h.under_eq (by simp)]

/-- What stands once under the key of the tag is the tag of the outcome. -/
theorem variant_of_mem (ht : Tree.read text = .ok (.object members))
    (h : readOutcome values reasons text = .ok o) {v : Variant}
    (hv : (Variant.tagField, .string v.tag) ∈ members) : v = o.variant := by
  have hmem : Tree.string v.tag ∈ under Variant.tagField members := Tree.mem_under.mpr hv
  rw [((readOutcome_object_eq_ok ht).mp h).1, List.mem_singleton, Tree.string.injEq] at hmem
  exact tag_injective hmem

end

/-! ### How often they occur -/

/-- The payload of an outcome, with its shape. -/
def payload {S E : Shape} : Outcome S.Carrier E.Carrier → Σ shape : Shape, shape.Carrier
  | .ok a => ⟨S, a⟩
  | .failure b => ⟨E, b⟩

/-- The payload stands there once, or it is an optional one that is missing. -/
theorem length_of_hasPayload {S E : Shape} {variant : Variant} {ts : List Tree}
    {o : Outcome S.Carrier E.Carrier} (h : HasPayload S.codec E.codec variant ts o) :
    ts.length = 1 ∨ ts.length = 0 ∧ payload o = ⟨.optionU32, none⟩ := by
  cases h with
  | ok h | failure h =>
      cases h with
      | present => exact Or.inl rfl
      | absent h => exact Or.inr ⟨rfl, Shape.absent_eq_some_iff.mp h⟩

section
variable {S E : Shape} {text : String} {members : List (String × Tree)}

theorem occurrences_of_readOutcome {o : Outcome S.Carrier E.Carrier}
    (ht : Tree.read text = .ok (.object members))
    (h : readOutcome S.codec E.codec text = .ok o) :
    occurrences Variant.tagField members = 1 ∧
      (occurrences o.variant.payloadField members = 1 ∨
        occurrences o.variant.payloadField members = 0 ∧ payload o = ⟨.optionU32, none⟩) := by
  obtain ⟨htag, hp⟩ := (readOutcome_object_eq_ok ht).mp h
  rw [Tree.occurrences_eq_length_under, Tree.occurrences_eq_length_under, htag]
  exact ⟨rfl, length_of_hasPayload hp⟩

/-- Two tags, or two payloads of the variant that a tag names, are refused. -/
theorem readOutcome_eq_error_of_repeated (ht : Tree.read text = .ok (.object members))
    (h : 2 ≤ occurrences Variant.tagField members ∨
      ∃ v : Variant, (Variant.tagField, .string v.tag) ∈ members ∧
        2 ≤ occurrences v.payloadField members) :
    ∃ e, readOutcome S.codec E.codec text = .error e := by
  cases hread : readOutcome S.codec E.codec text with
  | error e => exact ⟨e, rfl⟩
  | ok o =>
      obtain ⟨htag, hpayload⟩ := occurrences_of_readOutcome ht hread
      rcases h with h | ⟨v, hv, h⟩
      · omega
      · obtain rfl := variant_of_mem ht hread hv
        omega

end

/-- **No ambiguous object.**  An object from which an outcome is decoded has one tag and one payload
of its variant, which may only be missing where it is optional and stands for nothing; two tags, or
two payloads of the variant that a tag names, are refused; and members under any other keys may be
added without a change of the result. -/
theorem readOutcome_unambiguous (S E : Shape) {text : String} {members : List (String × Tree)}
    (ht : Tree.read text = .ok (.object members)) :
    (∀ o : Outcome S.Carrier E.Carrier, readOutcome S.codec E.codec text = .ok o →
      occurrences Variant.tagField members = 1 ∧
        (occurrences o.variant.payloadField members = 1 ∨
          occurrences o.variant.payloadField members = 0 ∧ payload o = ⟨.optionU32, none⟩)) ∧
    ((2 ≤ occurrences Variant.tagField members ∨
      ∃ v : Variant, (Variant.tagField, .string v.tag) ∈ members ∧
        2 ≤ occurrences v.payloadField members) →
          ∃ e, readOutcome S.codec E.codec text = .error e) ∧
    ∀ (o : Outcome S.Carrier E.Carrier) (text' : String) (members' : List (String × Tree)),
      Tree.read text' = .ok (.object members') →
        Adds [Variant.tagField, o.variant.payloadField] members members' →
          (readOutcome S.codec E.codec text = .ok o ↔
            readOutcome S.codec E.codec text' = .ok o) :=
  ⟨fun _ h => occurrences_of_readOutcome ht h, fun h => readOutcome_eq_error_of_repeated ht h,
    fun _ _ _ ht' h => readOutcome_adds ht ht' h⟩

/-! ### An object with a missing payload, the same with more members, and one with two tags -/

/-- A success whose payload is absent, which is read as none. -/
def tagOnly : String := "\x7b\"tag\":\"ok\"\x7d"

/-- The members of `tagOnly`. -/
def tagOnlyMembers : List (String × Tree) := [("tag", .string "ok")]

/-- The same tag among members that are not for this variant, one key of them repeated. -/
def surrounded : String :=
  "\x7b\"reason\":[],\"tag\":\"ok\",\"x\":1,\"reason\":null\x7d"

/-- The members of `surrounded`. -/
def surroundedMembers : List (String × Tree) :=
  [("reason", .array []), ("tag", .string "ok"), ("x", .number (.natural 1)), ("reason", .null)]

/-- A tag that is repeated, and says the same both times. -/
def twoTags : String := "\x7b\"tag\":\"ok\",\"tag\":\"ok\"\x7d"

/-- The members of `twoTags`. -/
def twoTagsMembers : List (String × Tree) := [("tag", .string "ok"), ("tag", .string "ok")]

/-- The other members change nothing, the tag occurs once and the payload not at all; with the tag
twice the object is refused. -/
theorem readOutcome_unambiguous_tagOnly :
    readOutcome Shape.optionU32.codec Shape.string.codec surrounded = .ok (.ok none) ∧
      occurrences Variant.tagField surroundedMembers = 1 ∧
      ∃ e, readOutcome Shape.optionU32.codec Shape.string.codec twoTags = .error e := by
  have htagOnly : Tree.read tagOnly = .ok (.object tagOnlyMembers) := rfl
  have hsurrounded : Tree.read surrounded = .ok (.object surroundedMembers) := rfl
  have htwoTags : Tree.read twoTags = .ok (.object twoTagsMembers) := rfl
  have hread : readOutcome Shape.optionU32.codec Shape.string.codec tagOnly =
      .ok (.ok none) := rfl
  have hadds : Adds [Variant.tagField, Variant.ok.payloadField] tagOnlyMembers surroundedMembers :=
    .add (by decide) (.keep _ (.add (by decide) (.add (by decide) .nil)))
  have hadded := ((readOutcome_unambiguous .optionU32 .string htagOnly).2.2 (.ok none) surrounded
    surroundedMembers hsurrounded hadds).mp hread
  refine ⟨hadded, ?_, ?_⟩
  · exact ((readOutcome_unambiguous .optionU32 .string hsurrounded).1 _ hadded).1
  · exact (readOutcome_unambiguous .optionU32 .string htwoTags).2.1 (Or.inl (by decide))

end Intake.Wire
