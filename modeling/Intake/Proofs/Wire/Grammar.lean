import Intake.Proofs.Json.Normal
import Intake.Proofs.Result
import Intake.Wire.Record
import Intake.Wire.Tagged

/-!
# What records and outcomes are made of

The decoders of records and outcomes fold over the members of an object and stop at the first thing
that is wrong.  What they accept is said here without the fold, by what stands under each of their
keys: exactly one tree under the keys that count, and anything under the others.

* `Met`: what a field that is refused when met twice makes of the trees under its key.
* `Record.Form`, `Record.decode_eq_ok`: the records among the trees.
* `OutcomeForm`, `outcome_decode_eq_ok`: the outcomes among the trees.
-/

namespace Intake.Wire
open Intake.Json
open Intake.Json.Tree (under)

/-! ### Fields that may be met once -/

/-- What has been met of a field, before and after the trees under its key: nothing new without a
tree, and the value of a single tree if nothing was there before. -/
inductive Met {α : Type} (decode : Tree → Except Complaint α) :
    Option α → List Tree → Option α → Prop where
  | nothing (seen : Option α) : Met decode seen [] seen
  | once {t : Tree} {a : α} (h : decode t = .ok a) : Met decode none [t] (some a)

theorem met_nil_iff {α : Type} {decode : Tree → Except Complaint α} {seen seen' : Option α} :
    Met decode seen [] seen' ↔ seen = seen' :=
  ⟨fun h => by cases h; rfl, fun h => h ▸ .nothing seen⟩

theorem met_cons_iff {α : Type} {decode : Tree → Except Complaint α} {seen seen' : Option α}
    {t : Tree} {ts : List Tree} :
    Met decode seen (t :: ts) seen' ↔
      seen = none ∧ ∃ a, decode t = .ok a ∧ Met decode (some a) ts seen' := by
  constructor
  · intro h
    cases h with
    | once h => exact ⟨rfl, _, h, .nothing _⟩
  · rintro ⟨rfl, a, ha, h⟩
    cases h with
    | nothing => exact .once ha

theorem met_none_some_iff {α : Type} {decode : Tree → Except Complaint α} {ts : List Tree} {a : α} :
    Met decode none ts (some a) ↔ ∃ t, ts = [t] ∧ decode t = .ok a := by
  constructor
  · intro h
    cases h with
    | once h => exact ⟨_, rfl, h⟩
  · rintro ⟨t, rfl, h⟩
    exact .once h

theorem met_none_none_iff {α : Type} {decode : Tree → Except Complaint α} {ts : List Tree} :
    Met decode none ts none ↔ ts = [] := by
  constructor
  · intro h
    cases h with
    | nothing => rfl
  · rintro rfl
    exact .nothing none

/-! ### Records -/

namespace Record
variable {ρ α β : Type} {record : Record ρ α β} {setting : Setting}

/-- The records among the trees: an object with one tree under each field, or an array of the two
fields. -/
inductive Form (record : Record ρ α β) (setting : Setting) : Tree → ρ → Prop where
  | object {members : List (String × Tree)} {t u : Tree} {a : α} {b : β}
      (hfirst : under record.first.name members = [t])
      (hsecond : under record.second.name members = [u])
      (ha : record.first.codec.decode setting t = .ok a)
      (hb : record.second.codec.decode setting u = .ok b) :
      Form record setting (.object members) (record.make a b)
  | array {t u : Tree} {a : α} {b : β} (ha : record.first.codec.decode setting t = .ok a)
      (hb : record.second.codec.decode setting u = .ok b) :
      Form record setting (.array [t, u]) (record.make a b)

theorem refuseSecond_eq_ok {γ δ : Type} {name : String} {seen : Option γ}
    {value : Except Complaint δ} {d : δ} :
    refuseSecond name seen value = .ok d ↔ seen = none ∧ value = .ok d := by
  cases seen with
  | none => simp [refuseSecond]
  | some c => simp [refuseSecond]

theorem takeMember_first_eq_ok {seen seen' : Seen α β} {t : Tree} :
    record.takeMember setting seen (record.first.name, t) = .ok seen' ↔
      seen.1 = none ∧
        ∃ a, record.first.codec.decode setting t = .ok a ∧ (some a, seen.2) = seen' := by
  simp [takeMember, refuseSecond_eq_ok]

theorem takeMember_second_eq_ok (hne : record.first.name ≠ record.second.name)
    {seen seen' : Seen α β} {t : Tree} :
    record.takeMember setting seen (record.second.name, t) = .ok seen' ↔
      seen.2 = none ∧
        ∃ b, record.second.codec.decode setting t = .ok b ∧ (seen.1, some b) = seen' := by
  simp [takeMember, refuseSecond_eq_ok, hne.symm]

/-- **The members of a record.**  Taking them in is taking in, for each field apart, what stands
under its name. -/
theorem foldlM_takeMember_eq_ok (hne : record.first.name ≠ record.second.name)
    {members : List (String × Tree)} {seen seen' : Seen α β} :
    members.foldlM (record.takeMember setting) seen = .ok seen' ↔
      Met (record.first.codec.decode setting) seen.1 (under record.first.name members) seen'.1 ∧
        Met (record.second.codec.decode setting) seen.2 (under record.second.name members)
          seen'.2 := by
  induction members generalizing seen with
  | nil =>
      rw [foldlM_nil_eq_ok, Tree.under_nil, Tree.under_nil, met_nil_iff, met_nil_iff]
      exact Prod.ext_iff
  | cons m members ih =>
      obtain ⟨key, t⟩ := m
      simp only [foldlM_cons_eq_ok, ih]
      -- a member counts for one field at most, and leaves the other as it was
      by_cases hf : key = record.first.name
      · subst hf
        simp only [takeMember_first_eq_ok, Tree.under_cons_self, Tree.under_cons_of_ne hne,
          met_cons_iff]
        constructor
        · rintro ⟨_, ⟨hn, a, ha, rfl⟩, h₁, h₂⟩
          exact ⟨⟨hn, a, ha, h₁⟩, h₂⟩
        · rintro ⟨⟨hn, a, ha, h₁⟩, h₂⟩
          exact ⟨_, ⟨hn, a, ha, rfl⟩, h₁, h₂⟩
      · by_cases hs : key = record.second.name
        · subst hs
          simp only [takeMember_second_eq_ok hne, Tree.under_cons_self, Tree.under_cons_of_ne hf,
            met_cons_iff]
          constructor
          · rintro ⟨_, ⟨hn, b, hb, rfl⟩, h₁, h₂⟩
            exact ⟨h₁, hn, b, hb, h₂⟩
          · rintro ⟨h₁, hn, b, hb, h₂⟩
            exact ⟨_, ⟨hn, b, hb, rfl⟩, h₁, h₂⟩
        · simp [takeMember, hf, hs]

theorem finish_eq_ok {seen : Seen α β} {r : ρ} :
    record.finish seen = .ok r ↔ ∃ a b, seen = (some a, some b) ∧ record.make a b = r := by
  obtain ⟨_ | a, _ | b⟩ := seen
  · simp [finish]
  · simp [finish]
  · simp [finish]
  · constructor
    · intro h
      exact ⟨a, b, rfl, Except.ok.inj h⟩
    · rintro ⟨_, _, h, rfl⟩
      cases h
      rfl

theorem decodeMembers_eq_ok (hne : record.first.name ≠ record.second.name)
    {members : List (String × Tree)} {r : ρ} :
    record.decodeMembers setting members = .ok r ↔ Form record setting (.object members) r := by
  rw [decodeMembers, bind_eq_ok]
  simp only [foldlM_takeMember_eq_ok hne, finish_eq_ok]
  constructor
  · rintro ⟨_, ⟨h₁, h₂⟩, a, b, rfl, rfl⟩
    obtain ⟨t, ht, ha⟩ := met_none_some_iff.mp h₁
    obtain ⟨u, hu, hb⟩ := met_none_some_iff.mp h₂
    exact .object ht hu ha hb
  · intro h
    cases h with
    | object ht hu ha hb =>
        exact ⟨_, ⟨met_none_some_iff.mpr ⟨_, ht, ha⟩, met_none_some_iff.mpr ⟨_, hu, hb⟩⟩,
          _, _, rfl, rfl⟩

theorem decodeItems_eq_ok {items : List Tree} {r : ρ} :
    record.decodeItems setting items = .ok r ↔ Form record setting (.array items) r := by
  match items with
  | [] => exact ⟨nofun, nofun⟩
  | [t] => exact ⟨fun h => (by simp [decodeItems] at h), nofun⟩
  | t :: u :: more =>
      simp only [decodeItems, bind_eq_ok]
      constructor
      · rintro ⟨a, ha, b, hb, h⟩
        cases more with
        | nil => cases h; exact .array ha hb
        | cons => cases h
      · intro h
        cases h with
        | array ha hb => exact ⟨_, ha, _, hb, rfl⟩

/-- **The grammar of records.** -/
theorem decode_eq_ok (hne : record.first.name ≠ record.second.name) {t : Tree} {r : ρ} :
    record.codec.decode setting t = .ok r ↔ Form record setting t r := by
  match t with
  | .object members => exact decodeMembers_eq_ok hne
  | .array items => exact decodeItems_eq_ok
  | .null | .boolean _ | .number _ | .string _ =>
      exact ⟨nofun, nofun⟩

end Record

/-! ### Outcomes -/

section
variable {α β : Type} {values : Codec α} {reasons : Codec β} {setting : Setting}

/-- What the trees under a payload's field stand for: a single tree for its value, and no tree for
what an absent payload stands for. -/
inductive IsPayload {α : Type} (codec : Codec α) : List Tree → α → Prop where
  | present {t : Tree} {a : α} (h : codec.decode .setAside t = .ok a) : IsPayload codec [t] a
  | absent {a : α} (h : codec.absent = some a) : IsPayload codec [] a

/-- What the trees under a variant's payload field make of an outcome. -/
inductive HasPayload (values : Codec α) (reasons : Codec β) :
    Variant → List Tree → Outcome α β → Prop where
  | ok {ts : List Tree} {a : α} (h : IsPayload values ts a) :
      HasPayload values reasons .ok ts (.ok a)
  | failure {ts : List Tree} {b : β} (h : IsPayload reasons ts b) :
      HasPayload values reasons .failure ts (.failure b)

/-- The outcomes among the trees: an object with one tag and the payload of its variant, or an
array of the two. -/
inductive OutcomeForm (values : Codec α) (reasons : Codec β) (setting : Setting) :
    Tree → Outcome α β → Prop where
  | object {members : List (String × Tree)} {t : Tree} {variant : Variant} {o : Outcome α β}
      (htag : under Variant.tagField members = [t]) (hv : decodeVariant setting t = .ok variant)
      (hp : HasPayload values reasons variant (under variant.payloadField members) o) :
      OutcomeForm values reasons setting (.object members) o
  | array {t u : Tree} {variant : Variant} {o : Outcome α β}
      (hv : decodeVariant setting t = .ok variant) (hp : HasPayload values reasons variant [u] o) :
      OutcomeForm values reasons setting (.array [t, u]) o

theorem takeTag_eq_ok {opened opened' : Opened} {tag : Except Complaint Variant} :
    opened.takeTag tag = .ok opened' ↔
      opened.variant = none ∧ ∃ v, tag = .ok v ∧ { opened with variant := some v } = opened' := by
  cases h : opened.variant with
  | none => simp [Opened.takeTag, h]
  | some v => simp [Opened.takeTag, h]

theorem take_tag_eq_ok {opened opened' : Opened} {t : Tree} :
    opened.take setting (Variant.tagField, t) = .ok opened' ↔
      opened.variant = none ∧
        ∃ v, decodeVariant setting t = .ok v ∧ { opened with variant := some v } = opened' := by
  rw [Opened.take, Tagged.tagField_eq, if_pos rfl]
  exact takeTag_eq_ok

/-- The tag is taken in as a field, and every other member is set aside. -/
theorem foldlM_take_eq_ok {members : List (String × Tree)} {opened opened' : Opened} :
    members.foldlM (Opened.take setting) opened = .ok opened' ↔
      Met (decodeVariant setting) opened.variant (under Variant.tagField members) opened'.variant ∧
        opened'.others =
          (members.filter (·.1 != Variant.tagField)).reverse ++ opened.others := by
  induction members generalizing opened with
  | nil =>
      rw [foldlM_nil_eq_ok, Tree.under_nil, met_nil_iff]
      obtain ⟨v, others⟩ := opened
      obtain ⟨v', others'⟩ := opened'
      simp [eq_comm]
  | cons m members ih =>
      obtain ⟨key, t⟩ := m
      simp only [foldlM_cons_eq_ok, ih]
      by_cases hk : key = Variant.tagField
      · subst hk
        simp only [take_tag_eq_ok, Tree.under_cons_self, met_cons_iff]
        constructor
        · rintro ⟨_, ⟨hn, v, hv, rfl⟩, h₁, h₂⟩
          exact ⟨⟨hn, v, hv, h₁⟩, by simpa using h₂⟩
        · rintro ⟨⟨hn, v, hv, h₁⟩, h₂⟩
          exact ⟨_, ⟨hn, v, hv, rfl⟩, h₁, by simpa using h₂⟩
      · simp [Opened.take, hk, Opened.takeOther]

theorem splitTag_object_eq_ok {members : List (String × Tree)} {v : Variant} {body : Body} :
    splitTag setting (.object members) = .ok (v, body) ↔
      ∃ t, under Variant.tagField members = [t] ∧ decodeVariant setting t = .ok v ∧
        body = .members (members.filter (·.1 != Variant.tagField)) := by
  simp only [splitTag, bind_eq_ok, foldlM_take_eq_ok]
  constructor
  · rintro ⟨⟨_ | v', others⟩, ⟨hm, rfl⟩, hclose⟩
    · cases hclose
    · cases hclose
      obtain ⟨t, ht, hv⟩ := met_none_some_iff.mp hm
      exact ⟨t, ht, hv, by simp [Opened.empty]⟩
  · rintro ⟨t, ht, hv, rfl⟩
    refine ⟨⟨some v, _⟩, ⟨met_none_some_iff.mpr ⟨t, ht, hv⟩, rfl⟩, ?_⟩
    simp [Opened.close, Opened.empty]

/-- Setting the other members aside keeps what stands under their keys. -/
theorem under_filter_ne {key k : String} (h : key ≠ k) (members : List (String × Tree)) :
    under key (members.filter (·.1 != k)) = under key members := by
  induction members with
  | nil => rfl
  | cons m members ih =>
      obtain ⟨k', t⟩ := m
      by_cases hk : k' = k
      · subst hk
        rw [List.filter_cons_of_neg (by simp), Tree.under_cons_of_ne (Ne.symm h), ih]
      · rw [List.filter_cons_of_pos (by simpa using hk)]
        by_cases hkey : k' = key
        · subst hkey
          rw [Tree.under_cons_self, Tree.under_cons_self, ih]
        · rw [Tree.under_cons_of_ne hkey, Tree.under_cons_of_ne hkey, ih]

theorem payloadField_ne_tagField (v : Variant) : v.payloadField ≠ Variant.tagField := by
  cases v with
  | ok => decide
  | failure => decide

theorem foldlM_takePayload_eq_ok {codec : Codec α} {field : String}
    {members : List (String × Tree)} {payload payload' : Option α} :
    members.foldlM (takePayload codec field) payload = .ok payload' ↔
      Met (codec.decode .setAside) payload (under field members) payload' := by
  induction members generalizing payload with
  | nil => rw [foldlM_nil_eq_ok, Tree.under_nil, met_nil_iff]
  | cons m members ih =>
      obtain ⟨key, t⟩ := m
      simp only [foldlM_cons_eq_ok, ih]
      by_cases hk : key = field
      · subst hk
        cases payload with
        | none =>
            simp only [takePayload, if_true, map_eq_ok, Tree.under_cons_self, met_cons_iff,
              true_and]
            constructor
            · rintro ⟨_, ⟨a, ha, rfl⟩, h⟩
              exact ⟨a, ha, h⟩
            · rintro ⟨a, ha, h⟩
              exact ⟨_, ⟨a, ha, rfl⟩, h⟩
        | some a => simp [takePayload, met_cons_iff]
      · simp [takePayload, hk]

theorem payloadOf_members_eq_ok {codec : Codec α} {v : Variant} {members : List (String × Tree)}
    {a : α} :
    payloadOf codec v (.members members) = .ok a ↔
      IsPayload codec (under v.payloadField members) a := by
  simp only [payloadOf, Tagged.payloadField_eq, bind_eq_ok, foldlM_takePayload_eq_ok]
  constructor
  · rintro ⟨_ | a', hm, h⟩
    · rw [met_none_none_iff.mp hm]
      cases habs : codec.absent with
      | none => simp [habs] at h
      | some a' =>
          simp only [habs] at h
          cases h
          exact .absent habs
    · cases h
      obtain ⟨t, ht, ha⟩ := met_none_some_iff.mp hm
      rw [ht]
      exact .present ha
  · generalize under v.payloadField members = ts
    intro h
    cases h with
    | present h => exact ⟨_, .once h, rfl⟩
    | absent h => exact ⟨none, .nothing none, by simp [h]⟩

theorem payloadOf_items_eq_ok {codec : Codec α} {v : Variant} {items : List Tree} {a : α} :
    payloadOf codec v (.items items) = .ok a ↔ ∃ t, items = [t] ∧ IsPayload codec [t] a := by
  cases items with
  | nil =>
      constructor
      · intro h
        cases h
      · rintro ⟨_, h, _⟩
        cases h
  | cons t more =>
      simp only [payloadOf, bind_eq_ok]
      constructor
      · rintro ⟨a', ha, h⟩
        cases more with
        | nil => cases h; exact ⟨t, rfl, .present ha⟩
        | cons => cases h
      · rintro ⟨_, h, hp⟩
        cases h
        cases hp with
        | present ha => exact ⟨a, ha, rfl⟩

theorem decodePayload_members_eq_ok {v : Variant} {members : List (String × Tree)}
    {o : Outcome α β} :
    decodePayload values reasons (v, .members members) = .ok o ↔
      HasPayload values reasons v (under v.payloadField members) o := by
  cases v with
  | ok =>
      simp only [decodePayload, map_eq_ok, payloadOf_members_eq_ok]
      constructor
      · rintro ⟨_, h, rfl⟩
        exact .ok h
      · intro h
        cases h with
        | ok h => exact ⟨_, h, rfl⟩
  | failure =>
      simp only [decodePayload, map_eq_ok, payloadOf_members_eq_ok]
      constructor
      · rintro ⟨_, h, rfl⟩
        exact .failure h
      · intro h
        cases h with
        | failure h => exact ⟨_, h, rfl⟩

theorem decodePayload_items_eq_ok {v : Variant} {items : List Tree} {o : Outcome α β} :
    decodePayload values reasons (v, .items items) = .ok o ↔
      ∃ t, items = [t] ∧ HasPayload values reasons v [t] o := by
  cases v with
  | ok =>
      simp only [decodePayload, map_eq_ok, payloadOf_items_eq_ok]
      constructor
      · rintro ⟨a, ⟨t, ht, h⟩, rfl⟩
        exact ⟨t, ht, .ok h⟩
      · rintro ⟨t, ht, h⟩
        cases h with
        | ok h => exact ⟨_, ⟨t, ht, h⟩, rfl⟩
  | failure =>
      simp only [decodePayload, map_eq_ok, payloadOf_items_eq_ok]
      constructor
      · rintro ⟨b, ⟨t, ht, h⟩, rfl⟩
        exact ⟨t, ht, .failure h⟩
      · rintro ⟨t, ht, h⟩
        cases h with
        | failure h => exact ⟨_, ⟨t, ht, h⟩, rfl⟩

/-- **The grammar of outcomes.** -/
theorem outcome_decode_eq_ok {t : Tree} {o : Outcome α β} :
    (Codec.outcome values reasons).decode setting t = .ok o ↔
      OutcomeForm values reasons setting t o := by
  simp only [Codec.outcome, bind_eq_ok, Prod.exists]
  cases t with
  | object members =>
      simp only [splitTag_object_eq_ok]
      constructor
      · rintro ⟨v, _, ⟨t, ht, hv, rfl⟩, h⟩
        rw [decodePayload_members_eq_ok, under_filter_ne (payloadField_ne_tagField v)] at h
        exact .object ht hv h
      · intro h
        cases h with
        | object ht hv h =>
            refine ⟨_, _, ⟨_, ht, hv, rfl⟩, ?_⟩
            rw [decodePayload_members_eq_ok, under_filter_ne (payloadField_ne_tagField _)]
            exact h
  | array items =>
      cases items with
      | nil =>
          constructor
          · rintro ⟨_, _, h, _⟩
            cases h
          · intro h
            cases h
      | cons t items =>
          simp only [splitTag, bind_eq_ok, pure_eq_ok]
          constructor
          · rintro ⟨_, _, ⟨v, hv, h⟩, hbody⟩
            cases h
            obtain ⟨u, rfl, hp⟩ := decodePayload_items_eq_ok.mp hbody
            exact .array hv hp
          · intro h
            cases h with
            | array hv hp =>
                exact ⟨_, _, ⟨_, hv, rfl⟩, decodePayload_items_eq_ok.mpr ⟨_, rfl, hp⟩⟩
  | null | boolean _ | number _ | string _ =>
      constructor
      · rintro ⟨_, _, h, _⟩
        cases h
      · intro h
        cases h

end

end Intake.Wire
