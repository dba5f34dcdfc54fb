import Intake.Proofs.Text.Utf8

/-!
# Parts of an octet string

An octet string is taken apart from its beginning.  Where the octets of a character stand, these are
the next part.  Where none do, the next part is ill-formed: it is the longest one that is still the
beginning of the octets of some character, and a single octet where no character begins with that.

This says which parts there are without a machine.  The machine finds them (`parts_iff`), so that
it shows an ill-formed part as one replacement character, and accepts the encodings of texts and
nothing else as UTF-8 (`strict?_eq_some`).

* `Parts`: how an octet string is taken apart.
* `parts_iff`: the decoder takes it apart in this way, and there is no other.
* `decode_eq_map_some_iff`: no part is ill-formed in the encodings of texts only.
* `strict?_eq_some`, `readsAs_iff`: the two readings of an octet string as text.
-/

namespace Intake.Text.Utf8

/-! ### Parts -/

/-- The octets are the beginning of those of some character. -/
def Begins (part : List UInt8) : Prop := ∃ c, part <+: String.utf8EncodeChar c

/-- No character stands at the front of the octets `part ++ rest`, and `part` is what is taken
away from them as ill-formed. -/
structure IllFormed (part rest : List UInt8) : Prop where
  noCharacter : ∀ c, ¬ String.utf8EncodeChar c <+: part ++ rest
  begins : part ≠ [] ∧ Begins part ∨ ∃ octet, part = [octet]
  maximal : ∀ more, more ≠ [] → more <+: rest → ¬ Begins (part ++ more)

/-- How an octet string is taken apart: its characters in turn, and `none` for each ill-formed
part. -/
inductive Parts : List UInt8 → Output → Prop
  | nil : Parts [] []
  | character (c : Char) {rest : List UInt8} {out : Output} (h : Parts rest out) :
      Parts (String.utf8EncodeChar c ++ rest) (some c :: out)
  | illFormed {part rest : List UInt8} {out : Output} (hp : IllFormed part rest)
      (h : Parts rest out) : Parts (part ++ rest) (none :: out)

/-! ### What the machine tells about parts -/

theorem run_within_ne_nil (later bits low high : Nat) (octets : List UInt8) :
    (State.within later bits low high).run octets ≠ [] := by
  induction octets generalizing later bits low high with
  | nil => exact List.cons_ne_nil _ _
  | cons octet octets ih =>
      by_cases hin : low ≤ octet.toNat ∧ octet.toNat ≤ high
      · rw [run_cons]
        cases later with
        | zero =>
            rw [State.step, if_pos hin]
            exact List.cons_ne_nil _ _
        | succ later =>
            rw [State.step, if_pos hin]
            exact ih _ _ _ _
      · rw [run_within_of_not_continues hin]
        exact List.cons_ne_nil _ _

theorem eq_nil_of_run {octets : List UInt8} (h : State.boundary.run octets = []) : octets = [] := by
  cases octets with
  | nil => rfl
  | cons octet octets =>
      rcases lead_cases octet.toNat with ⟨_, hl⟩ | hl | ⟨s, hs⟩
      · rw [run_boundary_cons, hl] at h
        cases h
      · rw [run_boundary_cons, hl] at h
        cases h
      · obtain ⟨later, bits, low, high, rfl⟩ := hs.exists_within
        rw [run_of_opens hs] at h
        exact absurd h (run_within_ne_nil later bits low high octets)

/-- Octets that can be made into one character are the beginning of those of the character. -/
theorem begins_of_run {part more : List UInt8} {c : Char}
    (h : State.boundary.run (part ++ more) = [some c]) : Begins part := by
  obtain ⟨rest, heq, hnil⟩ := eq_append_of_run h
  rw [eq_nil_of_run hnil.symm, List.append_nil] at heq
  exact ⟨c, more, heq⟩

/-- Octets that are decoded as ill-formed, whatever follows, begin no character. -/
theorem not_begins_of_run {part : List UInt8}
    (h : ∀ behind, ∃ out, State.boundary.run (part ++ behind) = none :: out) : ¬ Begins part := by
  rintro ⟨c, more, henc⟩
  obtain ⟨out, hout⟩ := h more
  have hrun := run_utf8EncodeChar c []
  rw [List.append_nil, ← henc, hout] at hrun
  cases hrun

theorem noCharacter_of_run {octets : List UInt8} {out : Output}
    (h : State.boundary.run octets = none :: out) (c : Char) :
    ¬ String.utf8EncodeChar c <+: octets := by
  rintro ⟨rest, rfl⟩
  rw [run_utf8EncodeChar] at h
  cases h

/-- An open sequence can become a character. -/
theorem exists_completion {later bits low high : Nat}
    (hs : (State.within later bits low high).Sound) :
    ∃ more c, (State.within later bits low high).run more = [some c] := by
  obtain ⟨hlow, hle, hhigh⟩ := hs
  have hdiv : (bits * 64 + (low - 0x80)) * 64 ^ later / 64 ^ later = bits * 64 + (low - 0x80) :=
    Nat.mul_div_cancel _ (Nat.pow_pos (by decide))
  obtain ⟨hbits, hnext⟩ := (div_pow_eq_iff (by omega)).mp hdiv
  have hn : Continues later bits low high ((bits * 64 + (low - 0x80)) * 64 ^ later) :=
    ⟨hbits, by omega, by omega⟩
  exact ⟨_, _, run_continuation hn []⟩

/-- An open sequence that breaks off does so before the first octet that cannot continue it. -/
theorem exists_part_of_run {later bits low high : Nat}
    (hs : (State.within later bits low high).Sound) {octets : List UInt8} {out : Output}
    (h : (State.within later bits low high).run octets = none :: out) :
    ∃ part rest, octets = part ++ rest ∧ out = State.boundary.run rest ∧
      (∃ more c, (State.within later bits low high).run (part ++ more) = [some c]) ∧
      ∀ more, more ≠ [] → more <+: rest → ∀ behind, ∃ out,
        (State.within later bits low high).run (part ++ more ++ behind) = none :: out := by
  induction octets generalizing later bits low high with
  | nil =>
      cases h
      refine ⟨[], [], rfl, rfl, exists_completion hs, ?_⟩
      intro more hne hprefix
      exact absurd (List.prefix_nil.mp hprefix) hne
  | cons octet octets ih =>
      by_cases hin : low ≤ octet.toNat ∧ octet.toNat ≤ high
      · rw [run_cons] at h
        cases later with
        | zero =>
            rw [State.step, if_pos hin] at h
            cases h
        | succ later =>
            have hs' := hs.step octet.toNat
            rw [State.step, if_pos hin] at h hs'
            obtain ⟨part, rest, rfl, hout, ⟨more, c, hmore⟩, hmax⟩ := ih hs' h
            have hrun : ∀ octets, (State.within (later + 1) bits low high).run (octet :: octets) =
                (State.within later (bits * 64 + (octet.toNat - 0x80)) 0x80 0xBF).run octets := by
              intro octets
              rw [run_cons, State.step, if_pos hin]
              rfl
            refine ⟨octet :: part, rest, rfl, hout, ⟨more, c, ?_⟩, ?_⟩
            · rw [List.cons_append, hrun, hmore]
            · intro more hne hprefix behind
              obtain ⟨out, hout⟩ := hmax more hne hprefix behind
              exact ⟨out, by rw [List.cons_append, List.cons_append, hrun, hout]⟩
      · rw [run_within_of_not_continues hin] at h
        obtain ⟨-, rfl⟩ := List.cons.inj h
        refine ⟨[], octet :: octets, rfl, rfl, exists_completion hs, ?_⟩
        intro more hne hprefix behind
        obtain ⟨first, more, rfl⟩ := List.exists_cons_of_ne_nil hne
        obtain ⟨rfl, -⟩ := List.cons_prefix_cons.mp hprefix
        exact ⟨_, run_within_of_not_continues hin (more ++ behind)⟩

/-- **Ill-formed parts.**  What is decoded as ill-formed is an ill-formed part. -/
theorem illFormed_of_run {octets : List UInt8} {out : Output}
    (h : State.boundary.run octets = none :: out) :
    ∃ part rest, octets = part ++ rest ∧ IllFormed part rest ∧ out = State.boundary.run rest := by
  have hno := noCharacter_of_run h
  cases octets with
  | nil => cases h
  | cons octet octets =>
      rcases lead_cases octet.toNat with ⟨_, hl⟩ | hl | ⟨s, hs⟩
      · rw [run_boundary_cons, hl] at h
        cases h
      -- no character begins with the octet
      · rw [run_boundary_cons, hl] at h
        cases h
        refine ⟨[octet], octets, rfl, ⟨hno, Or.inr ⟨octet, rfl⟩, ?_⟩, rfl⟩
        intro more _ _
        refine not_begins_of_run fun behind => ⟨State.boundary.run (more ++ behind), ?_⟩
        rw [List.append_assoc, List.cons_append, run_boundary_cons, hl]
        rfl
      -- the octet begins a sequence, which breaks off
      · obtain ⟨later, bits, low, high, rfl⟩ := hs.exists_within
        rw [run_of_opens hs] at h
        obtain ⟨part, rest, rfl, rfl, ⟨more, c, hmore⟩, hmax⟩ := exists_part_of_run hs.sound h
        refine ⟨octet :: part, rest, rfl, ⟨hno, Or.inl ⟨List.cons_ne_nil _ _, ?_⟩, ?_⟩, rfl⟩
        · have hrun : State.boundary.run (octet :: part ++ more) = [some c] := by
            rw [List.cons_append, run_of_opens hs, hmore]
          exact begins_of_run hrun
        · intro more hne hprefix
          refine not_begins_of_run fun behind => ?_
          rw [List.cons_append, List.cons_append, run_of_opens hs]
          exact hmax more hne hprefix behind

/-! ### The decoder and the parts -/

theorem parts_decode (octets : List UInt8) : Parts octets (decode octets) := by
  rw [decode]
  generalize hout : State.boundary.run octets = out
  induction out generalizing octets with
  | nil =>
      rw [eq_nil_of_run hout]
      exact .nil
  | cons part? out ih =>
      cases part? with
      | some c =>
          obtain ⟨rest, rfl, rfl⟩ := eq_append_of_run hout
          exact .character c (ih rest rfl)
      | none =>
          obtain ⟨part, rest, rfl, hp, rfl⟩ := illFormed_of_run hout
          exact .illFormed hp (ih rest rfl)

theorem IllFormed.ne_nil {part rest : List UInt8} (h : IllFormed part rest) : part ≠ [] := by
  rcases h.begins with ⟨hne, -⟩ | ⟨octet, rfl⟩
  · exact hne
  · exact List.cons_ne_nil _ _

/-- Of two ill-formed parts in the same place, neither goes on behind the other. -/
theorem IllFormed.not_longer {part more rest : List UInt8} (h : IllFormed part (more ++ rest))
    (h' : IllFormed (part ++ more) rest) : more = [] := by
  refine Classical.byContradiction fun hne => ?_
  rcases h'.begins with ⟨-, hb⟩ | ⟨octet, heq⟩
  · exact h.maximal more hne (List.prefix_append more rest) hb
  · have hlen := congrArg List.length heq
    rw [List.length_append, List.length_singleton] at hlen
    have hpart := List.length_pos_iff.mpr h.ne_nil
    have hmore := List.length_pos_iff.mpr hne
    omega

theorem IllFormed.unique {part part' rest rest' : List UInt8} (h : IllFormed part rest)
    (h' : IllFormed part' rest') (heq : part ++ rest = part' ++ rest') : rest = rest' := by
  rcases List.append_eq_append_iff.mp heq with ⟨more, rfl, rfl⟩ | ⟨more, rfl, rfl⟩
  · rw [h.not_longer h', List.nil_append]
  · rw [h'.not_longer h, List.nil_append]

/-- An ill-formed part is decoded as one. -/
theorem run_illFormed {part rest : List UInt8} (h : IllFormed part rest) :
    State.boundary.run (part ++ rest) = none :: State.boundary.run rest := by
  cases hrun : State.boundary.run (part ++ rest) with
  | nil => exact absurd (List.append_eq_nil_iff.mp (eq_nil_of_run hrun)).1 h.ne_nil
  | cons part? out =>
      cases part? with
      | some c =>
          obtain ⟨rest', heq, -⟩ := eq_append_of_run hrun
          exact absurd ⟨rest', heq.symm⟩ (h.noCharacter c)
      | none =>
          obtain ⟨part', rest', heq, h', rfl⟩ := illFormed_of_run hrun
          rw [h.unique h' heq]

/-- **The decoder takes an octet string apart**, and there is no other way to do so. -/
theorem parts_iff {octets : List UInt8} {out : Output} : Parts octets out ↔ out = decode octets := by
  constructor
  · intro h
    induction h with
    | nil => rfl
    | character c _ ih => rw [ih, decode, decode, run_utf8EncodeChar]
    | illFormed hp _ ih => rw [ih, decode, decode, run_illFormed hp]
  · rintro rfl
    exact parts_decode octets

/-! ### Text -/

theorem decode_flatMap_append (cs : List Char) (rest : List UInt8) :
    decode (cs.flatMap String.utf8EncodeChar ++ rest) = cs.map some ++ decode rest := by
  induction cs with
  | nil => rfl
  | cons c cs ih =>
      rw [List.flatMap_cons, List.append_assoc, decode, run_utf8EncodeChar, ← decode, ih]
      rfl

/-- **Well-formed octets.**  No part is ill-formed in the octets of characters, and only there. -/
theorem decode_eq_map_some_iff {octets : List UInt8} {cs : List Char} :
    decode octets = cs.map some ↔ octets = cs.flatMap String.utf8EncodeChar := by
  constructor
  · intro h
    induction cs generalizing octets with
    | nil => exact eq_nil_of_run h
    | cons c cs ih =>
        obtain ⟨rest, rfl, hrest⟩ := eq_append_of_run h
        rw [List.flatMap_cons, ih hrest.symm]
  · rintro rfl
    have happ := decode_flatMap_append cs []
    rwa [List.append_nil, show decode [] = [] from rfl, List.append_nil] at happ

theorem mapM_id_eq_some {α : Type} {options : List (Option α)} {as : List α} :
    options.mapM id = some as ↔ options = as.map some := by
  constructor
  · intro h
    induction options generalizing as with
    | nil =>
        cases h
        rfl
    | cons option options ih =>
        simp only [List.mapM_cons, Option.bind_eq_bind, Option.bind_eq_some_iff] at h
        obtain ⟨a, ha, more, hmore, h⟩ := h
        cases h
        rw [ih hmore, List.map_cons, ← ha, id]
  · rintro rfl
    induction as with
    | nil => rfl
    | cons a as ih => rw [List.map_cons, List.mapM_cons, ih]; rfl

/-- **Reading strictly.**  What is accepted as UTF-8 is the encoding of a text, which is the text
read. -/
theorem strict?_eq_some {octets : List UInt8} {text : String} :
    strict? octets = some text ↔ encode text = octets := by
  rw [strict?, Option.map_eq_some_iff]
  constructor
  · rintro ⟨cs, hcs, rfl⟩
    rw [mapM_id_eq_some, decode_eq_map_some_iff] at hcs
    rw [encode, String.toList_ofList, hcs]
  · rintro rfl
    refine ⟨text.toList, ?_, String.ofList_toList⟩
    rw [mapM_id_eq_some, decode_eq_map_some_iff, encode]

theorem strict?_eq_none {octets : List UInt8} :
    strict? octets = none ↔ ∀ text, encode text ≠ octets := by
  simp only [Option.eq_none_iff_forall_ne_some, ne_eq, strict?_eq_some]

/-- The text that octets are read as: their characters, and U+FFFD for each ill-formed part. -/
def ReadsAs (octets : List UInt8) (text : String) : Prop :=
  ∃ out, Parts octets out ∧ text.toList = out.map (·.getD '\uFFFD')

/-- **Reading with replacements.** -/
theorem readsAs_iff {octets : List UInt8} {text : String} :
    ReadsAs octets text ↔ text = lossy octets := by
  simp only [ReadsAs, parts_iff, exists_eq_left]
  rw [lossy, ← String.toList_inj, String.toList_ofList]

end Intake.Text.Utf8
