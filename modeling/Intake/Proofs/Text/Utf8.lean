import Intake.Text.Utf8
import Mathlib.Algebra.Group.Nat.Defs

/-!
# Characters in octets

A character is encoded as one octet below 80, or as a lead octet and the continuation octets of its
last bits.  The machine of the decoder takes such octets back into the character, and completes no
character from other octets.

* `continuation`: the continuation octets of a number.
* `Opens`: the lead octets of sequences.
* `run_within_eq_some`: what a sequence still needs to become a character.
* `run_utf8EncodeChar`: the octets of a character are decoded as that character, whatever follows.
* `eq_append_of_run`: where a character is decoded first, its octets come first.
* `run_append_of_starts`: an octet that is no continuation octet starts afresh.
-/

namespace Intake.Text.Utf8

/-! ### Octets of a character -/

/-- The continuation octets of the last bits of a number, six bits in each. -/
def continuation : Nat → Nat → List UInt8
  | 0, _ => []
  | k + 1, n => UInt8.ofNat (n / 64 ^ k % 64 + 0x80) :: continuation k n

theorem utf8EncodeChar_one {c : Char} (h : c.toNat < 0x80) :
    String.utf8EncodeChar c = [UInt8.ofNat c.toNat] := by
  rw [String.utf8EncodeChar]
  simp only [Char.toNat_val]
  rw [if_pos (by omega)]

theorem utf8EncodeChar_two {c : Char} (h : 0x80 ≤ c.toNat) (h' : c.toNat < 0x800) :
    String.utf8EncodeChar c = UInt8.ofNat (c.toNat / 64 + 0xC0) :: continuation 1 c.toNat := by
  rw [String.utf8EncodeChar]
  simp only [Char.toNat_val, continuation, Nat.pow_zero, Nat.div_one]
  rw [if_neg (by omega), if_pos (by omega), Nat.mod_eq_of_lt (by omega : c.toNat / 64 < 32)]

theorem utf8EncodeChar_three {c : Char} (h : 0x800 ≤ c.toNat) (h' : c.toNat < 0x10000) :
    String.utf8EncodeChar c = UInt8.ofNat (c.toNat / 4096 + 0xE0) :: continuation 2 c.toNat := by
  rw [String.utf8EncodeChar]
  simp only [Char.toNat_val, continuation, Nat.reducePow, Nat.div_one]
  rw [if_neg (by omega), if_neg (by omega), if_pos (by omega),
    Nat.mod_eq_of_lt (by omega : c.toNat / 4096 < 16)]

theorem toNat_lt (c : Char) : c.toNat < 0x110000 := by
  rcases c.valid with h | h
  · exact Nat.lt_trans h (by decide)
  · exact h.2

theorem utf8EncodeChar_four {c : Char} (h : 0x10000 ≤ c.toNat) :
    String.utf8EncodeChar c = UInt8.ofNat (c.toNat / 262144 + 0xF0) :: continuation 3 c.toNat := by
  have hlt := toNat_lt c
  rw [String.utf8EncodeChar]
  simp only [Char.toNat_val, continuation, Nat.reducePow, Nat.div_one]
  rw [if_neg (by omega), if_neg (by omega), if_neg (by omega),
    Nat.mod_eq_of_lt (by omega : c.toNat / 262144 < 8)]

/-! ### Sequences that are open -/

/-- A number whose first bits are those read so far, and whose next octet may come next. -/
structure Continues (later bits low high n : Nat) : Prop where
  bits_eq : n / 64 ^ (later + 1) = bits
  low_le : low ≤ n / 64 ^ later % 64 + 0x80
  le_high : n / 64 ^ later % 64 + 0x80 ≤ high

theorem toNat_continuation (n k : Nat) :
    (UInt8.ofNat (n / 64 ^ k % 64 + 0x80)).toNat = n / 64 ^ k % 64 + 0x80 := by
  rw [UInt8.toNat_ofNat', Nat.mod_eq_of_lt]
  have hlt := Nat.mod_lt (n / 64 ^ k) (by decide : 64 > 0)
  omega

/-- The bits before those of an octet, and those of the octet. -/
theorem div_pow_eq_iff {n k bits low : Nat} (h : low < 64) :
    n / 64 ^ k = bits * 64 + low ↔ n / 64 ^ (k + 1) = bits ∧ n / 64 ^ k % 64 = low := by
  rw [Nat.pow_succ, ← Nat.div_div_eq_div_mul]
  omega

/-- The octet that continues an open sequence is the first of its continuation octets. -/
theorem step_continues {later bits low high n : Nat} (h : Continues later bits low high n) :
    (State.within later bits low high).step (n / 64 ^ later % 64 + 0x80) =
      match later with
      | 0 => ([some (Char.ofNat n)], .boundary)
      | later + 1 => ([], .within later (n / 64 ^ (later + 1)) 0x80 0xBF) := by
  have hbits := (div_pow_eq_iff (Nat.mod_lt _ (by decide))).mpr ⟨h.bits_eq, rfl⟩
  cases later with
  | zero =>
      rw [State.step, if_pos ⟨h.low_le, h.le_high⟩, Nat.add_sub_cancel, ← hbits, Nat.pow_zero,
        Nat.div_one]
  | succ later =>
      rw [State.step, if_pos ⟨h.low_le, h.le_high⟩, Nat.add_sub_cancel, ← hbits]

theorem run_continuation {later bits low high n : Nat} (h : Continues later bits low high n)
    (rest : List UInt8) :
    (State.within later bits low high).run (continuation (later + 1) n ++ rest) =
      some (Char.ofNat n) :: State.boundary.run rest := by
  induction later generalizing bits low high with
  | zero =>
      rw [continuation, List.cons_append, State.run, toNat_continuation, step_continues h]
      rfl
  | succ later ih =>
      rw [continuation, List.cons_append, State.run, toNat_continuation, step_continues h]
      refine ih ⟨rfl, ?_, ?_⟩
      · omega
      · have hlt := Nat.mod_lt (n / 64 ^ later) (by decide : 64 > 0)
        omega

/-- A number whose first bits are those of a sequence and its next octet continues the
sequence. -/
theorem continues_of_octet {later bits low high n : Nat} {octet : UInt8} (hlow : 0x80 ≤ low)
    (hhigh : high ≤ 0xBF) (hin : low ≤ octet.toNat ∧ octet.toNat ≤ high)
    (hn : n / 64 ^ later = bits * 64 + (octet.toNat - 0x80)) :
    Continues later bits low high n ∧
      continuation (later + 1) n = octet :: continuation later n := by
  obtain ⟨hbits, hoctet⟩ := (div_pow_eq_iff (by omega)).mp hn
  have heq : n / 64 ^ later % 64 + 0x80 = octet.toNat := by omega
  refine ⟨⟨hbits, heq ▸ hin.1, heq ▸ hin.2⟩, ?_⟩
  rw [continuation, heq, UInt8.ofNat_toNat]

/-- **Open sequences.**  An open sequence becomes a character where the octets go on with the
continuation octets of a number that it may become. -/
theorem run_within_eq_some {later bits low high : Nat} (hlow : 0x80 ≤ low) (hhigh : high ≤ 0xBF)
    {octets : List UInt8} {c : Char} {out : Output} :
    (State.within later bits low high).run octets = some c :: out ↔
      ∃ n rest, Continues later bits low high n ∧ octets = continuation (later + 1) n ++ rest ∧
        c = Char.ofNat n ∧ out = State.boundary.run rest := by
  constructor
  · intro h
    induction later generalizing bits low high octets with
    | zero =>
        cases octets with
        | nil => cases h
        | cons octet octets =>
            rw [State.run, State.step] at h
            split at h
            next hin =>
              simp only [List.cons_append, List.nil_append, List.cons.injEq,
                Option.some.injEq] at h
              obtain ⟨rfl, rfl⟩ := h
              have hn : (bits * 64 + (octet.toNat - 0x80)) / 64 ^ 0 =
                  bits * 64 + (octet.toNat - 0x80) := Nat.div_one _
              obtain ⟨hn', hc⟩ := continues_of_octet hlow hhigh hin hn
              exact ⟨_, octets, hn', by rw [hc]; rfl, rfl, rfl⟩
            next => cases h
    | succ later ih =>
        cases octets with
        | nil => cases h
        | cons octet octets =>
            rw [State.run, State.step] at h
            split at h
            next hin =>
              obtain ⟨n, rest, hn, rfl, rfl, rfl⟩ := ih (Nat.le_refl _) (Nat.le_refl _) h
              obtain ⟨hn', hc⟩ := continues_of_octet hlow hhigh hin hn.bits_eq
              exact ⟨n, rest, hn', by rw [hc]; rfl, rfl, rfl⟩
            next => cases h
  · rintro ⟨n, rest, hn, rfl, rfl, rfl⟩
    exact run_continuation hn rest

/-! ### Lead octets -/

/-- The lead octets of sequences, with the sequences that they open. -/
inductive Opens (octet : Nat) : State → Prop
  | two (h : 0xC2 ≤ octet) (h' : octet < 0xE0) : Opens octet (.within 0 (octet - 0xC0) 0x80 0xBF)
  | three (h : 0xE1 ≤ octet) (h' : octet < 0xF0) (hne : octet ≠ 0xED) :
      Opens octet (.within 1 (octet - 0xE0) 0x80 0xBF)
  | afterE0 (h : octet = 0xE0) : Opens octet (.within 1 0 0xA0 0xBF)
  | afterED (h : octet = 0xED) : Opens octet (.within 1 0xD 0x80 0x9F)
  | four (h : 0xF1 ≤ octet) (h' : octet < 0xF4) : Opens octet (.within 2 (octet - 0xF0) 0x80 0xBF)
  | afterF0 (h : octet = 0xF0) : Opens octet (.within 2 0 0x90 0xBF)
  | afterF4 (h : octet = 0xF4) : Opens octet (.within 2 4 0x80 0x8F)

theorem Opens.lead_eq {octet : Nat} {s : State} (h : Opens octet s) : lead octet = ([], s) := by
  cases h with
  | two h h' => rw [lead, if_neg (by omega), if_neg (by omega), if_pos h']
  | three h h' hne =>
      rw [lead, if_neg (by omega), if_neg (by omega), if_neg (by omega), if_neg (by omega),
        if_neg hne, if_pos h']
  | afterE0 h => rw [h]; rfl
  | afterED h => rw [h]; rfl
  | four h h' =>
      rw [lead, if_neg (by omega), if_neg (by omega), if_neg (by omega), if_neg (by omega),
        if_neg (by omega), if_neg (by omega), if_neg (by omega), if_pos h']
  | afterF0 h => rw [h]; rfl
  | afterF4 h => rw [h]; rfl

theorem Opens.exists_within {octet : Nat} {s : State} (h : Opens octet s) :
    ∃ later bits low high, s = .within later bits low high := by
  cases h <;> exact ⟨_, _, _, _, rfl⟩

theorem lead_of_invalid {octet : Nat} (h : 0x80 ≤ octet)
    (h' : octet < 0xC2 ∨ 0xF4 < octet) : lead octet = ([none], .boundary) := by
  rw [lead, if_neg (by omega)]
  rcases h' with h' | h'
  · rw [if_pos h']
  · rw [if_neg (by omega), if_neg (by omega), if_neg (by omega), if_neg (by omega),
      if_neg (by omega), if_neg (by omega), if_neg (by omega), if_neg (by omega)]

/-- Between two characters an octet is a character, opens a sequence, or is ill-formed. -/
theorem lead_cases (octet : Nat) :
    (octet < 0x80 ∧ lead octet = ([some (Char.ofNat octet)], .boundary)) ∨
      lead octet = ([none], .boundary) ∨ ∃ s, Opens octet s := by
  rcases Nat.lt_or_ge octet 0x80 with hone | hone
  · exact Or.inl ⟨hone, if_pos hone⟩
  refine Or.inr ?_
  by_cases hinvalid : octet < 0xC2 ∨ 0xF4 < octet
  · exact Or.inl (lead_of_invalid hone hinvalid)
  refine Or.inr ?_
  by_cases he0 : octet = 0xE0
  · exact ⟨_, .afterE0 he0⟩
  by_cases hed : octet = 0xED
  · exact ⟨_, .afterED hed⟩
  by_cases hf0 : octet = 0xF0
  · exact ⟨_, .afterF0 hf0⟩
  by_cases hf4 : octet = 0xF4
  · exact ⟨_, .afterF4 hf4⟩
  rcases Nat.lt_or_ge octet 0xE0 with htwo | htwo
  · exact ⟨_, .two (by omega) htwo⟩
  rcases Nat.lt_or_ge octet 0xF0 with hthree | hthree
  · exact ⟨_, .three (by omega) hthree hed⟩
  · exact ⟨_, .four (by omega) (by omega)⟩

/-- The ranges of an open sequence hold continuation octets only. -/
def State.Sound : State → Prop
  | boundary => True
  | within _ _ low high => 0x80 ≤ low ∧ low ≤ high ∧ high ≤ 0xBF

theorem Opens.sound {octet : Nat} {s : State} (h : Opens octet s) : s.Sound := by
  cases h <;> exact ⟨by decide, by decide, by decide⟩

theorem sound_lead (octet : Nat) : (lead octet).2.Sound := by
  rcases lead_cases octet with ⟨_, hl⟩ | hl | ⟨s, hs⟩
  · rw [hl]
    trivial
  · rw [hl]
    trivial
  · rw [hs.lead_eq]
    exact hs.sound

theorem State.Sound.step {s : State} (h : s.Sound) (octet : Nat) : (s.step octet).2.Sound := by
  cases s with
  | boundary => exact sound_lead octet
  | within later bits low high =>
      cases later with
      | zero =>
          rw [State.step]
          split
          · trivial
          · exact sound_lead octet
      | succ later =>
          rw [State.step]
          split
          · exact ⟨Nat.le_refl _, by decide, Nat.le_refl _⟩
          · exact sound_lead octet

theorem toNat_ofNat_lead {n m : Nat} (h : n + m < 256) : (UInt8.ofNat (n + m)).toNat = n + m := by
  rw [UInt8.toNat_ofNat', Nat.mod_eq_of_lt h]

/-- The characters of more than one octet start with a lead octet, and are what may become of it. -/
theorem exists_opens {c : Char} (h : 0x80 ≤ c.toNat) :
    ∃ (octet : UInt8) (later bits low high : Nat),
      Opens octet.toNat (.within later bits low high) ∧ Continues later bits low high c.toNat ∧
        String.utf8EncodeChar c = octet :: continuation (later + 1) c.toNat := by
  have hlt := toNat_lt c
  by_cases htwo : c.toNat < 0x800
  · have hoctet := toNat_ofNat_lead (by omega : c.toNat / 64 + 0xC0 < 256)
    refine ⟨_, 0, _, 0x80, 0xBF, .two ?_ ?_, ⟨?_, ?_, ?_⟩, utf8EncodeChar_two h htwo⟩ <;> omega
  by_cases hthree : c.toNat < 0x10000
  · have henc := utf8EncodeChar_three (by omega) hthree
    have hoctet := toNat_ofNat_lead (by omega : c.toNat / 4096 + 0xE0 < 256)
    -- shorter numbers and surrogates are left out of the ranges after E0 and ED
    by_cases he0 : c.toNat / 4096 = 0
    · exact ⟨_, 1, 0, 0xA0, 0xBF, .afterE0 (by omega), ⟨by omega, by omega, by omega⟩, henc⟩
    by_cases hed : c.toNat / 4096 = 0xD
    · have hvalid : c.toNat < 0xD800 := by
        rcases c.valid with hv | hv
        · exact hv
        · have : c.toNat < 0xE000 := by omega
          exact absurd hv.1 (by simp only [Char.toNat_val]; omega)
      exact ⟨_, 1, 0xD, 0x80, 0x9F, .afterED (by omega), ⟨by omega, by omega, by omega⟩, henc⟩
    refine ⟨_, 1, _, 0x80, 0xBF, .three ?_ ?_ ?_, ⟨?_, ?_, ?_⟩, henc⟩ <;> omega
  · have henc := utf8EncodeChar_four (by omega : 0x10000 ≤ c.toNat)
    have hoctet := toNat_ofNat_lead (by omega : c.toNat / 262144 + 0xF0 < 256)
    -- shorter numbers and those above 10FFFF are left out of the ranges after F0 and F4
    by_cases hf0 : c.toNat / 262144 = 0
    · exact ⟨_, 2, 0, 0x90, 0xBF, .afterF0 (by omega), ⟨by omega, by omega, by omega⟩, henc⟩
    by_cases hf4 : c.toNat / 262144 = 4
    · exact ⟨_, 2, 4, 0x80, 0x8F, .afterF4 (by omega), ⟨by omega, by omega, by omega⟩, henc⟩
    refine ⟨_, 2, _, 0x80, 0xBF, .four ?_ ?_, ⟨?_, ?_, ?_⟩, henc⟩ <;> omega

/-- What may become of a lead octet is a character that starts with it. -/
theorem Opens.utf8EncodeChar_eq {octet : UInt8} {later bits low high n : Nat}
    (h : Opens octet.toNat (.within later bits low high))
    (hn : Continues later bits low high n) :
    String.utf8EncodeChar (Char.ofNat n) = octet :: continuation (later + 1) n := by
  obtain ⟨hbits, hlow, hhigh⟩ := hn
  have htoNat : ∀ h : n.isValidChar, (Char.ofNat n).toNat = n := fun h => by
    rw [Char.ofNat, dif_pos h]
    rfl
  have hoctet : ∀ m, m = octet.toNat → UInt8.ofNat m = octet := by
    rintro _ rfl
    exact UInt8.ofNat_toNat
  have hlt := octet.toNat_lt
  cases h with
  | two h h' =>
      have hv := htoNat (Or.inl (by omega))
      rw [utf8EncodeChar_two (by omega) (by omega), hv, hoctet _ (by omega)]
  | three h h' hne =>
      have hv := htoNat (by rw [Nat.isValidChar]; omega)
      rw [utf8EncodeChar_three (by omega) (by omega), hv, hoctet _ (by omega)]
  | afterE0 h =>
      have hv := htoNat (Or.inl (by omega))
      rw [utf8EncodeChar_three (by omega) (by omega), hv, hoctet _ (by omega)]
  | afterED h =>
      have hv := htoNat (Or.inl (by omega))
      rw [utf8EncodeChar_three (by omega) (by omega), hv, hoctet _ (by omega)]
  | four h h' =>
      have hv := htoNat (Or.inr (by omega))
      rw [utf8EncodeChar_four (by omega), hv, hoctet _ (by omega)]
  | afterF0 h =>
      have hv := htoNat (Or.inr (by omega))
      rw [utf8EncodeChar_four (by omega), hv, hoctet _ (by omega)]
  | afterF4 h =>
      have hv := htoNat (Or.inr (by omega))
      rw [utf8EncodeChar_four (by omega), hv, hoctet _ (by omega)]

/-! ### Characters -/

theorem run_cons (s : State) (octet : UInt8) (octets : List UInt8) :
    s.run (octet :: octets) = (s.step octet.toNat).1 ++ (s.step octet.toNat).2.run octets := rfl

theorem run_boundary_cons (octet : UInt8) (octets : List UInt8) :
    State.boundary.run (octet :: octets) =
      (lead octet.toNat).1 ++ (lead octet.toNat).2.run octets := rfl

theorem run_of_opens {octet : UInt8} {s : State} (h : Opens octet.toNat s) (octets : List UInt8) :
    State.boundary.run (octet :: octets) = s.run octets := by
  rw [run_boundary_cons, h.lead_eq, List.nil_append]

/-- **Decoding a character.**  The octets of a character are decoded as that character, whatever
follows. -/
theorem run_utf8EncodeChar (c : Char) (rest : List UInt8) :
    State.boundary.run (String.utf8EncodeChar c ++ rest) = some c :: State.boundary.run rest := by
  by_cases h : c.toNat < 0x80
  · have htoNat : (UInt8.ofNat c.toNat).toNat = c.toNat := by
      rw [UInt8.toNat_ofNat', Nat.mod_eq_of_lt (by omega)]
    rw [utf8EncodeChar_one h, List.cons_append, List.nil_append, run_boundary_cons, htoNat, lead,
      if_pos h, Char.ofNat_toNat]
    rfl
  · obtain ⟨octet, later, bits, low, high, ho, hc, henc⟩ := exists_opens (Nat.le_of_not_lt h)
    rw [henc, List.cons_append, run_of_opens ho, run_continuation hc, Char.ofNat_toNat]

/-- **Only its octets.**  Where a character is decoded first, its octets come first. -/
theorem eq_append_of_run {octets : List UInt8} {c : Char} {out : Output}
    (h : State.boundary.run octets = some c :: out) :
    ∃ rest, octets = String.utf8EncodeChar c ++ rest ∧ out = State.boundary.run rest := by
  cases octets with
  | nil => cases h
  | cons octet octets =>
      rcases lead_cases octet.toNat with ⟨hlt, hl⟩ | hl | ⟨s, hs⟩
      · simp only [run_boundary_cons, hl, List.cons_append, List.nil_append, List.cons.injEq,
          Option.some.injEq] at h
        obtain ⟨rfl, rfl⟩ := h
        have htoNat : (Char.ofNat octet.toNat).toNat = octet.toNat := by
          rw [Char.ofNat, dif_pos (Or.inl (by omega))]
          rfl
        refine ⟨octets, ?_, rfl⟩
        rw [utf8EncodeChar_one (by omega), htoNat, UInt8.ofNat_toNat]
        rfl
      · rw [run_boundary_cons, hl] at h
        cases h
      · obtain ⟨later, bits, low, high, rfl⟩ := hs.exists_within
        have hsound := hs.sound
        rw [run_of_opens hs] at h
        obtain ⟨n, rest, hn, rfl, rfl, rfl⟩ := (run_within_eq_some hsound.1 hsound.2.2).mp h
        refine ⟨rest, ?_, rfl⟩
        rw [hs.utf8EncodeChar_eq hn]
        rfl

/-! ### Starting afresh -/

/-- An octet out of range breaks an open sequence off, and starts afresh. -/
theorem run_within_of_not_continues {later bits low high : Nat} {octet : UInt8}
    (h : ¬ (low ≤ octet.toNat ∧ octet.toNat ≤ high)) (octets : List UInt8) :
    (State.within later bits low high).run (octet :: octets) =
      none :: State.boundary.run (octet :: octets) := by
  rw [run_cons]
  cases later with
  | zero => rw [State.step, if_neg h]; rfl
  | succ later => rw [State.step, if_neg h]; rfl

/-- **An octet that is no continuation octet starts afresh.**  What comes before it is decoded as if
nothing came after, and what comes after as if nothing came before. -/
theorem run_append_of_starts {s : State} (hs : s.Sound) {octet : UInt8}
    (ho : octet.toNat < 0x80 ∨ 0xC0 ≤ octet.toNat) (octets rest : List UInt8) :
    s.run (octets ++ octet :: rest) = s.run octets ++ State.boundary.run (octet :: rest) := by
  induction octets generalizing s with
  | nil =>
      cases s with
      | boundary => rfl
      | within later bits low high =>
          have hout : ¬ (low ≤ octet.toNat ∧ octet.toNat ≤ high) := by
            obtain ⟨hlow, -, hhigh⟩ := hs
            omega
          rw [List.nil_append, run_within_of_not_continues hout]
          rfl
  | cons first octets ih =>
      rw [List.cons_append, run_cons, run_cons, ih (hs.step first.toNat), List.append_assoc]

theorem decode_append_of_starts {octet : UInt8} (ho : octet.toNat < 0x80 ∨ 0xC0 ≤ octet.toNat)
    (octets rest : List UInt8) :
    decode (octets ++ octet :: rest) = decode octets ++ decode (octet :: rest) :=
  run_append_of_starts (s := .boundary) trivial ho octets rest

end Intake.Text.Utf8
