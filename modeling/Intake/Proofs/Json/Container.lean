import Intake.Json.Container
import Intake.Proofs.Result

/-!
# The elements of a container

`foldElements` reads a container and takes its elements into a state at the same time.  What it
does is told apart here: `Elements` relates a text to the elements in it, whatever becomes of them,
and a fold that is successful has read them and has taken in each of them (`foldElements_eq_ok`).
Two folds that read the same elements can be compared by what they do with them.

* `Elements`: the elements in a text up to the closing bracket.
* `TakesIn`: a step reads an element and takes it into the state.
* `foldElements_eq_ok`: a successful fold, in these two parts.
* `foldElements_of_elements`: a fold over elements that are known, successful or not.
* `Accompanies`, `foldElements_accompanied`: a fold that gets as far as another one.
* `foldRest`: what follows an element.
-/

namespace Intake.Json

/-- Faults of a text are lifted to failures, and successes to the same successes. -/
class LiftsFaults (ε : Type) [MonadLiftT (Except Malformed) (Except ε)] : Prop where
  liftM_eq_ok : ∀ {α : Type} {x : Except Malformed α} {a : α},
    (liftM x : Except ε α) = .ok a ↔ x = .ok a

attribute [simp] LiftsFaults.liftM_eq_ok

/-- A stage that is lifted, and is successful. -/
theorem liftM_bind_of_ok {ε α β : Type} [MonadLiftT (Except Malformed) (Except ε)] [LiftsFaults ε]
    {x : Except Malformed α} {a : α} (h : x = .ok a) (f : α → Except ε β) :
    (liftM x >>= f) = f a := by
  rw [LiftsFaults.liftM_eq_ok.mpr h]
  rfl

instance : LiftsFaults Malformed := ⟨Iff.rfl⟩

/-! ### What follows an element -/

theorem dropBlanks_cons {c : Char} (hc : isBlank c = false) (text : List Char) :
    dropBlanks (c :: text) = c :: text := by
  simp [dropBlanks, hc]

section
variable {σ ε : Type} [MonadLiftT (Except Malformed) (Except ε)]
variable {closing : Char} (step : σ → List Char → Except ε (σ × List Char)) (limit : Nat) (s : σ)

/-- Takes in the elements that follow one, up to the closing bracket. -/
def foldRest (closing : Char) (step : σ → List Char → Except ε (σ × List Char)) (limit : Nat)
    (s : σ) (text : List Char) : Except ε (σ × List Char) := do
  let (another, rest) ← readSeparator closing text
  if another then foldSeparated closing step limit s rest else pure (s, rest)

theorem foldSeparated_succ (text : List Char) :
    foldSeparated closing step (limit + 1) s text =
      step s text >>= fun p => foldRest closing step limit p.1 p.2 := rfl

theorem foldElements_closing (hc : isBlank closing = false) (rest : List Char) :
    foldElements closing step limit s (closing :: rest) = .ok (s, rest) := by
  simp [foldElements, dropBlanks_cons hc]

theorem foldElements_cons {c : Char} (hb : isBlank c = false) (hc : c ≠ closing)
    (text : List Char) :
    foldElements closing step limit s (c :: text) =
      foldSeparated closing step limit s (c :: text) := by
  simp [foldElements, dropBlanks_cons hb, hc]

variable [LiftsFaults ε]

theorem foldRest_of_readSeparator {another : Bool} {text rest : List Char}
    (h : readSeparator closing text = .ok (another, rest)) :
    foldRest closing step limit s text =
      if another then foldSeparated closing step limit s rest else .ok (s, rest) :=
  liftM_bind_of_ok h _

theorem foldRest_closing (hc : isBlank closing = false) (rest : List Char) :
    foldRest closing step limit s (closing :: rest) = .ok (s, rest) := by
  have hsep : readSeparator closing (closing :: rest) = .ok (false, rest) := by
    simp [readSeparator, dropBlanks_cons hc]
  exact foldRest_of_readSeparator step limit s hsep

theorem foldRest_comma (hc : closing ≠ ',') (text : List Char) :
    foldRest closing step limit s (',' :: text) = foldSeparated closing step limit s text := by
  have hsep : readSeparator closing (',' :: text) = .ok (true, text) := by
    simp [readSeparator, dropBlanks_cons (c := ',') rfl, hc.symm]
  exact foldRest_of_readSeparator step limit s hsep

end

/-! ### The elements alone -/

section
variable {α : Type}

/-- One element and those after it, at most `limit` of them, up to the closing bracket. -/
inductive Separated (closing : Char) (item : List Char → Except Malformed (α × List Char)) :
    Nat → List Char → List α → List Char → Prop where
  | last {limit : Nat} {text text₁ rest : List Char} {a : α} (h : item text = .ok (a, text₁))
      (hs : readSeparator closing text₁ = .ok (false, rest)) :
      Separated closing item (limit + 1) text [a] rest
  | more {limit : Nat} {text text₁ text₂ rest : List Char} {a : α} {as : List α}
      (h : item text = .ok (a, text₁)) (hs : readSeparator closing text₁ = .ok (true, text₂))
      (t : Separated closing item limit text₂ as rest) :
      Separated closing item (limit + 1) text (a :: as) rest

theorem Separated.ne_nil {closing : Char} {item : List Char → Except Malformed (α × List Char)}
    {limit : Nat} {text rest : List Char} {as : List α}
    (h : Separated closing item limit text as rest) : as ≠ [] := by
  cases h with
  | last | more => exact List.cons_ne_nil _ _

/-- The elements in a text after the opening bracket, and the text after the closing one. -/
def Elements (closing : Char) (item : List Char → Except Malformed (α × List Char)) (limit : Nat)
    (text : List Char) (as : List α) (rest : List Char) : Prop :=
  (dropBlanks text = closing :: rest ∧ as = []) ∨
    (∃ c tail, dropBlanks text = c :: tail ∧ c ≠ closing) ∧
      Separated closing item limit text as rest

end

/-! ### A fold in two parts -/

section
variable {σ ε δ α : Type} [MonadLiftT (Except Malformed) (Except ε)] [LiftsFaults ε]

/-- The step reads an element and takes it into the state; it fails if either is refused. -/
def TakesIn (item : List Char → Except Malformed (α × List Char)) (take : σ → α → Except δ σ)
    (step : σ → List Char → Except ε (σ × List Char)) : Prop :=
  ∀ s text s' rest, step s text = .ok (s', rest) ↔
    ∃ a, item text = .ok (a, rest) ∧ take s a = .ok s'

theorem foldSeparated_eq_ok {closing : Char} {item : List Char → Except Malformed (α × List Char)}
    {take : σ → α → Except δ σ} {step : σ → List Char → Except ε (σ × List Char)}
    (h : TakesIn item take step) {limit : Nat} {s s' : σ} {text rest : List Char} :
    foldSeparated closing step limit s text = .ok (s', rest) ↔
      ∃ as, Separated closing item limit text as rest ∧ as.foldlM take s = .ok s' := by
  -- the limit counts the elements, on both sides
  induction limit generalizing s text with
  | zero =>
      constructor
      · intro hf
        simp [foldSeparated] at hf
      · rintro ⟨as, hs, -⟩
        cases hs
  | succ limit ih =>
      rw [foldSeparated_succ]
      constructor
      · intro hf
        obtain ⟨⟨s₁, text₁⟩, h₁, hf⟩ := bind_eq_ok.mp hf
        obtain ⟨a, ha, ht⟩ := (h s text s₁ text₁).mp h₁
        obtain ⟨⟨another, text₂⟩, hs, hf⟩ := bind_eq_ok.mp hf
        rw [LiftsFaults.liftM_eq_ok] at hs
        cases another with
        | false =>
            cases hf
            exact ⟨[a], .last ha hs, foldlM_cons_eq_ok.mpr ⟨_, ht, rfl⟩⟩
        | true =>
            obtain ⟨as, hsep, hfold⟩ := ih.mp hf
            exact ⟨a :: as, .more ha hs hsep, foldlM_cons_eq_ok.mpr ⟨_, ht, hfold⟩⟩
      · rintro ⟨as, hsep, hfold⟩
        cases hsep with
        | last ha hs =>
            obtain ⟨s₁, ht, hfold⟩ := foldlM_cons_eq_ok.mp hfold
            obtain rfl := foldlM_nil_eq_ok.mp hfold
            refine bind_eq_ok.mpr ⟨_, (h ..).mpr ⟨_, ha, ht⟩, ?_⟩
            exact bind_eq_ok.mpr ⟨_, LiftsFaults.liftM_eq_ok.mpr hs, rfl⟩
        | more ha hs t =>
            obtain ⟨s₁, ht, hfold⟩ := foldlM_cons_eq_ok.mp hfold
            refine bind_eq_ok.mpr ⟨_, (h ..).mpr ⟨_, ha, ht⟩, ?_⟩
            exact bind_eq_ok.mpr ⟨_, LiftsFaults.liftM_eq_ok.mpr hs, ih.mpr ⟨_, t, hfold⟩⟩

/-- **A fold in two parts.**  A fold is successful exactly if the elements can be read and each of
them can be taken in. -/
theorem foldElements_eq_ok {closing : Char} {item : List Char → Except Malformed (α × List Char)}
    {take : σ → α → Except δ σ} {step : σ → List Char → Except ε (σ × List Char)}
    (h : TakesIn item take step) {limit : Nat} {s s' : σ} {text rest : List Char} :
    foldElements closing step limit s text = .ok (s', rest) ↔
      ∃ as, Elements closing item limit text as rest ∧ as.foldlM take s = .ok s' := by
  unfold foldElements Elements
  cases htext : dropBlanks text with
  | nil => simp
  | cons c tail =>
      by_cases hc : c = closing
      · subst hc
        simp only [if_true, List.cons.injEq, true_and]
        constructor
        · intro hf
          cases hf
          exact ⟨[], Or.inl ⟨rfl, rfl⟩, rfl⟩
        · rintro ⟨as, ⟨rfl, rfl⟩ | ⟨⟨c', tail', ⟨rfl, -⟩, hne⟩, -⟩, hfold⟩
          · cases hfold; rfl
          · exact absurd rfl hne
      · simp [hc, foldSeparated_eq_ok h]

end

/-! ### A fold over elements that were read -/

section
variable {σ ε α : Type} [MonadLiftT (Except Malformed) (Except ε)] [LiftsFaults ε]
  {closing : Char} {item : List Char → Except Malformed (α × List Char)} {take : σ → α → Except ε σ}
  {step : σ → List Char → Except ε (σ × List Char)} {limit : Nat} {text rest : List Char}
  {as : List α}

/-- Where one of the elements is read, the step takes it in, and fails only if it is refused. -/
def TakesInOf (as : List α) (item : List Char → Except Malformed (α × List Char))
    (take : σ → α → Except ε σ) (step : σ → List Char → Except ε (σ × List Char)) : Prop :=
  ∀ s text a rest, a ∈ as → item text = .ok (a, rest) →
    step s text = take s a >>= fun s' => .ok (s', rest)

theorem foldSeparated_of_separated (h : Separated closing item limit text as rest)
    (hstep : TakesInOf as item take step) (s : σ) :
    foldSeparated closing step limit s text =
      as.foldlM take s >>= fun s' => .ok (s', rest) := by
  induction h generalizing s with
  | @last limit _ text₁ rest a h hs =>
      rw [foldSeparated_succ, hstep s _ a text₁ List.mem_cons_self h, List.foldlM_cons, bind_assoc,
        bind_assoc]
      refine congrArg _ (funext fun s' => ?_)
      exact foldRest_of_readSeparator step limit s' hs
  | @more limit _ text₁ text₂ rest a as h hs _ ih =>
      rw [foldSeparated_succ, hstep s _ a text₁ List.mem_cons_self h, List.foldlM_cons, bind_assoc,
        bind_assoc]
      refine congrArg _ (funext fun s' => ?_)
      have hrest := ih (fun s text b rest hb => hstep s text b rest (List.mem_cons_of_mem a hb)) s'
      exact (foldRest_of_readSeparator step limit s' hs).trans hrest

/-- **A fold over elements that were read.**  What becomes of them is decided by taking them in; the
text that is left is known. -/
theorem foldElements_of_elements (h : Elements closing item limit text as rest)
    (hstep : TakesInOf as item take step) (s : σ) :
    foldElements closing step limit s text = as.foldlM take s >>= fun s' => .ok (s', rest) := by
  rcases h with ⟨hd, rfl⟩ | ⟨⟨c, tail, hd, hne⟩, hs⟩
  · rw [foldElements, hd]
    exact if_pos rfl
  · rw [foldElements, hd]
    exact (if_neg hne).trans (foldSeparated_of_separated hs hstep s)

end

/-! ### Two folds over one text -/

section
variable {σ τ ε δ : Type} [MonadLiftT (Except Malformed) (Except ε)] [LiftsFaults ε]
  [MonadLiftT (Except Malformed) (Except δ)] [LiftsFaults δ]
  {closing : Char} {step : σ → List Char → Except ε (σ × List Char)}
  {step' : τ → List Char → Except δ (τ × List Char)} {R : σ → τ → Prop}

/-- From related states, wherever the second step is successful, so is the first one, which leaves
the same text and a related state. -/
def Accompanies (step' : τ → List Char → Except δ (τ × List Char))
    (step : σ → List Char → Except ε (σ × List Char)) (R : σ → τ → Prop) : Prop :=
  ∀ s t text s' rest, R s t → step s text = .ok (s', rest) →
    ∃ t', step' t text = .ok (t', rest) ∧ R s' t'

theorem foldSeparated_accompanied (hstep : Accompanies step' step R) {limit : Nat} {s s' : σ}
    {t : τ} {text rest : List Char} (hR : R s t)
    (h : foldSeparated closing step limit s text = .ok (s', rest)) :
    ∃ t', foldSeparated closing step' limit t text = .ok (t', rest) ∧ R s' t' := by
  induction limit generalizing s t text with
  | zero => simp [foldSeparated] at h
  | succ limit ih =>
      rw [foldSeparated_succ] at h
      obtain ⟨⟨s₁, text₁⟩, hs, h⟩ := bind_eq_ok.mp h
      obtain ⟨t₁, ht, hR₁⟩ := hstep s t text s₁ text₁ hR hs
      obtain ⟨⟨another, text₂⟩, hsep, h⟩ := bind_eq_ok.mp h
      have hsep := LiftsFaults.liftM_eq_ok.mp hsep
      rw [foldSeparated_succ, ht, ok_bind, foldRest_of_readSeparator step' limit t₁ hsep]
      cases another with
      | false =>
          cases h
          exact ⟨t₁, rfl, hR₁⟩
      | true => exact ih hR₁ h

/-- **Two folds over one text.**  A successful fold is accompanied to its end. -/
theorem foldElements_accompanied (hstep : Accompanies step' step R) {limit : Nat} {s s' : σ}
    {t : τ} {text rest : List Char} (hR : R s t)
    (h : foldElements closing step limit s text = .ok (s', rest)) :
    ∃ t', foldElements closing step' limit t text = .ok (t', rest) ∧ R s' t' := by
  unfold foldElements at h ⊢
  cases htext : dropBlanks text with
  | nil => simp [htext] at h
  | cons c tail =>
      simp only [htext] at h ⊢
      split at h
      next hc =>
        cases h
        exact ⟨t, if_pos hc, hR⟩
      next hc =>
        rw [if_neg hc]
        exact foldSeparated_accompanied hstep hR h

end

end Intake.Json
