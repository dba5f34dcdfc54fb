import Intake.Outcome
import Mathlib.Data.List.Basic

/-!
# Pipelines on outcomes

A pipeline is a list of steps, each of which transforms the values of the outcomes before it, or
their reasons, or goes on with another operation.  The types of values and reasons may change from
step to step.  A pipeline on outcomes is the same as one on the results of `Except`, and one may
change over between the two behind any step.

Which steps are applied is seen when each of them leaves a note: the notes are those of the steps
whose variant is the one that they meet, each once and in order.

* `Step`, `Pipeline`: steps, and pipelines of them.
* `Pipeline.run`, `Pipeline.runResult`, `Pipeline.runNoted`: a pipeline on outcomes, on results, and
  with notes.
* `Pipeline.toExcept_run`: outcomes and results.
* `Pipeline.runNoted_eq`: the notes that a pipeline leaves.
* `Pipeline.run_failure`, `Pipeline.applied_failure`: what happens behind a failure.
* `Pipeline.runs_as_result`: all of it.
-/

namespace Intake.Outcome

/-! ### Steps -/

/-- A step of a pipeline on the outcomes of two types. -/
inductive Step (α β : Type) : Type → Type → Type 1 where
  | map {γ : Type} (f : α → γ) : Step α β γ β
  | mapFailure {γ : Type} (f : β → γ) : Step α β α γ
  | andThen {γ : Type} (f : α → Outcome γ β) : Step α β γ β

namespace Step
variable {α β γ δ : Type}

/-- The variant that a step transforms. -/
def variant : Step α β γ δ → Variant
  | map _ => .ok
  | mapFailure _ => .failure
  | andThen _ => .ok

/-- The step on an outcome. -/
def run : Step α β γ δ → Outcome α β → Outcome γ δ
  | map f => Outcome.map f
  | mapFailure f => Outcome.mapFailure f
  | andThen f => Outcome.andThen f

/-- The step on a result. -/
def runResult : Step α β γ δ → Except β α → Except δ γ
  | map f => Except.map f
  | mapFailure f => Except.mapError f
  | andThen f => fun r => r.bind fun a => (f a).toExcept

/-- The step on an outcome; it leaves a note whenever its function is applied. -/
def runNoted {m : Type → Type} [Monad m] (note : m Unit) :
    Step α β γ δ → Outcome α β → m (Outcome γ δ)
  | map f => Outcome.mapM fun a => do note; return f a
  | mapFailure f => Outcome.mapFailureM fun b => do note; return f b
  | andThen f => Outcome.andThenM fun a => do note; return f a

/-- What the step makes of a reason. -/
def reason : Step α β γ δ → β → δ
  | map _ => id
  | mapFailure f => f
  | andThen _ => id

/-- A step on outcomes is the same step on results. -/
theorem toExcept_run (step : Step α β γ δ) (o : Outcome α β) :
    (step.run o).toExcept = step.runResult o.toExcept := by
  cases step with
  | map f | mapFailure f | andThen f =>
      cases o with
      | ok value => rfl
      | failure reason => rfl

/-- A failure stays a failure. -/
theorem run_failure (step : Step α β γ δ) (reason : β) :
    step.run (.failure reason) = .failure (step.reason reason) := by
  cases step with
  | map f | mapFailure f | andThen f => rfl

/-- **The notes of a step.**  It leaves one if it meets the variant that it transforms. -/
theorem runNoted_eq {m : Type → Type} [Monad m] [LawfulMonad m] (note : m Unit)
    (step : Step α β γ δ) (o : Outcome α β) :
    step.runNoted note o =
      if step.variant = o.variant then do note; return step.run o else return step.run o := by
  cases step with
  | map f | mapFailure f =>
      cases o with
      | ok value | failure reason => simp [runNoted, run, variant, Outcome.variant, Outcome.mapM,
          Outcome.mapFailureM, Outcome.map, Outcome.mapFailure]
  | andThen f =>
      cases o with
      | ok value | failure reason => rfl

end Step

/-! ### Pipelines -/

/-- Steps in sequence, from the outcomes of two types to those of two others. -/
inductive Pipeline : Type → Type → Type → Type → Type 1 where
  | nil {α β : Type} : Pipeline α β α β
  | cons {α β γ δ κ ι : Type} (step : Step α β γ δ) (rest : Pipeline γ δ κ ι) : Pipeline α β κ ι

namespace Pipeline

/-- The steps of a pipeline, and then those of another one. -/
def append {α β γ δ κ ι : Type} : Pipeline α β γ δ → Pipeline γ δ κ ι → Pipeline α β κ ι
  | nil, q => q
  | cons step rest, q => cons step (rest.append q)

/-- The pipeline on an outcome. -/
def run {α β γ δ : Type} : Pipeline α β γ δ → Outcome α β → Outcome γ δ
  | nil, o => o
  | cons step rest, o => rest.run (step.run o)

/-- The pipeline on a result. -/
def runResult {α β γ δ : Type} : Pipeline α β γ δ → Except β α → Except δ γ
  | nil, r => r
  | cons step rest, r => rest.runResult (step.runResult r)

/-- The pipeline on an outcome; every step leaves its own note whenever its function is applied. -/
def runNoted {α β γ δ : Type} {m : Type → Type} [Monad m] (note : Nat → m Unit) :
    Pipeline α β γ δ → Outcome α β → m (Outcome γ δ)
  | nil, o => return o
  | cons step rest, o => do
    let o ← step.runNoted (note 0) o
    rest.runNoted (fun i => note (i + 1)) o

/-- What the steps make of a reason, one after the other. -/
def reason {α β γ δ : Type} : Pipeline α β γ δ → β → δ
  | nil, b => b
  | cons step rest, b => rest.reason (step.reason b)

/-- The variants that the steps transform. -/
def transforms {α β γ δ : Type} : Pipeline α β γ δ → List Variant
  | nil => []
  | cons step rest => step.variant :: rest.transforms

/-- The variants that the steps meet. -/
def meets {α β γ δ : Type} : Pipeline α β γ δ → Outcome α β → List Variant
  | nil, _ => []
  | cons step rest, o => o.variant :: rest.meets (step.run o)

/-- How many steps there are. -/
def length {α β γ δ : Type} (p : Pipeline α β γ δ) : Nat := p.transforms.length

/-- The places of the steps that meet what they transform. -/
def applied {α β γ δ : Type} (p : Pipeline α β γ δ) (o : Outcome α β) : List Nat :=
  (List.range p.length).filter fun i => p.transforms[i]? = (p.meets o)[i]?

/-- The places of the steps that transform a variant. -/
def places {α β γ δ : Type} (variant : Variant) (p : Pipeline α β γ δ) : List Nat :=
  (List.range p.length).filter fun i => p.transforms[i]? = some variant

section
variable {α β γ δ κ ι : Type}

/-! ### Outcomes and results -/

theorem run_append (p : Pipeline α β γ δ) (q : Pipeline γ δ κ ι) (o : Outcome α β) :
    (p.append q).run o = q.run (p.run o) := by
  induction p with
  | nil => rfl
  | cons step rest ih => exact ih q (step.run o)

/-- **Outcomes and results.**  A pipeline on outcomes is the same pipeline on results. -/
theorem toExcept_run (p : Pipeline α β γ δ) (o : Outcome α β) :
    (p.run o).toExcept = p.runResult o.toExcept := by
  induction p with
  | nil => rfl
  | cons step rest ih => rw [run, ih, step.toExcept_run, runResult]

theorem ofExcept_runResult (p : Pipeline α β γ δ) (o : Outcome α β) :
    ofExcept (p.runResult o.toExcept) = p.run o := by
  rw [← toExcept_run, ofExcept_toExcept]

/-! ### Notes -/

theorem applied_cons {step : Step α β γ δ} {rest : Pipeline γ δ κ ι} {o : Outcome α β} :
    (cons step rest).applied o =
      (if step.variant = o.variant then [0] else []) ++
        (rest.applied (step.run o)).map (· + 1) := by
  rw [applied, length, transforms, meets, List.length_cons, List.range_succ_eq_map,
    List.filter_cons, List.filter_map]
  by_cases h : step.variant = o.variant
  · simp [h]
    rfl
  · simp [h]
    rfl

/-- **The notes of a pipeline.**  They are those of the steps that meet what they transform. -/
theorem runNoted_eq {m : Type → Type} [Monad m] [LawfulMonad m] (note : Nat → m Unit)
    (p : Pipeline α β γ δ) (o : Outcome α β) :
    p.runNoted note o = do
      (p.applied o).forM note
      return p.run o := by
  -- behind the first step, the places are one less
  induction p generalizing note with
  | nil => simp [runNoted, applied, length, transforms, run]
  | cons step rest ih =>
      rw [runNoted, step.runNoted_eq, applied_cons]
      by_cases h : step.variant = o.variant
      · simp [h, ih, run]
      · simp [h, ih, run]

theorem meets_append (p : Pipeline α β γ δ) (q : Pipeline γ δ κ ι) (o : Outcome α β) :
    (p.append q).meets o = p.meets o ++ q.meets (p.run o) := by
  induction p with
  | nil => rfl
  | cons step rest ih => rw [append, meets, ih, meets, run, List.cons_append]

theorem applied_append (p : Pipeline α β γ δ) (q : Pipeline γ δ κ ι) (o : Outcome α β) :
    (p.append q).applied o = p.applied o ++ (q.applied (p.run o)).map (p.length + ·) := by
  induction p with
  | nil =>
      change q.applied o = [] ++ (q.applied o).map (0 + ·)
      simp
  | cons step rest ih =>
      have hplace : (· + 1) ∘ (rest.length + ·) = ((cons step rest).length + ·) := by
        funext i
        change rest.length + i + 1 = rest.length + 1 + i
        omega
      rw [append, applied_cons, applied_cons, ih, List.map_append, List.map_map, hplace,
        List.append_assoc, run]

/-! ### Behind a failure -/

theorem run_failure (p : Pipeline α β γ δ) (reason : β) :
    p.run (.failure reason) = .failure (p.reason reason) := by
  induction p with
  | nil => rfl
  | cons step rest ih => rw [run, step.run_failure, ih, Pipeline.reason]

theorem meets_failure (p : Pipeline α β γ δ) (reason : β) :
    p.meets (.failure reason) = List.replicate p.length .failure := by
  induction p with
  | nil => rfl
  | cons step rest ih =>
      rw [meets, step.run_failure, ih]
      rfl

/-- **Behind a failure.**  Only the steps that transform reasons are applied. -/
theorem applied_failure (p : Pipeline α β γ δ) (reason : β) :
    p.applied (.failure reason) = p.places .failure := by
  rw [applied, meets_failure, places]
  refine List.filter_congr fun i hi => ?_
  rw [List.getElem?_replicate, if_pos (List.mem_range.mp hi)]

end

/-- **Pipelines on outcomes are pipelines on results.**  For every pipeline `p`, continued by
another one `q`: converting what `p` gives is running it on what is converted, converting back
changes nothing, and `q` may go on with either.  If every function leaves a note when it is applied,
then the notes of `p` are those of the steps that meet the variant which they transform, each once
and in order.  Behind a failure there are only failures: of `q`, the steps that transform reasons
are applied and no others, and the reason is what they make of it one after the other. -/
theorem runs_as_result {α β γ δ κ ι : Type} (p : Pipeline α β γ δ) (q : Pipeline γ δ κ ι)
    (o : Outcome α β) :
    (p.run o).toExcept = p.runResult o.toExcept ∧
    ofExcept (p.runResult o.toExcept) = p.run o ∧
    q.run (ofExcept (p.runResult o.toExcept)) = (p.append q).run o ∧
    q.runResult (p.run o).toExcept = (p.append q).runResult o.toExcept ∧
    (∀ {m : Type → Type} [Monad m] [LawfulMonad m] (note : Nat → m Unit),
      p.runNoted note o = do
        (p.applied o).forM note
        return p.run o) ∧
    (p.append q).meets o = p.meets o ++ q.meets (p.run o) ∧
    ∀ reason, p.run o = .failure reason →
      (p.append q).run o = .failure (q.reason reason) ∧
      (p.append q).applied o = p.applied o ++ (q.places .failure).map (p.length + ·) := by
  refine ⟨p.toExcept_run o, p.ofExcept_runResult o, ?_, ?_, fun note => p.runNoted_eq note o,
    p.meets_append q o, fun reason h => ⟨?_, ?_⟩⟩
  · rw [ofExcept_runResult, run_append]
  · rw [← toExcept_run, ← toExcept_run, run_append]
  · rw [run_append, h, run_failure]
  · rw [applied_append, h, applied_failure]

/-! ### A pipeline that fails on the way -/

/-- Doubles a number, and fails. -/
def failing : Pipeline Nat String String String :=
  cons (.map (· * 2)) (cons (.andThen fun _ => .failure "second") nil)

/-- Makes numbers of texts and of reasons. -/
def measured : Pipeline String String Nat Nat :=
  cons (.map String.length) (cons (.mapFailure String.length) nil)

/-- Writes down the place of a step. -/
def writeDown (i : Nat) : StateM (List Nat) Unit := modify (· ++ [i])

/-- The third step is not applied, and the fourth one transforms the reason. -/
theorem runs_as_result_failing :
    (failing.append measured).run (.ok 21) = .failure 6 ∧
      (failing.append measured).applied (.ok 21) = [0, 1, 3] ∧
      ((failing.append measured).runNoted writeDown (.ok 21)).run [] = (.failure 6, [0, 1, 3]) := by
  have hfailed := (runs_as_result failing measured (.ok 21)).2.2.2.2.2.2 "second" rfl
  have hrun : (failing.append measured).run (.ok 21) = .failure 6 := hfailed.1
  have happlied : (failing.append measured).applied (.ok 21) = [0, 1, 3] :=
    hfailed.2.trans (by decide)
  obtain ⟨-, -, -, -, hnotes, -⟩ := runs_as_result (failing.append measured) nil (.ok 21)
  refine ⟨hrun, happlied, ?_⟩
  rw [hnotes writeDown, happlied, hrun]
  rfl

end Pipeline
end Intake.Outcome
