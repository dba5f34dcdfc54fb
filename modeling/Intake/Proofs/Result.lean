/-!
# Results of stages

Readers and decoders are stages composed in `Except`.  The lemmas here open such a composition at
the result it is known to have: a success has gone through every stage, and a failure is that of
the first stage that fails.  They are simplification rules, so that an equation `stages = .ok a`
unfolds into what each stage gave.
-/

namespace Intake
variable {ε δ α β : Type}

@[simp] theorem ok_bind (a : α) (f : α → Except ε β) : (Except.ok a >>= f) = f a := rfl

@[simp] theorem error_bind (e : ε) (f : α → Except ε β) : (Except.error e >>= f) = .error e := rfl

@[simp] theorem pure_eq_ok {a b : α} : (pure a : Except ε α) = .ok b ↔ a = b := by
  simp [pure, Except.pure]

@[simp] theorem bind_eq_ok {x : Except ε α} {f : α → Except ε β} {b : β} :
    (x >>= f) = .ok b ↔ ∃ a, x = .ok a ∧ f a = .ok b := by
  cases x with
  | error e => simp
  | ok a => simp

@[simp] theorem map_eq_ok {x : Except ε α} {f : α → β} {b : β} :
    (f <$> x) = .ok b ↔ ∃ a, x = .ok a ∧ f a = b := by
  cases x with
  | error e => simp [Functor.map, Except.map]
  | ok a => simp [Functor.map, Except.map]

@[simp] theorem ok_mapError (a : α) (f : ε → δ) : (Except.ok a).mapError f = .ok a := rfl

@[simp] theorem error_mapError (e : ε) (f : ε → δ) :
    (Except.error e : Except ε α).mapError f = .error (f e) := rfl

@[simp] theorem mapError_eq_ok {x : Except ε α} {f : ε → δ} {a : α} :
    x.mapError f = .ok a ↔ x = .ok a := by
  cases x with
  | error e => simp
  | ok b => simp

@[simp] theorem mapError_eq_error {x : Except ε α} {f : ε → δ} {e' : δ} :
    x.mapError f = .error e' ↔ ∃ e, x = .error e ∧ f e = e' := by
  cases x with
  | error e => simp
  | ok b => simp

theorem map_eq_error {x : Except ε α} {f : α → β} {e : ε} :
    (f <$> x) = .error e ↔ x = .error e := by
  cases x with
  | error e' => simp [Functor.map, Except.map]
  | ok a => simp [Functor.map, Except.map]

/-- A last stage that does not fail. -/
theorem bind_ok_eq_error {x : Except ε α} {f : α → β} {e : ε} :
    (x >>= fun a => .ok (f a)) = .error e ↔ x = .error e :=
  map_eq_error

/-! ### Lists of stages -/

theorem foldlM_nil_eq_ok {f : β → α → Except ε β} {b b' : β} :
    [].foldlM f b = .ok b' ↔ b = b' := by
  rw [List.foldlM_nil, pure_eq_ok]

theorem foldlM_cons_eq_ok {f : β → α → Except ε β} {a : α} {as : List α} {b b' : β} :
    (a :: as).foldlM f b = .ok b' ↔ ∃ b₁, f b a = .ok b₁ ∧ as.foldlM f b₁ = .ok b' := by
  rw [List.foldlM_cons, bind_eq_ok]

theorem mapM_cons_eq_ok {f : α → Except ε β} {a : α} {as : List α} {bs : List β} :
    (a :: as).mapM f = .ok bs ↔
      ∃ b, f a = .ok b ∧ ∃ bs', as.mapM f = .ok bs' ∧ b :: bs' = bs := by
  simp only [List.mapM_cons, bind_eq_ok, pure_eq_ok]

/-! ### Errors of another kind

Errors may be translated stage by stage or at the end. -/

theorem mapError_bind {x : Except ε α} {f : α → Except ε β} {g : ε → δ} :
    (x >>= f).mapError g = x.mapError g >>= fun a => (f a).mapError g := by
  cases x with
  | error e => rfl
  | ok a => rfl

theorem mapError_map {x : Except ε α} {f : α → β} {g : ε → δ} :
    (f <$> x).mapError g = f <$> x.mapError g := by
  cases x with
  | error e => rfl
  | ok a => rfl

theorem mapError_foldlM {f : β → α → Except ε β} {g : ε → δ} {as : List α} {b : β} :
    (as.foldlM f b).mapError g = as.foldlM (fun b a => (f b a).mapError g) b := by
  induction as generalizing b with
  | nil => rfl
  | cons a as ih =>
      rw [List.foldlM_cons, List.foldlM_cons, mapError_bind]
      exact congrArg _ (funext fun _ => ih)

theorem mapError_mapM {f : α → Except ε β} {g : ε → δ} {as : List α} :
    (as.mapM f).mapError g = as.mapM fun a => (f a).mapError g := by
  induction as with
  | nil => rfl
  | cons a as ih =>
      rw [List.mapM_cons, List.mapM_cons, mapError_bind]
      refine congrArg _ (funext fun _ => ?_)
      rw [mapError_bind, ih]
      rfl

end Intake
