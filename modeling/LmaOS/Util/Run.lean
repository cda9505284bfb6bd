/-
  Guarded runs of a deterministic machine.

  `step : σ → α → σ` takes an action in a state, and `ok s a` says that the action `a` may
  be taken in `s`. `runFrom step s as` is the state after the actions `as`, and
  `Allowed step ok s as` says that every one of them was allowed where it was taken.

  * `Allowed.invariant`: what holds at the start and is kept by every allowed step holds at the
    end of every allowed run.
  * `Allowed.steps`: what every allowed step from an invariant state does, every step of an allowed
    run does.
  * `Allowed.congr_steps`: two properties that agree on such steps agree on allowed runs.
-/
namespace LmaOS.Util

variable {σ α : Type}

/-- The state after the actions `as`. -/
def runFrom (step : σ → α → σ) (s : σ) (as : List α) : σ := as.foldl step s

/-- Every action of the run is allowed in the state it is taken in. -/
def Allowed (step : σ → α → σ) (ok : σ → α → Prop) : σ → List α → Prop
  | _, [] => True
  | s, a :: as => ok s a ∧ Allowed step ok (step s a) as

instance Allowed.decidable (step : σ → α → σ) (ok : σ → α → Prop) [∀ s a, Decidable (ok s a)] :
    ∀ s as, Decidable (Allowed step ok s as)
  | _, [] => isTrue trivial
  | s, a :: as =>
    have := Allowed.decidable step ok (step s a) as
    inferInstanceAs (Decidable (ok s a ∧ Allowed step ok (step s a) as))

@[simp] theorem runFrom_nil (step : σ → α → σ) (s : σ) : runFrom step s [] = s := rfl

@[simp] theorem runFrom_cons (step : σ → α → σ) (s : σ) (a : α) (as : List α) :
    runFrom step s (a :: as) = runFrom step (step s a) as := rfl

section Allowed

variable {step : σ → α → σ} {ok : σ → α → Prop}

@[simp] theorem allowed_nil (s : σ) : Allowed step ok s [] := trivial

theorem allowed_cons {s : σ} {a : α} {as : List α} :
    Allowed step ok s (a :: as) ↔ ok s a ∧ Allowed step ok (step s a) as := Iff.rfl

theorem allowed_append {s : σ} {as bs : List α} :
    Allowed step ok s (as ++ bs) ↔
      Allowed step ok s as ∧ Allowed step ok (runFrom step s as) bs := by
  induction as generalizing s with
  | nil => simp
  | cons a as ih =>
      rw [List.cons_append, allowed_cons, allowed_cons, ih, runFrom_cons, and_assoc]

theorem allowed_concat {s : σ} {as : List α} {a : α} :
    Allowed step ok s (as ++ [a]) ↔ Allowed step ok s as ∧ ok (runFrom step s as) a := by
  rw [allowed_append, allowed_cons]
  simp

/-- A guard on the actions alone. -/
theorem allowed_forall {P : α → Prop} {as : List α} (h : ∀ a ∈ as, P a) (s : σ) :
    Allowed step (fun _ a => P a) s as := by
  induction as generalizing s with
  | nil => trivial
  | cons a as ih =>
      rw [List.forall_mem_cons] at h
      exact ⟨h.1, ih h.2 _⟩

/-- Without a guard every run is allowed. -/
theorem allowed_true (s : σ) (as : List α) : Allowed step (fun _ _ => True) s as :=
  allowed_forall (fun _ _ => trivial) s

/-- The invariant rule. -/
theorem Allowed.invariant (Inv : σ → Prop)
    (hstep : ∀ s a, Inv s → ok s a → Inv (step s a)) {s : σ} {as : List α}
    (h : Allowed step ok s as) (hs : Inv s) : Inv (runFrom step s as) := by
  induction as generalizing s with
  | nil => exact hs
  | cons a as ih => exact ih h.2 (hstep s a hs h.1)

/-- What one allowed step from an invariant state does, every step of a run does. -/
theorem Allowed.steps (Inv : σ → Prop) {P : σ → α → Prop}
    (hstep : ∀ s a, Inv s → ok s a → Inv (step s a))
    (hP : ∀ s a, Inv s → ok s a → P s a) {s : σ} {as : List α} (h : Allowed step ok s as)
    (hs : Inv s) : Allowed step P s as := by
  induction as generalizing s with
  | nil => trivial
  | cons a as ih => exact ⟨hP s a hs h.1, ih h.2 (hstep s a hs h.1)⟩

/-- Two properties of steps that agree on the allowed steps from invariant states agree on
    allowed runs. The invariant need only survive steps that have the property. -/
theorem Allowed.congr_steps (Inv : σ → Prop) {P Q : σ → α → Prop}
    (hstep : ∀ s a, Inv s → ok s a → P s a → Inv (step s a))
    (hPQ : ∀ s a, Inv s → ok s a → (P s a ↔ Q s a)) {s : σ} {as : List α}
    (h : Allowed step ok s as) (hs : Inv s) : Allowed step P s as ↔ Allowed step Q s as := by
  induction as generalizing s with
  | nil => exact Iff.rfl
  | cons a as ih =>
      rw [allowed_cons, allowed_cons, ← hPQ s a hs h.1]
      exact and_congr_right fun hP => ih h.2 (hstep s a hs h.1 hP)

end Allowed

end LmaOS.Util
