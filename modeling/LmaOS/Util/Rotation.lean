import Mathlib.Tactic.Common

/-
  Round robin over `n` slots.

  A partial step looks at the current slot, stops if it is empty, and else moves on to the next
  one; it changes which slots are filled by no step. `Rotates` is the rule a step function has to
  satisfy.

  * `exists_slotAfter`: from any slot, every slot comes up within `n` steps.
  * `Rotates.run_eq_none_iff`: a run stops exactly if an empty slot comes up before its end.
  * `Rotates.never_stops_iff`: no run stops exactly if all slots are filled.
-/
namespace LmaOS.Util

variable {n : Nat}

/-- The slot `i` places after `u`. -/
def slotAfter (u : Fin n) (i : Nat) : Fin n :=
  ⟨(u.val + i) % n, Nat.mod_lt _ (Nat.lt_of_le_of_lt (Nat.zero_le _) u.isLt)⟩

@[simp] theorem slotAfter_zero (u : Fin n) : slotAfter u 0 = u :=
  Fin.ext (Nat.mod_eq_of_lt u.isLt)

theorem slotAfter_slotAfter (u : Fin n) (i j : Nat) :
    slotAfter (slotAfter u i) j = slotAfter u (i + j) := by
  refine Fin.ext ?_
  show ((u.val + i) % n + j) % n = (u.val + (i + j)) % n
  rw [Nat.mod_add_mod, Nat.add_assoc]

/-- Every slot comes up within `n` steps. -/
theorem exists_slotAfter (u v : Fin n) : ∃ i, i < n ∧ slotAfter u i = v := by
  have hu := u.isLt
  have hv := v.isLt
  rcases Nat.lt_or_ge v.val u.val with hlt | hle
  · refine ⟨v.val + n - u.val, by omega, Fin.ext ?_⟩
    show (u.val + (v.val + n - u.val)) % n = v.val
    rw [Nat.add_sub_cancel' (by omega), Nat.add_mod_right, Nat.mod_eq_of_lt hv]
  · refine ⟨v.val - u.val, by omega, Fin.ext ?_⟩
    show (u.val + (v.val - u.val)) % n = v.val
    rw [Nat.add_sub_cancel' hle, Nat.mod_eq_of_lt hv]

/-! ## Runs -/

variable {σ α : Type}

/-- The step stops at an empty slot, and otherwise moves on and leaves the slots as they are. -/
structure Rotates (step : σ → α → Option σ) (slot : σ → Fin n) (filled : σ → Fin n → Prop) :
    Prop where
  stops : ∀ s a, step s a = none ↔ ¬ filled s (slot s)
  moves : ∀ s a s', step s a = some s' → slot s' = slotAfter (slot s) 1
  keeps : ∀ s a s', step s a = some s' → ∀ u, filled s' u ↔ filled s u

section Rotates

variable {step : σ → α → Option σ} {slot : σ → Fin n} {filled : σ → Fin n → Prop}

/-- A run stops exactly if an empty slot comes up. -/
theorem Rotates.run_eq_none_iff (h : Rotates step slot filled) (s : σ) (as : List α) :
    as.foldlM step s = none ↔ ∃ i, i < as.length ∧ ¬ filled s (slotAfter (slot s) i) := by
  induction as generalizing s with
  | nil => simp
  | cons a as ih =>
    rw [List.foldlM_cons, List.length_cons]
    cases hstep : step s a with
    | none =>
      refine iff_of_true rfl ⟨0, Nat.succ_pos _, ?_⟩
      rw [slotAfter_zero]
      exact (h.stops s a).mp hstep
    | some t =>
      have hnow : filled s (slot s) :=
        not_not.mp fun he => Option.some_ne_none t (hstep.symm.trans ((h.stops s a).mpr he))
      show as.foldlM step t = none ↔ _
      rw [ih]
      simp only [h.keeps s a t hstep, h.moves s a t hstep, slotAfter_slotAfter]
      constructor
      · rintro ⟨i, hi, he⟩
        exact ⟨1 + i, by omega, he⟩
      · rintro ⟨i, hi, he⟩
        cases i with
        | zero => rw [slotAfter_zero] at he; exact absurd hnow he
        | succ i => exact ⟨i, by omega, by rwa [Nat.add_comm 1 i]⟩

/-- No run stops exactly if all slots are filled. -/
theorem Rotates.never_stops_iff [Inhabited α] (h : Rotates step slot filled) (s : σ) :
    (∀ as : List α, as.foldlM step s ≠ none) ↔ ∀ u, filled s u := by
  constructor
  · intro hall u
    obtain ⟨i, _, hi⟩ := exists_slotAfter (slot s) u
    by_contra he
    refine hall (List.replicate (i + 1) default) ((h.run_eq_none_iff s _).mpr ⟨i, ?_, hi ▸ he⟩)
    rw [List.length_replicate]
    exact Nat.lt_succ_self i
  · intro hall as hnone
    obtain ⟨i, _, he⟩ := (h.run_eq_none_iff s as).mp hnone
    exact he (hall _)

end Rotates

end LmaOS.Util
