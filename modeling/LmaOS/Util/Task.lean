/-
  Computations on a state that may loop, and what they ensure.

  A `Task σ α` takes a state to a result and a new state. `none` means that it did not end: a
  call in it is still waiting, or one of its loops ran through all the rounds it was allowed.
  `loop` is a loop without a bound of its own; the number of rounds is handed down to every loop.

  * `Ends`: the task ends this way for every number of rounds from some number on.
  * `Ensures`: it ends, and the result and the state it leaves meet a condition. The rules are
    `Ensures.pure`, `Ensures.bind`, `Ensures.map`, `Ensures.of`, `Ensures.mono`, and for loops
    `Ensures.loop_indexed` and `Ensures.loop`, which take an invariant and a variant.
  * `Hangs`: it does not end, however many rounds it is allowed. `Hangs.loop` takes an invariant
    that every round keeps without ending the loop.
-/
namespace LmaOS.Util

def Task (σ α : Type) : Type := Nat → σ → Option (α × σ)

namespace Task

variable {σ α β : Type}

instance : Monad (Task σ) where
  pure a := fun _ s => some (a, s)
  bind t f := fun n s => (t n s).bind fun r => f r.1 n r.2

/-- A single action: `none` where it waits. -/
def of (f : σ → Option (α × σ)) : Task σ α := fun _ s => f s

/-- `k` rounds of `body` at most, each from the value the one before left. -/
def rounds (body : α → Task σ (α ⊕ β)) : Nat → α → Task σ β
  | 0, _ => fun _ _ => none
  | k + 1, a => fun n s => (body a n s).bind fun r =>
      match r.1 with
      | .inl a' => rounds body k a' n r.2
      | .inr b => some (b, r.2)

/-- Rounds of `body` until one of them ends the loop (`Sum.inr`). -/
def loop (body : α → Task σ (α ⊕ β)) (a : α) : Task σ β := fun n => rounds body n a n

/-- The task `k` times in a row. -/
def times (t : Task σ α) : Nat → Task σ (List α)
  | 0 => pure []
  | k + 1 => do
    let a ← t
    let as ← times t k
    pure (a :: as)

/-- The task ends with `a` in `s'`, with enough rounds. -/
def Ends (t : Task σ α) (s : σ) (a : α) (s' : σ) : Prop :=
  ∃ m, ∀ n, m ≤ n → t n s = some (a, s')

/-- The task ends, with enough rounds, in a result and a state that meet `Q`. -/
def Ensures (t : Task σ α) (s : σ) (Q : α → σ → Prop) : Prop :=
  ∃ a s', t.Ends s a s' ∧ Q a s'

def Hangs (t : Task σ α) (s : σ) : Prop := ∀ n, t n s = none

/-! ## How tasks end -/

section Ends

variable {s s' s'' : σ} {a : α} {b : β}

theorem ends_pure (a : α) (s : σ) : (pure a : Task σ α).Ends s a s := ⟨0, fun _ _ => rfl⟩

theorem ends_of {f : σ → Option (α × σ)} (h : f s = some (a, s')) : (of f).Ends s a s' :=
  ⟨0, fun _ _ => h⟩

theorem Ends.bind {t : Task σ α} {f : α → Task σ β} (h : t.Ends s a s')
    (h' : (f a).Ends s' b s'') : (t >>= f).Ends s b s'' := by
  obtain ⟨m, hm⟩ := h
  obtain ⟨m', hm'⟩ := h'
  refine ⟨max m m', fun n hn => ?_⟩
  show (t n s).bind _ = _
  rw [hm n (Nat.le_trans (Nat.le_max_left _ _) hn)]
  exact hm' n (Nat.le_trans (Nat.le_max_right _ _) hn)

theorem rounds_again {body : α → Task σ (α ⊕ β)} {a' : α} {n k : Nat}
    (h : body a n s = some (.inl a', s')) :
    rounds body (k + 1) a n s = rounds body k a' n s' := by
  show (body a n s).bind _ = _
  rw [h]
  rfl

theorem rounds_done {body : α → Task σ (α ⊕ β)} {n k : Nat}
    (h : body a n s = some (.inr b, s')) : rounds body (k + 1) a n s = some (b, s') := by
  show (body a n s).bind _ = _
  rw [h]
  rfl

end Ends

/-! ## The rules -/

section Rules

variable {s : σ} {Q : α → σ → Prop}

theorem Ensures.pure {a : α} (h : Q a s) : (Pure.pure a : Task σ α).Ensures s Q :=
  ⟨a, s, ends_pure a s, h⟩

theorem Ensures.of {f : σ → Option (α × σ)} {a : α} {s' : σ} (hf : f s = some (a, s'))
    (h : Q a s') : (Task.of f).Ensures s Q :=
  ⟨a, s', ends_of hf, h⟩

theorem Ensures.mono {t : Task σ α} {Q' : α → σ → Prop} (h : t.Ensures s Q)
    (hQ : ∀ a s', Q a s' → Q' a s') : t.Ensures s Q' := by
  obtain ⟨a, s', hends, h⟩ := h
  exact ⟨a, s', hends, hQ a s' h⟩

theorem Ensures.bind {t : Task σ β} {f : β → Task σ α}
    (h : t.Ensures s fun b s' => (f b).Ensures s' Q) : (t >>= f).Ensures s Q := by
  obtain ⟨b, s', hends, a, s'', hends', h⟩ := h
  exact ⟨a, s'', hends.bind hends', h⟩

theorem Ensures.map {t : Task σ β} {f : β → α} (h : t.Ensures s fun b s' => Q (f b) s') :
    (f <$> t).Ensures s Q :=
  .bind (h.mono fun _ _ hQ => .pure hQ)

/-- The loop rule: every round either ends the loop with `Q`, or keeps the invariant and makes its
    index smaller. -/
theorem Ensures.loop_indexed {body : β → Task σ (β ⊕ α)} (Inv : Nat → β → σ → Prop)
    (hround : ∀ i b s, Inv i b s → (body b).Ensures s fun r s' =>
      match r with
      | .inl b' => ∃ i', i' < i ∧ Inv i' b' s'
      | .inr a => Q a s')
    {i : Nat} {b : β} (h : Inv i b s) : (Task.loop body b).Ensures s Q := by
  -- enough rounds for the loop itself, and enough for the loops inside
  have hrounds : ∀ m i b s, Inv i b s → i < m →
      ∃ a s' n₀, (∀ k n, m ≤ k → n₀ ≤ n → rounds body k b n s = some (a, s')) ∧ Q a s' := by
    intro m
    induction m with
    | zero => exact fun i b s _ hlt => absurd hlt (Nat.not_lt_zero _)
    | succ m ih =>
      intro i b s hb hlt
      obtain ⟨r, s', ⟨n₁, hn₁⟩, hr⟩ := hround i b s hb
      cases r with
      | inl b' =>
        obtain ⟨i', hless, hb'⟩ := hr
        obtain ⟨a, s'', n₂, hends, hQ⟩ := ih i' b' s' hb' (by omega)
        refine ⟨a, s'', max n₁ n₂, fun k n hk hn => ?_, hQ⟩
        obtain ⟨k, rfl⟩ : ∃ j, k = j + 1 := ⟨k - 1, by omega⟩
        rw [rounds_again (hn₁ n (by omega))]
        exact hends k n (by omega) (by omega)
      | inr a =>
        refine ⟨a, s', n₁, fun k n hk hn => ?_, hr⟩
        obtain ⟨k, rfl⟩ : ∃ j, k = j + 1 := ⟨k - 1, by omega⟩
        exact rounds_done (hn₁ n hn)
  obtain ⟨a, s', n₀, hends, hQ⟩ := hrounds (i + 1) i b s h (Nat.lt_succ_self i)
  refine ⟨a, s', ⟨max (i + 1) n₀, fun n hn => ?_⟩, hQ⟩
  exact hends n n (by omega) (by omega)

/-- The same with a variant that can be read off the value and the state. -/
theorem Ensures.loop {body : β → Task σ (β ⊕ α)} (Inv : β → σ → Prop) (variant : β → σ → Nat)
    (hround : ∀ b s, Inv b s → (body b).Ensures s fun r s' =>
      match r with
      | .inl b' => Inv b' s' ∧ variant b' s' < variant b s
      | .inr a => Q a s')
    {b : β} (h : Inv b s) : (Task.loop body b).Ensures s Q := by
  refine Ensures.loop_indexed (fun i b s => Inv b s ∧ variant b s = i) ?_ ⟨h, rfl⟩
  rintro i b s ⟨hb, rfl⟩
  refine (hround b s hb).mono fun r s' hr => ?_
  cases r with
  | inl b' => exact ⟨_, hr.2, hr.1, rfl⟩
  | inr a => exact hr

end Rules

/-! ## Loops that do not end -/

section Hangs

variable {s : σ}

theorem Hangs.bind {t : Task σ β} (h : t.Hangs s) (f : β → Task σ α) : (t >>= f).Hangs s :=
  fun n => show (t n s).bind _ = none by rw [h n, Option.bind_none]

theorem Hangs.after {f : σ → Option (β × σ)} {b : β} {s' : σ} {g : β → Task σ α}
    (hf : f s = some (b, s')) (h : (g b).Hangs s') : (Task.of f >>= g).Hangs s :=
  fun n => show (f s).bind _ = none by rw [hf, Option.bind_some]; exact h n

/-- Every round goes on to the next. -/
theorem Hangs.loop {body : β → Task σ (β ⊕ α)} (Inv : β → σ → Prop)
    (hround : ∀ b s, Inv b s → ∀ n, ∃ b' s', body b n s = some (.inl b', s') ∧ Inv b' s')
    {b : β} (h : Inv b s) : (Task.loop body b).Hangs s := by
  have hrounds : ∀ k n b s, Inv b s → rounds body k b n s = none := by
    intro k n
    induction k with
    | zero => exact fun _ _ _ => rfl
    | succ k ih =>
      intro b s hb
      obtain ⟨b', s', hbody, hb'⟩ := hround b s hb n
      rw [rounds_again hbody]
      exact ih b' s' hb'
  exact fun n => hrounds n n b s h

end Hangs

end Task

end LmaOS.Util
