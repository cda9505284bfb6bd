import Mathlib.Data.List.Nodup
import Mathlib.Logic.Function.Basic
import LmaOS.Util.Task

/-
  Singly linked lists in a heap.

  `next : α → Option α` reads the link of a cell. `Linked next p l`: the pointer `p` leads through
  the cells `l`, in this order, to the null pointer. Such a list is unique and visits no cell
  twice, so it has an end.

  `follow next head l` is the pointer one comes to behind the cells `l`: the head, or the link of
  the last of them. `Linked.push`, `Linked.unlink_first` and `Linked.unlink` are the edits: a new
  first cell, and a cell taken out by a store to the pointer before it.

  `ensures_walk` is the rule for a loop that goes from cell to cell.
-/
namespace LmaOS.Util

variable {α : Type}

def Linked (next : α → Option α) : Option α → List α → Prop
  | p, [] => p = none
  | p, a :: l => p = some a ∧ Linked next (next a) l

section Linked

variable {next next' : α → Option α} {p : Option α} {a b : α} {l l' l₁ l₂ : List α}

theorem linked_nil : Linked next p [] ↔ p = none := Iff.rfl

theorem Linked.unique (h : Linked next p l) (h' : Linked next p l') : l' = l := by
  induction l generalizing p l' with
  | nil =>
    cases l' with
    | nil => rfl
    | cons a l' => exact absurd (h.symm.trans h'.1) (Option.some_ne_none a).symm
  | cons a l ih =>
    cases l' with
    | nil => exact absurd (h'.symm.trans h.1) (Option.some_ne_none a).symm
    | cons b l' =>
      obtain rfl : a = b := Option.some.inj (h.1.symm.trans h'.1)
      rw [ih h.2 h'.2]

/-- The links of the list's own cells are all that matters. -/
theorem Linked.congr (h : Linked next p l) (hnext : ∀ a ∈ l, next' a = next a) :
    Linked next' p l := by
  induction l generalizing p with
  | nil => exact h
  | cons a l ih =>
    refine ⟨h.1, ?_⟩
    rw [hnext a List.mem_cons_self]
    exact ih h.2 fun b hb => hnext b (List.mem_cons_of_mem a hb)

/-- From any cell of the list on it is a list. -/
theorem Linked.behind (h : Linked next p (l₁ ++ a :: l₂)) : Linked next (next a) l₂ := by
  induction l₁ generalizing p with
  | nil => exact h.2
  | cons b l₁ ih => exact ih h.2

theorem Linked.nodup (h : Linked next p l) : l.Nodup := by
  induction l generalizing p with
  | nil => exact List.nodup_nil
  | cons a l ih =>
    refine List.nodup_cons.mpr ⟨fun hmem => ?_, ih h.2⟩
    -- behind its second occurrence the same list begins again
    obtain ⟨l₁, l₂, rfl⟩ := List.append_of_mem hmem
    have hlen := congrArg List.length (h.2.unique h.2.behind)
    rw [List.length_append, List.length_cons] at hlen
    omega

/-! ## Edits -/

/-- A cell outside the list becomes its first. -/
theorem Linked.push [DecidableEq α] (h : Linked next p l) (ha : a ∉ l) :
    Linked (Function.update next a p) (some a) (a :: l) := by
  refine ⟨rfl, ?_⟩
  rw [Function.update_self]
  refine h.congr fun b hb => Function.update_of_ne ?_ _ _
  rintro rfl
  exact ha hb

/-- The pointer behind the cells `l`. -/
def follow (next : α → Option α) (head : Option α) : List α → Option α
  | [] => head
  | a :: l => follow next (next a) l

theorem Linked.follow (h : Linked next p (l₁ ++ l₂)) :
    Linked next (follow next p l₁) l₂ := by
  induction l₁ generalizing p with
  | nil => exact h
  | cons a l₁ ih => exact ih h.2

/-- The last cell of `l` has its link behind `l`. -/
theorem follow_concat : follow next p (l ++ [a]) = next a := by
  induction l generalizing p with
  | nil => rfl
  | cons b l ih => exact ih

/-- The cell behind `b` is taken out by a store to the link of `b`. -/
theorem Linked.unlink [DecidableEq α] (h : Linked next p (l₁ ++ b :: a :: l₂)) :
    Linked (Function.update next b (next a)) p (l₁ ++ b :: l₂) := by
  have hnodup := h.nodup
  induction l₁ generalizing p with
  | nil =>
    refine ⟨h.1, ?_⟩
    rw [Function.update_self]
    have hb : b ∉ l₂ := fun hmem =>
      (List.nodup_cons.mp hnodup).1 (List.mem_cons_of_mem a hmem)
    refine h.2.2.congr fun c hc => Function.update_of_ne ?_ _ _
    rintro rfl
    exact hb hc
  | cons c l₁ ih =>
    refine ⟨h.1, ?_⟩
    have hc : c ≠ b := by
      rintro rfl
      exact (List.nodup_cons.mp hnodup).1 (List.mem_append_right l₁ List.mem_cons_self)
    rw [Function.update_of_ne hc]
    exact ih h.2 (List.nodup_cons.mp hnodup).2

end Linked

/-! ## Walks -/

/-- A loop that goes from cell to cell: `Inv l s` holds when the cells `l` are still ahead. -/
theorem ensures_walk {σ β : Type} {body : Option α → Task σ (Option α ⊕ β)} {Q : β → σ → Prop}
    (next : σ → α → Option α) (Inv : List α → σ → Prop)
    (hend : ∀ s, Inv [] s → (body none).Ensures s fun r s' => ∃ b, r = .inr b ∧ Q b s')
    (hcell : ∀ a l s, Inv (a :: l) s → Linked (next s) (next s a) l →
      (body (some a)).Ensures s fun r s' => (∃ b, r = .inr b ∧ Q b s') ∨
        ∃ p, r = .inl p ∧ Linked (next s') p l ∧ Inv l s')
    {p : Option α} {l : List α} {s : σ} (hlinked : Linked (next s) p l) (h : Inv l s) :
    (Task.loop body p).Ensures s Q := by
  refine Task.Ensures.loop_indexed
    (fun i p s => ∃ l, l.length = i ∧ Linked (next s) p l ∧ Inv l s) ?_ ⟨l, rfl, hlinked, h⟩
  rintro i p s ⟨l, rfl, hlinked, h⟩
  cases l with
  | nil =>
    obtain rfl := linked_nil.mp hlinked
    refine (hend s h).mono ?_
    rintro r s' ⟨b, rfl, hQ⟩
    exact hQ
  | cons a l =>
    obtain ⟨rfl, hrest⟩ := hlinked
    refine (hcell a l s h hrest).mono ?_
    rintro r s' (⟨b, rfl, hQ⟩ | ⟨p, rfl, hlinked', h'⟩)
    · exact hQ
    · exact ⟨l.length, Nat.lt_succ_self _, l, rfl, hlinked', h'⟩

end LmaOS.Util
