import Mathlib.Data.List.Nodup
import Mathlib.Logic.Function.Basic
import Mathlib.Tactic.Common

/-
  Families of stacks that share no element, and facts about what lies below an element.

  `Separate s`: no stack of the family `s` holds an element twice and no two share one.
  `Above R l`: every element `x` of the stack `l` (top first) is in the relation `R` to the stack
  below it. Both are kept by pushing a fresh element and by popping.
-/
namespace LmaOS.Util

variable {ι α : Type}

/-- No element occurs twice in the family `s`. -/
structure Separate (s : ι → List α) : Prop where
  nodup : ∀ u, (s u).Nodup
  apart : ∀ u v x, x ∈ s u → x ∈ s v → u = v

theorem separate_nil : Separate (fun _ : ι => ([] : List α)) :=
  ⟨fun _ => List.nodup_nil, fun _ _ _ h => absurd h List.not_mem_nil⟩

section Update

variable [DecidableEq ι] {s : ι → List α} {u : ι} {x : α} {l : List α}

theorem mem_update_push {v : ι} {y : α} (hs : s u = l) :
    y ∈ Function.update s u (x :: l) v ↔ (v = u ∧ y = x) ∨ y ∈ s v := by
  rw [Function.update_apply]
  split
  · subst v; rw [hs, List.mem_cons]; simp
  · rename_i hne; simp [hne]

theorem mem_update_pop {v : ι} {y : α} (hs : s u = x :: l)
    (h : y ∈ Function.update s u l v) : y ∈ s v := by
  rw [Function.update_apply] at h
  split at h
  · subst v; rw [hs]; exact List.mem_cons_of_mem _ h
  · exact h

theorem Separate.push (h : Separate s) (hs : s u = l) (hx : ∀ v, x ∉ s v) :
    Separate (Function.update s u (x :: l)) where
  nodup := by
    intro v
    rw [Function.update_apply]
    split
    · exact List.nodup_cons.mpr ⟨hs ▸ hx u, hs ▸ h.nodup u⟩
    · exact h.nodup v
  apart := by
    intro v w y hv hw
    rw [mem_update_push hs] at hv hw
    rcases hv with ⟨rfl, rfl⟩ | hv <;> rcases hw with ⟨rfl, hy⟩ | hw
    · rfl
    · exact absurd hw (hx w)
    · exact absurd (hy ▸ hv) (hx v)
    · exact h.apart v w y hv hw

theorem Separate.pop (h : Separate s) (hs : s u = x :: l) :
    Separate (Function.update s u l) where
  nodup := by
    intro v
    rw [Function.update_apply]
    split
    · have := h.nodup u
      rw [hs] at this
      exact (List.nodup_cons.mp this).2
    · exact h.nodup v
  apart := fun v w y hv hw => h.apart v w y (mem_update_pop hs hv) (mem_update_pop hs hw)

/-- The popped element is nowhere else. -/
theorem Separate.not_mem_pop (h : Separate s) (hs : s u = x :: l) (v : ι) :
    x ∉ Function.update s u l v := by
  intro hm
  have hxu : x ∈ s u := by rw [hs]; exact List.mem_cons_self
  obtain rfl := h.apart v u x (mem_update_pop hs hm) hxu
  rw [Function.update_self] at hm
  have := h.nodup v
  rw [hs] at this
  exact (List.nodup_cons.mp this).1 hm

end Update

/-- Every element of the stack is related to what lies below it. -/
def Above (R : α → List α → Prop) : List α → Prop
  | [] => True
  | x :: l => R x l ∧ Above R l

/-- What an element somewhere in the stack is in relation to. -/
theorem Above.of_append {R : α → List α → Prop} {t l : List α} {x : α}
    (h : Above R (t ++ x :: l)) : R x l := by
  induction t with
  | nil => exact h.1
  | cons y t ih => exact ih h.2

theorem Above.mono {R R' : α → List α → Prop} {l : List α}
    (himp : ∀ x below, x ∈ l → below ⊆ l → R x below → R' x below) (h : Above R l) :
    Above R' l := by
  induction l with
  | nil => trivial
  | cons x l ih =>
      refine ⟨himp x l List.mem_cons_self (List.subset_cons_self x l) h.1, ih ?_ h.2⟩
      exact fun y below hy hb => himp y below (List.mem_cons_of_mem x hy)
        (fun z hz => List.mem_cons_of_mem x (hb hz))

end LmaOS.Util
