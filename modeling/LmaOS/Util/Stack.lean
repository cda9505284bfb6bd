import Mathlib.Data.List.GetD
import Mathlib.Data.List.Nodup
import Mathlib.Logic.Function.Basic
import Mathlib.Tactic.Common

/-
  A stack kept in a fixed-size array, bottom first, the free slots marked with a sentinel.

  `firstIdx p n` is what a loop `for (i = 0; i < n; i++) if (p i) break;` leaves in `i`.
  `Holds e n a l`: the first `n` slots of the array `a` are the stack `l` (top first), followed
  by the sentinel `e`. The lemmas say what the two loops of such an array find (the first free
  slot, the slot of the top element) and what a push into and a removal from it do to the stack.
-/
namespace LmaOS.Util

/-- The value a counting loop over `[0, n)` stops at: the first index satisfying `p`, else `n`. -/
def firstIdx (p : Nat → Bool) (n : Nat) : Nat := (List.range n).findIdx p

theorem firstIdx_le (p : Nat → Bool) (n : Nat) : firstIdx p n ≤ n := by
  have : (List.range n).findIdx p ≤ (List.range n).length := List.findIdx_le_length
  simpa [firstIdx] using this

theorem firstIdx_spec {p : Nat → Bool} {n : Nat} (h : firstIdx p n < n) :
    p (firstIdx p n) = true := by
  have h' : (List.range n).findIdx p < (List.range n).length := by simpa [firstIdx] using h
  have := List.findIdx_getElem (w := h')
  simpa [firstIdx] using this

theorem firstIdx_min {p : Nat → Bool} {n j : Nat} (h : j < firstIdx p n) : p j = false := by
  have h' : j < (List.range n).findIdx p := h
  have := List.not_of_lt_findIdx h'
  simpa using this

theorem firstIdx_eq {p : Nat → Bool} {n k : Nat} (hk : k < n) (hp : p k = true)
    (hmin : ∀ j, j < k → p j = false) : firstIdx p n = k := by
  rcases Nat.lt_trichotomy (firstIdx p n) k with h | h | h
  · have := firstIdx_spec (p := p) (n := n) (by omega)
    rw [hmin _ h] at this
    exact absurd this (by decide)
  · exact h
  · rw [firstIdx_min h] at hp
    exact absurd hp (by decide)

theorem firstIdx_eq_bound {p : Nat → Bool} {n : Nat} (hmin : ∀ j, j < n → p j = false) :
    firstIdx p n = n := by
  rcases Nat.lt_or_eq_of_le (firstIdx_le p n) with h | h
  · have := firstIdx_spec h
    rw [hmin _ h] at this
    exact absurd this (by decide)
  · exact h

section Holds

variable {α : Type}

/-- The array `a[0..n)` holds the stack `l` (top first) above the sentinel `e`. -/
structure Holds (e : α) (n : Nat) (a : Nat → α) (l : List α) : Prop where
  fits : l.length ≤ n
  noSentinel : e ∉ l
  slots : ∀ i, i < n → a i = l.reverse.getD i e

variable {e : α} {n : Nat} {a : Nat → α} {l : List α}

theorem holds_nil (h : ∀ i, i < n → a i = e) : Holds e n a [] :=
  ⟨by simp, by simp, fun i hi => by simpa using h i hi⟩

theorem Holds.free (h : Holds e n a l) {i : Nat} (hi : i < n) (hl : l.length ≤ i) :
    a i = e := by
  rw [h.slots i hi, List.getD_eq_default _ _ (by simpa using hl)]

theorem Holds.used (h : Holds e n a l) {i : Nat} (hi : i < l.length) : a i ∈ l := by
  have hr : i < l.reverse.length := by simpa using hi
  rw [h.slots i (Nat.lt_of_lt_of_le hi h.fits), List.getD_eq_getElem _ _ hr]
  exact List.mem_reverse.mp (List.getElem_mem hr)

theorem Holds.used_ne (h : Holds e n a l) {i : Nat} (hi : i < l.length) : a i ≠ e :=
  fun he => h.noSentinel (he ▸ h.used hi)

theorem Holds.ne_iff (h : Holds e n a l) {i : Nat} (hi : i < n) : a i ≠ e ↔ i < l.length := by
  constructor
  · intro hne
    by_contra hc
    exact hne (h.free hi (by omega))
  · exact h.used_ne

/-- The element with `r` below it stands in slot `r.length`. -/
theorem Holds.at_top {t r : List α} {x : α} (h : Holds e n a (t ++ x :: r)) :
    a r.length = x := by
  have hfit := h.fits
  simp only [List.length_append, List.length_cons] at hfit
  rw [h.slots r.length (by omega)]
  simp

/-- A slot above that of `x` holds one of the elements above `x`. -/
theorem Holds.mem_above {t r : List α} {x : α} (h : Holds e n a (t ++ x :: r)) {j : Nat}
    (hj : r.length < j) (hlt : j < (t ++ x :: r).length) : a j ∈ t := by
  have hfit := h.fits
  have hlen : (t ++ x :: r).length = t.length + (r.length + 1) := by simp
  have hrev : (t ++ x :: r).reverse = (r.reverse ++ [x]) ++ t.reverse := by simp
  have hpre : (r.reverse ++ [x]).length = r.length + 1 := by simp
  rw [h.slots j (by omega), hrev, List.getD_append_right _ _ _ _ (by omega), hpre,
    List.getD_eq_getElem _ _ (by rw [List.length_reverse]; omega)]
  exact List.mem_reverse.mp (List.getElem_mem _)

theorem Holds.slot_inj (h : Holds e n a l) (hnd : l.Nodup) {i j : Nat} (hi : i < l.length)
    (hj : j < l.length) (heq : a i = a j) : i = j := by
  have hr : l.reverse.Nodup := List.nodup_reverse.mpr hnd
  rw [h.slots i (Nat.lt_of_lt_of_le hi h.fits), h.slots j (Nat.lt_of_lt_of_le hj h.fits),
    List.getD_eq_getElem _ _ (by simpa using hi), List.getD_eq_getElem _ _ (by simpa using hj)]
    at heq
  exact (hr.getElem_inj_iff).mp heq

variable [DecidableEq α]

theorem Holds.firstFree (h : Holds e n a l) :
    firstIdx (fun i => decide (a i = e)) n = l.length := by
  rcases Nat.lt_or_eq_of_le h.fits with hlt | heq
  · exact firstIdx_eq hlt (by simpa using h.free hlt (Nat.le_refl _))
      (fun j hj => by simpa using h.used_ne hj)
  · rw [heq]
    exact firstIdx_eq_bound (fun j hj => by simpa using h.used_ne (by omega))

/-- The loop that looks for the top element stops at its slot. -/
theorem Holds.findTop {x : α} (h : Holds e n a (x :: l)) (hx : x ∉ l) :
    firstIdx (fun i => decide (a i = x)) n = l.length := by
  have hfit := h.fits
  simp only [List.length_cons] at hfit
  have htop : a l.length = x := Holds.at_top (t := []) h
  refine firstIdx_eq (by omega) (by simpa using htop) (fun j hj => ?_)
  have hr : j < l.reverse.length := by simpa using hj
  have hj' : a j = l.reverse[j] := by
    rw [h.slots j (by omega), List.reverse_cons, List.getD_append _ _ _ _ hr,
      List.getD_eq_getElem _ _ hr]
  have : a j ∈ l := by rw [hj']; exact List.mem_reverse.mp (List.getElem_mem hr)
  simp only [decide_eq_false_iff_not]
  exact fun he => hx (he ▸ this)

/-- The stack an array holds: the slots before the first sentinel, top first. -/
def stackOf (e : α) (n : Nat) (a : Nat → α) : List α :=
  ((List.range (firstIdx (fun i => decide (a i = e)) n)).map a).reverse

theorem Holds.stackOf_eq (h : Holds e n a l) : stackOf e n a = l := by
  unfold stackOf
  rw [h.firstFree, List.reverse_eq_iff]
  refine List.ext_getElem (by simp) (fun i hi hi' => ?_)
  have hl : i < l.length := by simpa using hi
  rw [List.getElem_map, List.getElem_range, h.slots i (Nat.lt_of_lt_of_le hl h.fits),
    List.getD_eq_getElem _ _ hi']

omit [DecidableEq α] in
theorem Holds.push {x : α} (h : Holds e n a l) (hroom : l.length < n) (hx : x ≠ e) :
    Holds e n (Function.update a l.length x) (x :: l) where
  fits := hroom
  noSentinel := by simpa [h.noSentinel] using fun he => hx he.symm
  slots := by
    intro i hi
    rw [Function.update_apply, List.reverse_cons]
    split
    · subst i; simp
    · rename_i hne
      rw [h.slots i hi]
      rcases Nat.lt_or_ge i l.length with hlt | hge
      · rw [List.getD_append _ _ _ _ (by simpa using hlt)]
      · rw [List.getD_eq_default _ _ (by simpa using hge),
          List.getD_eq_default _ _ (by simp; omega)]

omit [DecidableEq α] in
theorem Holds.pop {x : α} (h : Holds e n a (x :: l)) :
    Holds e n (Function.update a l.length e) l where
  fits := by have := h.fits; simp at this; omega
  noSentinel := fun hm => h.noSentinel (List.mem_cons_of_mem _ hm)
  slots := by
    intro i hi
    rw [Function.update_apply]
    split
    · subst i; rw [List.getD_eq_default _ _ (by simp)]
    · rename_i hne
      rw [h.slots i hi, List.reverse_cons]
      rcases Nat.lt_or_ge i l.length with hlt | hge
      · rw [List.getD_append _ _ _ _ (by simpa using hlt)]
      · rw [List.getD_eq_default _ _ (by simp; omega),
          List.getD_eq_default _ _ (by simpa using hge)]

end Holds

end LmaOS.Util
