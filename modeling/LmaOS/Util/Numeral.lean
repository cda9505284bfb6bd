import Mathlib.Data.Nat.Digits.Lemmas

/-
  Numerals: digit lists to a base, most significant digit first.

  `digitsValue b ds` evaluates `ds` from the left. `IsNumeral b v ds` says that `ds` is how `v` is
  written to base `b`: digits below the base, the value `v`, and no leading zero but in `0`.
  `isNumeral_iff`: the numeral of a number exists and is the only one, `numeral b v`.
  `digitsValue_padded`: leading zeros do not change the value.
-/
namespace LmaOS.Util

def digitsValue (b : Nat) (ds : List Nat) : Nat := ds.foldl (fun v d => v * b + d) 0

structure IsNumeral (b v : Nat) (ds : List Nat) : Prop where
  digits : ∀ d ∈ ds, d < b
  value : digitsValue b ds = v
  nonempty : ds ≠ []
  noLeadingZero : ∀ rest, ds = 0 :: rest → rest = []

/-- The digits of `v`, and `0` for zero. -/
def numeral (b v : Nat) : List Nat := if v = 0 then [0] else (Nat.digits b v).reverse

theorem digitsValue_eq (b : Nat) (ds : List Nat) :
    digitsValue b ds = Nat.ofDigits b ds.reverse := by
  induction ds using List.reverseRecOn with
  | nil => rfl
  | append_singleton ds d ih =>
    have hlast : digitsValue b (ds ++ [d]) = digitsValue b ds * b + d := by
      unfold digitsValue
      rw [List.foldl_append]
      rfl
    rw [hlast, ih, List.reverse_append, List.reverse_singleton, List.singleton_append,
      Nat.ofDigits_cons, Nat.mul_comm, Nat.add_comm]

theorem digitsValue_zero (b : Nat) : digitsValue b [0] = 0 := by
  rw [digitsValue_eq, List.reverse_singleton, Nat.ofDigits_singleton]

section Base

variable {b : Nat} (hb : 1 < b) {v : Nat} {ds : List Nat}
include hb

theorem numeral_isNumeral (v : Nat) : IsNumeral b v (numeral b v) := by
  unfold numeral
  split
  · rename_i hv
    refine ⟨fun d hd => ?_, by rw [digitsValue_zero, hv], List.cons_ne_nil _ _, fun rest h => ?_⟩
    · rw [List.mem_singleton.mp hd]
      exact Nat.lt_trans Nat.zero_lt_one hb
    · exact (List.cons.inj h).2.symm
  · rename_i hv
    have hdigits : Nat.digits b v ≠ [] := Nat.digits_ne_nil_iff_ne_zero.mpr hv
    refine ⟨fun d hd => Nat.digits_lt_base hb (List.mem_reverse.mp hd), ?_,
      fun h => hdigits (List.reverse_eq_nil_iff.mp h), fun rest h => ?_⟩
    · rw [digitsValue_eq, List.reverse_reverse, Nat.ofDigits_digits]
    · have hlast := Nat.getLast_digit_ne_zero b hv
      have hhead : (Nat.digits b v).reverse.head (by rw [h]; exact List.cons_ne_nil _ _) = 0 := by
        simp only [h, List.head_cons]
      rw [List.head_reverse] at hhead
      exact absurd hhead hlast

theorem isNumeral_iff : IsNumeral b v ds ↔ ds = numeral b v := by
  constructor
  · intro h
    unfold numeral
    cases ds with
    | nil => exact absurd rfl h.nonempty
    | cons d rest =>
      by_cases hd : d = 0
      · have hrest : rest = [] := h.noLeadingZero rest (by rw [hd])
        have hv : v = 0 := by rw [← h.value, hrest, hd, digitsValue_zero]
        rw [if_pos hv, hrest, hd]
      · have hrev := Nat.digits_ofDigits b hb (d :: rest).reverse
          (fun x hx => h.digits x (List.mem_reverse.mp hx))
          (fun hne => by rw [List.getLast_reverse]; exact hd)
        rw [← digitsValue_eq, h.value] at hrev
        have hv : v ≠ 0 := by
          rintro rfl
          rw [Nat.digits_zero] at hrev
          exact List.cons_ne_nil _ _ (List.reverse_eq_nil_iff.mp hrev.symm)
        rw [if_neg hv, hrev, List.reverse_reverse]
  · rintro rfl
    exact numeral_isNumeral hb v

theorem numeral_length_le {k : Nat} (hk : 0 < k) (hv : v < b ^ k) :
    (numeral b v).length ≤ k := by
  unfold numeral
  split
  · exact hk
  · rw [List.length_reverse]
    exact (Nat.digits_length_le_iff hb v).mpr hv

end Base

theorem digitsValue_padded (b k : Nat) (ds : List Nat) :
    digitsValue b (List.replicate k 0 ++ ds) = digitsValue b ds := by
  rw [digitsValue_eq, digitsValue_eq, List.reverse_append, List.reverse_replicate,
    Nat.ofDigits_append, Nat.ofDigits_replicate_zero, Nat.mul_zero, Nat.add_zero]

end LmaOS.Util
