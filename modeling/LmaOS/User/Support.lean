import LmaOS.Lib

/-
  The string functions of the user programs (ece391support.c).

  They are written anew beside those of lib.c. Each is the C loop, bounded by the 32-bit address
  space where the source has no bound, and is followed by what its callers use:
  `ece391Strcmp_eq_zero_iff`, `ece391Strncmp_eq_zero_iff`, `ece391Strcpy_down`.
-/
namespace LmaOS.User

open Util

/-- `ece391_strlen`: the same loop as the kernel's. -/
def ece391Strlen (s : Buf) : Nat := strlen s

/-! ## Comparing -/

def ece391StrcmpLoop (s1 s2 : Buf) : Nat → Nat → Int
  | 0, _ => 0
  | n + 1, i =>
      if s1 i = s2 i then
        if s1 i = 0 then 0 else ece391StrcmpLoop s1 s2 n (i + 1)
      else ((s1 i).toNat : Int) - (s2 i).toNat

def ece391Strcmp (s1 s2 : Buf) : Int := ece391StrcmpLoop s1 s2 4294967296 0

/-- The loop of `ece391_strncmp`, for a count that is not 0. -/
def ece391StrncmpLoop (s1 s2 : Buf) : Nat → Nat → Int
  | 0, _ => 0
  | n + 1, i =>
      if s1 i = s2 i then
        if s1 i = 0 ∨ n = 0 then 0 else ece391StrncmpLoop s1 s2 n (i + 1)
      else ((s1 i).toNat : Int) - (s2 i).toNat

def ece391Strncmp (s1 s2 : Buf) (n : Nat) : Int :=
  if n = 0 then 0 else ece391StrncmpLoop s1 s2 n 0

theorem byte_difference {a b : UInt8} (h : a ≠ b) : (a.toNat : Int) - b.toNat ≠ 0 := by
  intro hzero
  exact h (UInt8.toNat_inj.mp (by omega))

theorem int8_difference {a b : UInt8} (h : a ≠ b) : int8 a - int8 b ≠ 0 := by
  intro hzero
  exact h (int8_inj (by omega))

/-- Both loops find the same strings equal as the kernel's `strncmp`. -/
theorem ece391StrcmpLoop_eq_zero_iff (s1 s2 : Buf) (n i : Nat) :
    ece391StrcmpLoop s1 s2 n i = 0 ↔ strncmpLoop s1 s2 n i = 0 := by
  induction n generalizing i with
  | zero => exact Iff.rfl
  | succ n ih =>
    rw [ece391StrcmpLoop, strncmpLoop]
    by_cases hne : s1 i = s2 i
    · rw [if_pos hne]
      by_cases hend : s1 i = 0
      · rw [if_pos hend, if_pos (Or.inr hend), hne]
        omega
      · rw [if_neg hend, if_neg (by rw [not_or, not_not]; exact ⟨hne, hend⟩)]
        exact ih (i + 1)
    · rw [if_neg hne, if_pos (Or.inl hne)]
      exact iff_of_false (byte_difference hne) (int8_difference hne)

theorem ece391StrncmpLoop_eq_zero_iff (s1 s2 : Buf) (n i : Nat) :
    ece391StrncmpLoop s1 s2 n i = 0 ↔ strncmpLoop s1 s2 n i = 0 := by
  induction n generalizing i with
  | zero => exact Iff.rfl
  | succ n ih =>
    rw [ece391StrncmpLoop, strncmpLoop]
    by_cases hne : s1 i = s2 i
    · rw [if_pos hne]
      by_cases hend : s1 i = 0
      · rw [if_pos (Or.inl hend), if_pos (Or.inr hend), hne]
        omega
      · rw [if_neg (show ¬ (s1 i ≠ s2 i ∨ s1 i = 0) by rw [not_or, not_not]; exact ⟨hne, hend⟩)]
        by_cases hlast : n = 0
        · rw [if_pos (Or.inr hlast), hlast]
          exact Iff.rfl
        · rw [if_neg (not_or.mpr ⟨hend, hlast⟩)]
          exact ih (i + 1)
    · rw [if_neg hne, if_pos (Or.inl hne)]
      exact iff_of_false (byte_difference hne) (int8_difference hne)

/-- `ece391_strcmp` compares strings. -/
theorem ece391Strcmp_eq_zero_iff {s1 s2 : Buf} {a b : List UInt8} (ha : s1.Spells a)
    (hb : s2.Spells b) (hla : a.length < 4294967296) (hlb : b.length < 4294967296) :
    ece391Strcmp s1 s2 = 0 ↔ a = b := by
  have htext := strncmp_eq_zero_iff_text s1 s2 4294967296
  unfold strncmp at htext
  unfold ece391Strcmp
  rw [ece391StrcmpLoop_eq_zero_iff, htext, ha.text (Nat.le_of_lt hla), hb.text (Nat.le_of_lt hlb)]

/-- `ece391_strncmp` with the length of the second string looks for it at the start of the
    first. -/
theorem ece391Strncmp_eq_zero_iff {s1 s2 : Buf} {b : List UInt8} (hb : s2.Spells b) :
    ece391Strncmp s1 s2 b.length = 0 ↔ s1.StartsWith b := by
  have hloop : ece391Strncmp s1 s2 b.length = 0 ↔ strncmp s1 s2 b.length = 0 := by
    unfold ece391Strncmp strncmp
    split
    · rename_i hzero
      rw [hzero]
      exact Iff.rfl
    · exact ece391StrncmpLoop_eq_zero_iff s1 s2 _ 0
  rw [hloop, strncmp_eq_zero_iff]
  constructor
  · intro h i hi
    -- no NUL so far: the characters of `b` are none
    have hsame : ∀ j, j ≤ i → s1 j = s2 j := by
      intro j hj
      induction j using Nat.strongRecOn with
      | ind j ih =>
        refine h j (by omega) fun k hk => ?_
        rw [ih k hk (by omega)]
        exact hb.ne_zero (by omega)
    rw [hsame i (Nat.le_refl i)]
    exact hb.startsWith i hi
  · intro h i hi _
    rw [h i hi, hb.startsWith i hi]

/-! ## Copying -/

/-- The loop of `ece391_strcpy` inside one buffer. -/
def ece391StrcpyLoop (dst src : Nat) : Nat → Nat → Buf → Buf
  | 0, _, b => b
  | n + 1, i, b =>
      let c := b (src + i)
      let b := Function.update b (dst + i) c
      if c = 0 then b else ece391StrcpyLoop dst src n (i + 1) b

/-- `ece391_strcpy(b + dst, b + src)`. -/
def ece391Strcpy (b : Buf) (dst src : Nat) : Buf := ece391StrcpyLoop dst src 4294967296 0 b

theorem ece391StrcpyLoop_down {dst src : Nat} (hdown : dst < src) {l : List UInt8} {n i : Nat}
    {b : Buf} (h : (b.drop (src + i)).Spells l) (hn : l.length < n) :
    ece391StrcpyLoop dst src n i b = b.write (dst + i) (l ++ [0]) := by
  induction n generalizing l i b with
  | zero => exact absurd hn (Nat.not_lt_zero _)
  | succ n ih =>
    rw [ece391StrcpyLoop]
    cases l with
    | nil =>
      have hend : b (src + i) = 0 := h.nul
      rw [hend, if_pos rfl]
      exact Buf.update_eq_write 0
    | cons c l =>
      have hc : b (src + i) = c := h.startsWith 0 (Nat.zero_lt_succ _)
      have hne : c ≠ 0 := fun hzero => h.1 (hzero ▸ List.mem_cons_self)
      have hrest : (Buf.drop (Function.update b (dst + i) c) (src + (i + 1))).Spells l := by
        rw [Buf.drop_update (by omega), ← Nat.add_assoc, ← Buf.drop_drop]
        exact h.tail
      rw [hc, if_neg hne, ih hrest (Nat.lt_of_succ_lt_succ hn), Buf.update_eq_write,
        ← Nat.add_assoc]
      exact Buf.write_append

/-- A string is moved down. -/
theorem ece391Strcpy_down {dst src : Nat} (hdown : dst < src) {l : List UInt8} {b : Buf}
    (h : (b.drop src).Spells l) (hl : l.length < 4294967296) :
    ece391Strcpy b dst src = b.write dst (l ++ [0]) := ece391StrcpyLoop_down hdown h hl

end LmaOS.User
