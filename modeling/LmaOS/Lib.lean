import LmaOS.Util.Buffer

/-
  The string functions of lib.c: `strlen`, `strncmp`, `strncpy`.

  Strings are buffers: the bytes from a pointer on. A NUL-terminated string that a caller hands
  in is a `CString`. Each function is the C loop with an explicit bound on its iterations, and is
  followed by the closed form its callers use: `strlen_eq`, `strncmp_eq_zero_iff`,
  `strncpy_apply`.
-/
namespace LmaOS

open Util

/-- The characters of a text of the source, one byte each. -/
def bytes (s : String) : List UInt8 := s.toList.map (fun c => UInt8.ofNat c.toNat)

/-- A NUL-terminated string: the bytes before the NUL. -/
structure CString where
  chars : List UInt8
  noNul : 0 ∉ chars

/-- The string as memory. -/
def CString.buf (s : CString) : Buf := Buf.ofList s.chars

/-- A byte read as `int8_t`. -/
def int8 (b : UInt8) : Int := if b.toNat < 128 then b.toNat else (b.toNat : Int) - 256

theorem int8_inj {a b : UInt8} (h : int8 a = int8 b) : a = b := by
  have ha := a.toNat_lt
  have hb := b.toNat_lt
  apply UInt8.toNat_inj.mp
  unfold int8 at h
  split at h <;> split at h <;> omega

/-! ## strlen -/

def strlenLoop (s : Buf) : Nat → Nat → Nat
  | 0, len => len
  | n + 1, len => if s len = 0 then len else strlenLoop s n (len + 1)

/-- `strlen`: the loop over a 32-bit address space. -/
def strlen (s : Buf) : Nat := strlenLoop s 4294967296 0

theorem strlenLoop_eq {s : Buf} {n : Nat} (h0 : s n = 0) :
    ∀ fuel len, len ≤ n → n < len + fuel → (∀ i, len ≤ i → i < n → s i ≠ 0) →
      strlenLoop s fuel len = n
  | 0, len, _, hf, _ => by omega
  | fuel + 1, len, hle, hf, hne => by
      rw [strlenLoop]
      rcases Nat.lt_or_eq_of_le hle with hlt | heq
      · rw [if_neg (hne len (Nat.le_refl _) hlt)]
        exact strlenLoop_eq h0 fuel (len + 1) hlt (by omega)
          (fun i hi hin => hne i (by omega) hin)
      · rw [heq, if_pos h0]

/-- `strlen` is the offset of the first NUL. -/
theorem strlen_eq {s : Buf} {n : Nat} (hn : n < 4294967296) (h0 : s n = 0)
    (hne : ∀ i, i < n → s i ≠ 0) : strlen s = n :=
  strlenLoop_eq h0 _ 0 (Nat.zero_le _) (by omega) (fun i _ hi => hne i hi)

theorem strlen_spells {s : Buf} {l : List UInt8} (h : s.Spells l) (hl : l.length < 4294967296) :
    strlen s = l.length := strlen_eq hl h.nul fun _ hi => h.ne_zero hi

theorem strlenLoop_ge (s : Buf) : ∀ fuel len m, len ≤ m → m ≤ len + fuel →
    (∀ i, len ≤ i → i < m → s i ≠ 0) → m ≤ strlenLoop s fuel len
  | 0, len, m, _, hm, _ => by rw [strlenLoop]; omega
  | fuel + 1, len, m, hle, hm, hne => by
      rw [strlenLoop]
      rcases Nat.lt_or_eq_of_le hle with hlt | heq
      · rw [if_neg (hne len (Nat.le_refl _) hlt)]
        exact strlenLoop_ge s fuel (len + 1) m hlt (by omega)
          (fun i hi him => hne i (by omega) him)
      · subst heq
        split
        · exact Nat.le_refl _
        · exact Nat.le_trans (Nat.le_succ _) (strlenLoop_ge s fuel (len + 1) (len + 1)
            (Nat.le_refl _) (by omega) (fun i hi him => by omega))

/-- A string without a NUL among its first `m` bytes is at least `m` long. -/
theorem strlen_ge {s : Buf} {m : Nat} (hm : m ≤ 4294967296) (hne : ∀ i, i < m → s i ≠ 0) :
    m ≤ strlen s :=
  strlenLoop_ge s _ 0 m (Nat.zero_le _) (by omega) (fun i _ hi => hne i hi)

theorem strlenLoop_ne {s : Buf} (fuel len : Nat) {i : Nat} (hi : len ≤ i)
    (h : i < strlenLoop s fuel len) : s i ≠ 0 := by
  induction fuel generalizing len with
  | zero =>
    rw [strlenLoop] at h
    omega
  | succ fuel ih =>
    rw [strlenLoop] at h
    by_cases hzero : s len = 0
    · rw [if_pos hzero] at h
      omega
    · rw [if_neg hzero] at h
      rcases Nat.lt_or_eq_of_le hi with hlt | rfl
      · exact ih (len + 1) hlt h
      · exact hzero

/-- There is no NUL before the length. -/
theorem strlen_ne {s : Buf} {i : Nat} (h : i < strlen s) : s i ≠ 0 :=
  strlenLoop_ne _ 0 (Nat.zero_le _) h

/-! ## strncmp -/

def strncmpLoop (s1 s2 : Buf) : Nat → Nat → Int
  | 0, _ => 0
  | n + 1, i =>
      if s1 i ≠ s2 i ∨ s1 i = 0 then int8 (s1 i) - int8 (s2 i) else strncmpLoop s1 s2 n (i + 1)

def strncmp (s1 s2 : Buf) (n : Nat) : Int := strncmpLoop s1 s2 n 0

theorem strncmpLoop_eq_zero_iff (s1 s2 : Buf) : ∀ n i, strncmpLoop s1 s2 n i = 0 ↔
    ∀ j, i ≤ j → j < i + n → (∀ k, i ≤ k → k < j → s1 k ≠ 0) → s1 j = s2 j
  | 0, i => by
      rw [strncmpLoop]
      exact ⟨fun _ j hi hj => by omega, fun _ => rfl⟩
  | n + 1, i => by
      rw [strncmpLoop]
      split
      · rename_i hstop
        constructor
        · intro hz j hi hj hk
          have heq : s1 i = s2 i := int8_inj (by omega)
          have hnul : s1 i = 0 := hstop.resolve_left (fun hne => hne heq)
          rcases Nat.lt_or_eq_of_le hi with hlt | rfl
          · exact absurd hnul (hk i (Nat.le_refl _) hlt)
          · exact heq
        · intro h
          rw [h i (Nat.le_refl _) (by omega) (fun k hk hki => by omega)]
          omega
      · rename_i hgo
        simp only [not_or, not_not] at hgo
        rw [strncmpLoop_eq_zero_iff s1 s2 n (i + 1)]
        constructor
        · intro h j hi hj hk
          rcases Nat.lt_or_eq_of_le hi with hlt | rfl
          · exact h j hlt (by omega) (fun k hk1 hk2 => hk k (by omega) hk2)
          · exact hgo.1
        · intro h j hi hj hk
          refine h j (by omega) (by omega) (fun k hk1 hk2 => ?_)
          rcases Nat.lt_or_eq_of_le hk1 with hlt | rfl
          · exact hk k hlt hk2
          · exact hgo.2

/-- Two strings compare equal when they agree up to and including the first NUL of the first
    one, or on all `n` bytes. -/
theorem strncmp_eq_zero_iff (s1 s2 : Buf) (n : Nat) :
    strncmp s1 s2 n = 0 ↔ ∀ j, j < n → (∀ k, k < j → s1 k ≠ 0) → s1 j = s2 j := by
  unfold strncmp
  rw [strncmpLoop_eq_zero_iff]
  simp only [Nat.zero_le, true_implies, Nat.zero_add]

/-- `strncmp` compares the texts of two fields of `n` bytes. -/
theorem strncmp_eq_zero_iff_text (s1 s2 : Buf) (n : Nat) :
    strncmp s1 s2 n = 0 ↔ s1.text n = s2.text n := by
  rw [strncmp_eq_zero_iff, Buf.text_eq_iff]

theorem CString.text_buf (s : CString) (n : Nat) : s.buf.text n = s.chars.take n :=
  Buf.text_ofList s.noNul n

/-! ## strncpy -/

/-- The first loop of `strncpy`: copy up to the NUL. Returns `i` and the destination. -/
def strncpyCopy (src : Buf) : Nat → Nat → Buf → Nat × Buf
  | 0, i, dest => (i, dest)
  | n + 1, i, dest =>
      if src i ≠ 0 then strncpyCopy src n (i + 1) (Function.update dest i (src i)) else (i, dest)

/-- The second loop of `strncpy`: pad with NULs. -/
def strncpyPad : Nat → Nat → Buf → Buf
  | 0, _, dest => dest
  | n + 1, i, dest => strncpyPad n (i + 1) (Function.update dest i 0)

def strncpy (dest src : Buf) (n : Nat) : Buf :=
  let r := strncpyCopy src n 0 dest
  strncpyPad (n - r.1) r.1 r.2

theorem strncpyPad_apply : ∀ n i (dest : Buf) j,
    strncpyPad n i dest j = if i ≤ j ∧ j < i + n then 0 else dest j
  | 0, i, dest, j => by rw [strncpyPad, if_neg (by omega)]
  | n + 1, i, dest, j => by
      rw [strncpyPad, strncpyPad_apply n (i + 1), Function.update_apply]
      by_cases h1 : i + 1 ≤ j ∧ j < i + 1 + n
      · rw [if_pos h1, if_pos (by omega)]
      · rw [if_neg h1]
        by_cases h2 : j = i
        · rw [if_pos h2, if_pos (by omega)]
        · rw [if_neg h2, if_neg (by omega)]

/-- Where the copy loop stops: at the first NUL of the source, or at the end. -/
theorem strncpyCopy_spec (src : Buf) : ∀ n i (dest : Buf),
    i ≤ (strncpyCopy src n i dest).1 ∧ (strncpyCopy src n i dest).1 ≤ i + n ∧
    (∀ k, i ≤ k → k < (strncpyCopy src n i dest).1 → src k ≠ 0) ∧
    ((strncpyCopy src n i dest).1 < i + n → src (strncpyCopy src n i dest).1 = 0) ∧
    ∀ j, (strncpyCopy src n i dest).2 j =
      if i ≤ j ∧ j < (strncpyCopy src n i dest).1 then src j else dest j
  | 0, i, dest => by
      have he : strncpyCopy src 0 i dest = (i, dest) := rfl
      rw [he]
      exact ⟨Nat.le_refl _, Nat.le_refl _, fun k _ _ => by omega, fun h => by omega,
        fun j => by rw [if_neg (by omega)]⟩
  | n + 1, i, dest => by
      by_cases h0 : src i = 0
      · have he : strncpyCopy src (n + 1) i dest = (i, dest) := by
          rw [strncpyCopy, if_neg (by simpa using h0)]
        rw [he]
        exact ⟨Nat.le_refl _, by omega, fun k _ _ => by omega, fun _ => h0,
          fun j => by rw [if_neg (by omega)]⟩
      · have he : strncpyCopy src (n + 1) i dest =
            strncpyCopy src n (i + 1) (Function.update dest i (src i)) := by
          rw [strncpyCopy, if_pos h0]
        obtain ⟨hle, hub, hne, hnul, hval⟩ :=
          strncpyCopy_spec src n (i + 1) (Function.update dest i (src i))
        rw [he]
        refine ⟨by omega, by omega, fun k hk1 hk2 => ?_, fun h => hnul (by omega), fun j => ?_⟩
        · rcases Nat.lt_or_eq_of_le hk1 with hlt | rfl
          · exact hne k hlt hk2
          · exact h0
        · rw [hval j, Function.update_apply]
          by_cases hj : j = i
          · subst hj
            rw [if_neg (by omega), if_pos rfl, if_pos (by omega)]
          · rw [if_neg hj]
            by_cases hr : i + 1 ≤ j ∧ j < (strncpyCopy src n (i + 1)
                (Function.update dest i (src i))).1
            · rw [if_pos hr, if_pos (by omega)]
            · rw [if_neg hr, if_neg (by omega)]

/-- `strncpy` writes the offsets below `n` and no others: the source up to its first NUL, then
    NULs. -/
theorem strncpy_apply (dest src : Buf) (n j : Nat) :
    strncpy dest src n j =
      if j < n then (if ∀ k, k < j + 1 → src k ≠ 0 then src j else 0) else dest j := by
  obtain ⟨_, hub, hne, hnul, hval⟩ := strncpyCopy_spec src n 0 dest
  unfold strncpy
  generalize strncpyCopy src n 0 dest = r at *
  rw [strncpyPad_apply, hval j]
  by_cases hj : j < n
  · rw [if_pos hj]
    by_cases hr : j < r.1
    · rw [if_neg (by omega), if_pos ⟨Nat.zero_le _, hr⟩,
        if_pos (fun k hk => hne k (Nat.zero_le _) (by omega))]
    · rw [if_pos (by omega), if_neg (fun hall => hall r.1 (by omega) (hnul (by omega)))]
  · rw [if_neg hj, if_neg (by omega), if_neg (by omega)]

end LmaOS
