import LmaOS.Exec.Executable

/-
  `getargs`, and the Linux emulation of the same call.

  `Pcb.HoldsArg a`: the `arg` field holds the string `a`. `getargs` hands it to `strncpy` with the
  size it was given (`getargs_eq`); a size that is too small cuts the string and loses its NUL,
  and a negative one is a size of nearly 4 GB.

  * `emulation_refuses_iff`: ece391emulate.c refuses exactly the sizes that do not hold the
    arguments, the spaces between them and a NUL.
  * `getargs_refuses_iff`: `getargs` does so exactly for an empty string or a size that holds it.
    `getargs_cuts` asks for one byte too few.
-/
namespace LmaOS

open Util

/-! ## The stored string -/

/-- `pcb->arg` holds the string `a`. -/
structure Pcb.HoldsArg (p : Pcb) (a : List UInt8) : Prop where
  text : p.arg.text (cmdLen + 1) = a
  fits : a.length ≤ cmdLen

section Stored

variable {p : Pcb} {a : List UInt8}

theorem Pcb.HoldsArg.length (h : p.HoldsArg a) : p.arg.textLength (cmdLen + 1) = a.length := by
  rw [← h.text]
  exact (Buf.take_length _ _).symm

/-- The characters of the string, and its NUL. -/
theorem Pcb.HoldsArg.byte (h : p.HoldsArg a) {i : Nat} (hi : i < a.length) :
    p.arg i = a.getD i 0 ∧ p.arg i ≠ 0 := by
  have hi' : i < (p.arg.text (cmdLen + 1)).length := by rw [h.text]; exact hi
  have hbyte : p.arg i = a[i] := by
    rw [← List.getElem_of_eq h.text hi']
    exact (Buf.getElem_take _ _).symm
  refine ⟨by rw [hbyte, List.getD_eq_getElem a 0 hi], Buf.textLength_ne (n := cmdLen + 1) ?_⟩
  rw [h.length]
  exact hi

theorem Pcb.HoldsArg.nul (h : p.HoldsArg a) : p.arg a.length = 0 := by
  rw [← h.length]
  refine Buf.textLength_end ?_
  rw [h.length]
  exact Nat.lt_succ_of_le h.fits

theorem Pcb.HoldsArg.empty_iff (h : p.HoldsArg a) : p.arg 0 = 0 ↔ a = [] := by
  constructor
  · intro hzero
    by_contra hne
    exact (h.byte (List.length_pos_of_ne_nil hne)).2 hzero
  · rintro rfl
    exact h.nul

/-- What `strncpy` makes of it. -/
theorem Pcb.HoldsArg.copied (h : p.HoldsArg a) (buf : Buf) (n j : Nat) :
    strncpy buf p.arg n j = if j < n then a.getD j 0 else buf j := by
  rw [strncpy_apply]
  refine if_congr Iff.rfl ?_ rfl
  rcases Nat.lt_or_ge j a.length with hj | hj
  · rw [if_pos fun k hk => (h.byte (by omega)).2, (h.byte hj).1]
  · rw [if_neg fun hall => hall a.length (by omega) h.nul, List.getD_eq_default a 0 hj]

end Stored

/-! ## getargs -/

theorem getargs_eq {k : Kernel} {a : List UInt8} (h : (k.pcbs (getPcbAddress k)).HoldsArg a)
    (buf : Buf) (nbytes : Int) : getargs k (some buf) nbytes =
      if a = [] then (-1, buf)
      else (0, fun j => if j < word32 nbytes then a.getD j 0 else buf j) := by
  unfold getargs
  dsimp only
  refine if_congr h.empty_iff rfl ?_
  exact congrArg (Prod.mk 0) (funext fun j => h.copied buf _ j)

theorem word32_of_range {z : Int} (hlo : 0 ≤ z) (hhi : z < 2147483648) : word32 z = z.toNat := by
  unfold word32
  omega

/-- A string that fits is handed out with its NUL. -/
theorem getargs_delivers {k : Kernel} {a : List UInt8}
    (h : (k.pcbs (getPcbAddress k)).HoldsArg a) (hne : a ≠ []) (buf : Buf) {nbytes : Int}
    (hroom : a.length < nbytes) (hn : nbytes < 2147483648) :
    (getargs k (some buf) nbytes).1 = 0 ∧
      (∀ j, j < a.length → (getargs k (some buf) nbytes).2 j = a.getD j 0) ∧
      (getargs k (some buf) nbytes).2 a.length = 0 := by
  rw [getargs_eq h, if_neg hne, word32_of_range (by omega) hn]
  dsimp only
  refine ⟨rfl, fun j hj => if_pos (by omega), ?_⟩
  rw [if_pos (by omega)]
  exact List.getD_eq_default a 0 (Nat.le_refl _)

/-! ## The emulation -/

/-- `ece391_strcpy` to offset `pos`. -/
def ece391Strcpy (buf : Buf) (pos : Nat) (s : CString) : Buf := fun i =>
  if pos ≤ i ∧ i < pos + s.chars.length + 1 then s.buf (i - pos) else buf i

/-- The loop of `ece391_getargs` over `argv[idx..argc)` and what follows it; `pos` is how far `buf`
    has moved. -/
def ece391GetargsLoop : List CString → Nat → Int → Buf → Int × Buf
  | [], pos, nbytes, buf => if nbytes < 1 then (-1, buf) else (0, Function.update buf pos 0)
  | arg :: args, pos, nbytes, buf =>
    let len := arg.chars.length
    if len > nbytes then (-1, buf)
    else
      let buf := ece391Strcpy buf pos arg
      let pos := pos + len
      let nbytes := nbytes - len
      if args = [] then ece391GetargsLoop args pos nbytes buf
      else if nbytes < 1 then (-1, buf)
      else ece391GetargsLoop args (pos + 1) (nbytes - 1) (Function.update buf pos 0x20)

/-- `ece391_getargs`, on the arguments from `argv[1]` on. -/
def ece391Getargs (args : List CString) (buf : Buf) (nbytes : Int) : Int × Buf :=
  ece391GetargsLoop args 0 nbytes buf

/-- The arguments with a space between them. -/
def joined (args : List CString) : List UInt8 := [0x20].intercalate (args.map CString.chars)

theorem joined_cons {arg : CString} {args : List CString} (h : args ≠ []) :
    (joined (arg :: args)).length = arg.chars.length + 1 + (joined args).length := by
  obtain ⟨next, rest, rfl⟩ := List.exists_cons_of_ne_nil h
  unfold joined
  rw [List.map_cons, List.map_cons, List.intercalate_cons_cons, List.length_append,
    List.length_append, List.length_singleton]

theorem emulation_refuses_iff (args : List CString) (buf : Buf) (nbytes : Int) :
    (ece391Getargs args buf nbytes).1 = -1 ↔ nbytes < (joined args).length + 1 := by
  unfold ece391Getargs
  generalize 0 = pos
  induction args generalizing pos nbytes buf with
  | nil =>
    rw [ece391GetargsLoop]
    have hempty : (joined []).length = 0 := rfl
    split
    · rename_i hsmall
      exact iff_of_true rfl (by omega)
    · rename_i hroom
      exact iff_of_false (show ¬ (0 : Int) = -1 by decide) (by omega)
  | cons arg args ih =>
    rw [ece391GetargsLoop]
    dsimp only
    by_cases hlast : args = []
    · subst hlast
      have hone : joined [arg] = arg.chars := by simp [joined]
      have hnone : (joined []).length = 0 := rfl
      rw [if_pos rfl, hone]
      split
      · rename_i hlong
        exact iff_of_true rfl (by omega)
      · rw [ih, hnone]
        omega
    · rw [if_neg hlast, joined_cons hlast]
      split
      · rename_i hlong
        exact iff_of_true rfl (by omega)
      · split
        · rename_i hfull
          exact iff_of_true rfl (by omega)
        · rw [ih]
          omega

/-! ## What does not fit -/

/-- A size without room for the string and its NUL is refused, and no byte outside the buffer of
    that size changes. -/
structure Refuses (a : List UInt8) (nbytes : Int) (buf : Buf) (r : Int × Buf) : Prop where
  short : nbytes < a.length + 1 → r.1 = -1
  frame : ∀ i : Nat, max nbytes 0 ≤ i → r.2 i = buf i

/-- `getargs` does so exactly if there is no string, or the size holds it. -/
theorem getargs_refuses_iff {k : Kernel} {a : List UInt8} {nbytes : Int}
    (h : (k.pcbs (getPcbAddress k)).HoldsArg a) (hn : nbytes < 2147483648) :
    (∀ buf, Refuses a nbytes buf (getargs k (some buf) nbytes)) ↔ a = [] ∨ a.length < nbytes := by
  constructor
  · intro hrefuses
    by_contra hnot
    obtain ⟨hne, hshort⟩ := not_or.mp hnot
    have hret := (hrefuses fun _ => 0).short (by omega)
    rw [getargs_eq h, if_neg hne] at hret
    exact absurd (show (0 : Int) = -1 from hret) (by decide)
  · rintro hfits buf
    rw [getargs_eq h]
    by_cases hempty : a = []
    · rw [if_pos hempty]
      exact ⟨fun _ => rfl, fun _ _ => rfl⟩
    · have hroom := hfits.resolve_left hempty
      rw [if_neg hempty]
      refine ⟨fun hshort => by omega, fun i hi => if_neg ?_⟩
      rw [word32_of_range (by omega) hn]
      omega

/-- The shell, executed with the argument "a". -/
def argShell : Kernel := (execute dotImage dotShell (Locals.zero ⟨0, 0⟩)
  (some ⟨shellName ++ [0x20, 0x61], by decide⟩)).1

theorem getargs_refuses_iff_two :
    (∀ buf, Refuses [0x61] 2 buf (getargs argShell (some buf) 2)) ↔
      ([0x61] : List UInt8) = [] ∨ ([0x61] : List UInt8).length < (2 : Int) :=
  getargs_refuses_iff ⟨by decide, by decide⟩ (by decide)

/-- It asks for its argument with a size of 1. -/
theorem getargs_cuts : ¬ ∀ (k : Kernel) (a : List UInt8) (nbytes : Int),
    (k.pcbs (getPcbAddress k)).HoldsArg a → nbytes < 2147483648 →
      ∀ buf, Refuses a nbytes buf (getargs k (some buf) nbytes) := by
  intro hclaim
  have h := (hclaim argShell [0x61] 1 ⟨by decide, by decide⟩ (by decide) fun _ => 0).short
    (by decide)
  revert h
  decide

end LmaOS
