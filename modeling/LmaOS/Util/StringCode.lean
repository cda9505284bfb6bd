import LmaOS.Util.X86

/-
  Fill and copy loops of the x86.

  `stringCode move rep` is their usual form: single bytes up to a doubleword boundary of `edi`,
  then doublewords, then the bytes that are left, with the count split by shift and mask. If
  `move` does the next byte and `rep` the next four (`Moves`), the whole does as many bytes as
  `ecx` says and ends, whatever the alignment (`Moves.run`).
-/
namespace LmaOS.Util.X86

open Relation StateTransition

/-! ## The code -/

inductive StringLabel where
  | top | aligned | bottom | done
  deriving DecidableEq

section StringCode

variable (move : List (Instr StringLabel)) (rep : Instr StringLabel)

/-- The bytes left over, `edx` of them. -/
def bottomCode : List (Instr StringLabel) :=
  .testl .edx .edx :: .jz .done :: (move ++ [.subl 1 .edx, .jmp .bottom, .label .done])

/-- The doublewords, a quarter of `ecx`. -/
def alignedCode : List (Instr StringLabel) :=
  [.movwDs .edx, .movwEs .edx, .movl .ecx .edx, .shrl 2 .ecx, .andl 3 .edx, .cld, rep,
    .label .bottom] ++ bottomCode move

/-- Single bytes, until `edi` is a multiple of four or `ecx` is zero. -/
def topCode : List (Instr StringLabel) :=
  .testl .ecx .ecx :: .jz .done :: .testlImm 3 .edi :: .jz .aligned ::
    (move ++ ([.subl 1 .ecx, .jmp .top, .label .aligned] ++ alignedCode move rep))

def stringCode : List (Instr StringLabel) := .label .top :: topCode move rep

end StringCode

/-! ## One byte, four bytes -/

/-- What a byte or a doubleword changes. -/
structure Data where
  eax : Word
  esi : Word
  edi : Word
  mem : Memory

def Cpu.data (c : Cpu) : Data := ⟨c.eax, c.esi, c.edi, c.mem⟩

/-- The processor before the doublewords: shift and mask have split the count. -/
def Cpu.split (c : Cpu) : Cpu :=
  { c with
    ecx := c.ecx >>> 2
    edx := c.ecx &&& 3
    es := c.ds
    zf := decide (c.ecx &&& 3 = 0)
    df := false }

/-- `move` does the next byte and `rep` the next four: `P i` says that `i` of `n` bytes are
    done. -/
structure Moves (base : BitVec 16 → Word) (move : List (Instr StringLabel))
    (rep : Instr StringLabel) (ds : BitVec 16) (n : Nat) (P : Nat → Data → Prop) : Prop where
  unlabelled : ∀ i ∈ move, ∀ l, i.marks l = false
  byte : ∀ i c rest, i < n → c.ds = ds → P i c.data → ∃ c',
    Reaches (step base (stringCode move rep)) ⟨c, move ++ rest⟩ ⟨c', rest⟩ ∧
      P (i + 1) c'.data ∧ c'.ecx = c.ecx ∧ c'.edx = c.edx ∧ c'.ds = ds
  word : ∀ i c rest, i + 4 ≤ n → c.ds = ds → c.es = ds → c.df = false → P i c.data →
    c.ecx ≠ 0 → ∃ c', step base (stringCode move rep) ⟨c, rep :: rest⟩ = some ⟨c', rep :: rest⟩ ∧
      P (i + 4) c'.data ∧ c'.ecx = c.ecx - 1 ∧ c'.edx = c.edx ∧ c'.ds = ds ∧ c'.es = ds ∧
      c'.df = false
  last : ∀ c rest, c.ecx = 0 → step base (stringCode move rep) ⟨c, rep :: rest⟩ = some ⟨c, rest⟩
  repPlain : ∀ l, rep.marks l = false

namespace Moves

variable {base : BitVec 16 → Word} {move : List (Instr StringLabel)} {rep : Instr StringLabel}
  {ds : BitVec 16} {n : Nat} {P : Nat → Data → Prop}

/-! ## The labels -/

theorem target_aligned (h : Moves base move rep ds n P) :
    target .aligned (stringCode move rep) = alignedCode move rep :=
  target_append (fun i hi => h.unlabelled i hi .aligned) _

theorem target_behind (h : Moves base move rep ds n P) {l : StringLabel}
    (htop : l ≠ .top) (haligned : l ≠ .aligned) : target l (stringCode move rep) =
      target l (.label .bottom :: bottomCode move) := by
  have hmove := target_append (fun i hi => h.unlabelled i hi l)
    ([.subl 1 .ecx, .jmp .top, .label .aligned] ++ alignedCode move rep)
  have hrep : target l (rep :: .label .bottom :: bottomCode move) =
      target l (.label .bottom :: bottomCode move) := by
    rw [target, h.repPlain]
    rfl
  cases l with
  | top => exact absurd rfl htop
  | aligned => exact absurd rfl haligned
  | bottom => exact hmove.trans hrep
  | done => exact hmove.trans hrep

theorem target_bottom (h : Moves base move rep ds n P) :
    target .bottom (stringCode move rep) = bottomCode move :=
  h.target_behind (by decide) (by decide)

theorem target_done (h : Moves base move rep ds n P) :
    target .done (stringCode move rep) = [] :=
  (h.target_behind (by decide) (by decide)).trans
    (target_append (fun i hi => h.unlabelled i hi .done) _)

/-! ## The loops -/

/-- A counter that is counted down. -/
theorem toNat_pred {w : Word} {m : Nat} (hw : w.toNat = m + 1) : (w - 1).toNat = m := by
  have hlt := w.isLt
  rw [BitVec.toNat_sub, hw, show (1 : Word).toNat = 1 from rfl]
  omega

theorem ne_zero_of_toNat {w : Word} {m : Nat} (hw : w.toNat = m + 1) : w ≠ 0 := by
  rintro rfl
  exact absurd hw (Nat.succ_ne_zero m).symm

theorem bottom_test (h : Moves base move rep ds n P) (c : Cpu) : ∃ z,
    Reaches (step base (stringCode move rep)) ⟨c, bottomCode move⟩
      ⟨{ c with zf := z }, if c.edx = 0 then []
        else move ++ [.subl 1 .edx, .jmp .bottom, .label .done]⟩ := by
  have htest := reaches_testl_jz base (stringCode move rep) c .edx .done
    (move ++ [.subl 1 .edx, .jmp .bottom, .label .done])
  rw [h.target_done] at htest
  exact htest

/-- The bytes left over. -/
theorem bottom (h : Moves base move rep ds n P) {m i : Nat} (hm : i + m = n) {c : Cpu}
    (hds : c.ds = ds) (hedx : c.edx.toNat = m) (hP : P i c.data) :
    ∃ c', Reaches (step base (stringCode move rep)) ⟨c, bottomCode move⟩ ⟨c', []⟩ ∧
      P n c'.data := by
  induction m generalizing i c with
  | zero =>
    obtain ⟨z, htest⟩ := h.bottom_test c
    rw [if_pos (BitVec.eq_of_toNat_eq hedx)] at htest
    exact ⟨_, htest, hm ▸ hP⟩
  | succ m ih =>
    obtain ⟨z, htest⟩ := h.bottom_test c
    rw [if_neg (ne_zero_of_toNat hedx)] at htest
    obtain ⟨c₁, hbyte, hP₁, _, hedx₁, hds₁⟩ := h.byte i { c with zf := z }
      [.subl 1 .edx, .jmp .bottom, .label .done] (by omega) hds hP
    have hback : Reaches (step base (stringCode move rep))
        ⟨c₁, [.subl 1 .edx, .jmp .bottom, .label .done]⟩
        ⟨c₁.result .edx (c₁.edx - 1), bottomCode move⟩ := by
      refine ReflTransGen.head rfl (ReflTransGen.single ?_)
      rw [← h.target_bottom]
      rfl
    have hcount : (c₁.edx - 1).toNat = m := toNat_pred (hedx₁ ▸ hedx)
    obtain ⟨c', hrest, hdone⟩ := ih (c := c₁.result .edx (c₁.edx - 1)) (by omega) hds₁ hcount hP₁
    exact ⟨c', htest.trans (hbyte.trans (hback.trans hrest)), hdone⟩

/-- The doublewords and the rest. -/
theorem words (h : Moves base move rep ds n P) {m r i : Nat} (hm : i + 4 * m + r = n) {c : Cpu}
    (hds : c.ds = ds) (hes : c.es = ds) (hdf : c.df = false) (hecx : c.ecx.toNat = m)
    (hedx : c.edx.toNat = r) (hP : P i c.data) :
    ∃ c', Reaches (step base (stringCode move rep))
      ⟨c, rep :: .label .bottom :: bottomCode move⟩ ⟨c', []⟩ ∧ P n c'.data := by
  induction m generalizing i c with
  | zero =>
    have hlast := h.last c (.label .bottom :: bottomCode move) (BitVec.eq_of_toNat_eq hecx)
    obtain ⟨c', hrest, hdone⟩ := h.bottom hm hds hedx hP
    exact ⟨c', .head hlast (.head rfl hrest), hdone⟩
  | succ m ih =>
    obtain ⟨c₁, hword, hP₁, hecx₁, hedx₁, hds₁, hes₁, hdf₁⟩ :=
      h.word i c (.label .bottom :: bottomCode move) (by omega) hds hes hdf hP
        (ne_zero_of_toNat hecx)
    obtain ⟨c', hrest, hdone⟩ := ih (by omega) hds₁ hes₁ hdf₁
      (by rw [hecx₁]; exact toNat_pred hecx) (by rw [hedx₁]; exact hedx) hP₁
    exact ⟨c', .head hword hrest, hdone⟩

/-- The doublewords and the rest, as shift and mask split the count. -/
theorem aligned (h : Moves base move rep ds n P) {m i : Nat} (hm : i + m = n) {c : Cpu}
    (hds : c.ds = ds) (hecx : c.ecx.toNat = m) (hP : P i c.data) :
    ∃ c', Reaches (step base (stringCode move rep)) ⟨c, alignedCode move rep⟩ ⟨c', []⟩ ∧
      P n c'.data := by
  have hsegment := reaches_es_ds base (stringCode move rep) c
    ([.movl .ecx .edx, .shrl 2 .ecx, .andl 3 .edx, .cld, rep, .label .bottom] ++ bottomCode move)
  have hshift : (c.ecx >>> 2).toNat = m / 4 := by
    rw [BitVec.toNat_ushiftRight, hecx, Nat.shiftRight_eq_div_pow]
  have hmask : (c.ecx &&& 3).toNat = m % 4 := by
    rw [BitVec.toNat_and, hecx]
    exact Nat.and_two_pow_sub_one_eq_mod m 2
  have hsplit : Reaches (step base (stringCode move rep))
      ⟨{ c with edx := setLowHalf c.edx c.ds, es := c.ds },
        [.movl .ecx .edx, .shrl 2 .ecx, .andl 3 .edx, .cld, rep, .label .bottom] ++
          bottomCode move⟩
      ⟨c.split, rep :: .label .bottom :: bottomCode move⟩ :=
    .head rfl (.head rfl (.head rfl (.single rfl)))
  have hcount : i + 4 * (m / 4) + m % 4 = n := by omega
  obtain ⟨c', hrest, hdone⟩ := h.words (c := c.split) hcount hds hds rfl hshift hmask hP
  exact ⟨c', hsegment.trans (hsplit.trans hrest), hdone⟩

theorem top_test (h : Moves base move rep ds n P) (c : Cpu) : ∃ z,
    Reaches (step base (stringCode move rep)) ⟨c, topCode move rep⟩
      ⟨{ c with zf := z }, if c.ecx = 0 then []
        else if 3 &&& c.edi = 0 then alignedCode move rep
        else move ++ ([.subl 1 .ecx, .jmp .top, .label .aligned] ++ alignedCode move rep)⟩ := by
  obtain ⟨z, hzero⟩ := reaches_testl_jz base (stringCode move rep) c .ecx .done
    (.testlImm 3 .edi :: .jz .aligned ::
      (move ++ ([.subl 1 .ecx, .jmp .top, .label .aligned] ++ alignedCode move rep)))
  rw [h.target_done] at hzero
  by_cases hecx : c.ecx = 0
  · rw [if_pos hecx]
    have hdone : c.get .ecx = 0 := hecx
    rw [if_pos hdone] at hzero
    exact ⟨z, hzero⟩
  · rw [if_neg hecx]
    have hmore : ¬ c.get .ecx = 0 := hecx
    rw [if_neg hmore] at hzero
    obtain ⟨z', halign⟩ := reaches_testlImm_jz base (stringCode move rep) { c with zf := z } 3 .edi
      .aligned (move ++ ([.subl 1 .ecx, .jmp .top, .label .aligned] ++ alignedCode move rep))
    rw [h.target_aligned] at halign
    exact ⟨z', hzero.trans halign⟩

/-- From the top: `ecx` bytes are left. -/
theorem top (h : Moves base move rep ds n P) {m i : Nat} (hm : i + m = n) {c : Cpu}
    (hds : c.ds = ds) (hecx : c.ecx.toNat = m) (hP : P i c.data) :
    ∃ c', Reaches (step base (stringCode move rep)) ⟨c, topCode move rep⟩ ⟨c', []⟩ ∧
      P n c'.data := by
  induction m generalizing i c with
  | zero =>
    obtain ⟨z, htest⟩ := h.top_test c
    rw [if_pos (BitVec.eq_of_toNat_eq hecx)] at htest
    exact ⟨_, htest, hm ▸ hP⟩
  | succ m ih =>
    obtain ⟨z, htest⟩ := h.top_test c
    rw [if_neg (ne_zero_of_toNat hecx)] at htest
    split at htest
    · -- at a doubleword boundary
      obtain ⟨c', hrest, hdone⟩ := h.aligned (c := { c with zf := z }) hm hds hecx hP
      exact ⟨c', htest.trans hrest, hdone⟩
    · obtain ⟨c₁, hbyte, hP₁, hecx₁, _, hds₁⟩ := h.byte i { c with zf := z }
        ([.subl 1 .ecx, .jmp .top, .label .aligned] ++ alignedCode move rep) (by omega) hds hP
      have hback : Reaches (step base (stringCode move rep))
          ⟨c₁, [.subl 1 .ecx, .jmp .top, .label .aligned] ++ alignedCode move rep⟩
          ⟨c₁.result .ecx (c₁.ecx - 1), topCode move rep⟩ := .head rfl (.single rfl)
      have hcount : (c₁.ecx - 1).toNat = m := toNat_pred (hecx₁ ▸ hecx)
      obtain ⟨c', hrest, hdone⟩ := ih (c := c₁.result .ecx (c₁.ecx - 1)) (by omega) hds₁ hcount hP₁
      exact ⟨c', htest.trans (hbyte.trans (hback.trans hrest)), hdone⟩

/-- The loop ends with all of the bytes done. -/
theorem run (h : Moves base move rep ds n P) {c : Cpu} (hds : c.ds = ds)
    (hecx : c.ecx.toNat = n) (hP : P 0 c.data) :
    ∃ c', ⟨c', []⟩ ∈ eval (step base (stringCode move rep)) ⟨c, stringCode move rep⟩ ∧
      P n c'.data := by
  obtain ⟨c', hreach, hdone⟩ := h.top (Nat.zero_add n) hds hecx hP
  exact ⟨c', mem_eval.mpr ⟨.head rfl hreach, rfl⟩, hdone⟩

end Moves

end LmaOS.Util.X86
