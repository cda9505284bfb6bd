import Mathlib.Computability.StateTransition
import LmaOS.Util.Buffer

/-
  A small x86 machine, for loops that fill or copy memory.

  `Instr` are the instructions such a loop is made of, with labels in the text. `step` executes
  one of them, a `rep` instruction one repetition at a time, and stops behind the last one. `base`
  says where a segment begins. Addresses wrap around.

  `Writes mem mem' a n f` says what a piece of code wrote: `f` to the `n` bytes from `a` on, and
  nothing else. `written` is that memory, and `written_byte` and `written_dword` are the stores
  that extend it.
-/
namespace LmaOS.Util.X86

open Relation StateTransition

abbrev Word := BitVec 32

abbrev Memory := Word → UInt8

inductive Reg where
  | eax | ecx | edx | esi | edi

/-- Sources come first, as the assembler writes them. -/
inductive Instr (L : Type) where
  | label (l : L)
  | jz (l : L)
  | jmp (l : L)
  | testl (src dst : Reg)
  | testlImm (imm : Word) (dst : Reg)
  /-- `movb %src, (%addr)` with the low byte of a register. -/
  | movbTo (src addr : Reg)
  /-- `movb (%addr), %dst` into the low byte of a register. -/
  | movbFrom (addr dst : Reg)
  | movl (src dst : Reg)
  | addl (imm : Word) (dst : Reg)
  | subl (imm : Word) (dst : Reg)
  | andl (imm : Word) (dst : Reg)
  | shrl (imm : Nat) (dst : Reg)
  /-- `movw %ds, %dst` into the low half of a register. -/
  | movwDs (dst : Reg)
  /-- `movw %src, %es` from the low half of a register. -/
  | movwEs (src : Reg)
  | cld
  | repStosl
  | repMovsl

structure Cpu where
  eax : Word
  ecx : Word
  edx : Word
  esi : Word
  edi : Word
  ds : BitVec 16
  es : BitVec 16
  zf : Bool
  df : Bool
  mem : Memory

/-! ## Bytes of a word -/

def lowByte (w : Word) : UInt8 := UInt8.ofBitVec (w.setWidth 8)

def setLowByte (w : Word) (b : UInt8) : Word := w.extractLsb' 8 24 ++ b.toBitVec

def setLowHalf (w : Word) (h : BitVec 16) : Word := w.extractLsb' 16 16 ++ h

/-- The little-endian word at an address. -/
def loadDword (mem : Memory) (a : Word) : Word :=
  BitVec.ofNat 32 (Buf.word (fun k => mem (a + BitVec.ofNat 32 k)) 0)

def storeDword (mem : Memory) (a w : Word) : Memory := fun x =>
  if (x - a).toNat < 4 then wordByte w.toNat (x - a).toNat else mem x

theorem lowByte_setLowByte (w : Word) (b : UInt8) : lowByte (setLowByte w b) = b := by
  unfold lowByte setLowByte
  rw [BitVec.setWidth_append, dif_pos (Nat.le_refl 8), BitVec.setWidth_eq]

theorem setWidth_setLowHalf (w : Word) (h : BitVec 16) : (setLowHalf w h).setWidth 16 = h := by
  unfold setLowHalf
  rw [BitVec.setWidth_append, dif_pos (Nat.le_refl 16), BitVec.setWidth_eq]

theorem lowByte_eq (w : Word) : lowByte w = wordByte w.toNat 0 := by
  rw [← UInt8.toNat_inj, wordByte_toNat]
  show (w.setWidth 8).toNat = _
  rw [BitVec.toNat_setWidth, Nat.pow_zero, Nat.div_one]

theorem wordByte_loadDword (mem : Memory) (a : Word) {k : Nat} (hk : k < 4) :
    wordByte (loadDword mem a).toNat k = mem (a + BitVec.ofNat 32 k) := by
  have hlt := Buf.word_lt (fun k => mem (a + BitVec.ofNat 32 k)) 0
  unfold loadDword
  rw [BitVec.toNat_ofNat, Nat.mod_eq_of_lt hlt, wordByte_word _ 0 hk, Nat.zero_add]

/-! ## Execution -/

namespace Cpu

def get (c : Cpu) : Reg → Word
  | .eax => c.eax
  | .ecx => c.ecx
  | .edx => c.edx
  | .esi => c.esi
  | .edi => c.edi

def set (c : Cpu) (r : Reg) (w : Word) : Cpu :=
  match r with
  | .eax => { c with eax := w }
  | .ecx => { c with ecx := w }
  | .edx => { c with edx := w }
  | .esi => { c with esi := w }
  | .edi => { c with edi := w }

/-- The result of an arithmetic instruction, with the zero flag it sets. -/
def result (c : Cpu) (dst : Reg) (w : Word) : Cpu := { c.set dst w with zf := decide (w = 0) }

/-- The direction of the string instructions. -/
def stride (c : Cpu) : Word := if c.df then -4 else 4

theorem stride_up (c : Cpu) (h : c.df = false) : c.stride = 4 := by
  unfold stride
  rw [h]
  rfl

/-- One repetition of `stosl`. -/
def stosl (base : BitVec 16 → Word) (c : Cpu) : Cpu :=
  { c with
    mem := storeDword c.mem (base c.es + c.edi) c.eax
    edi := c.edi + c.stride
    ecx := c.ecx - 1 }

/-- One repetition of `movsl`. -/
def movsl (base : BitVec 16 → Word) (c : Cpu) : Cpu :=
  { c with
    mem := storeDword c.mem (base c.es + c.edi) (loadDword c.mem (base c.ds + c.esi))
    esi := c.esi + c.stride
    edi := c.edi + c.stride
    ecx := c.ecx - 1 }

end Cpu

section Machine

variable {L : Type} [DecidableEq L]

/-- What a plain instruction does. -/
def Instr.exec (base : BitVec 16 → Word) (c : Cpu) : Instr L → Cpu
  | testl src dst => { c with zf := decide (c.get src &&& c.get dst = 0) }
  | testlImm imm dst => { c with zf := decide (imm &&& c.get dst = 0) }
  | movbTo src addr =>
    { c with mem := Function.update c.mem (base c.ds + c.get addr) (lowByte (c.get src)) }
  | movbFrom addr dst => c.set dst (setLowByte (c.get dst) (c.mem (base c.ds + c.get addr)))
  | movl src dst => c.set dst (c.get src)
  | addl imm dst => c.result dst (c.get dst + imm)
  | subl imm dst => c.result dst (c.get dst - imm)
  | andl imm dst => c.result dst (c.get dst &&& imm)
  | shrl imm dst => c.result dst (c.get dst >>> imm)
  | movwDs dst => c.set dst (setLowHalf (c.get dst) c.ds)
  | movwEs src => { c with es := (c.get src).setWidth 16 }
  | cld => { c with df := false }
  | label _ | jz _ | jmp _ | repStosl | repMovsl => c

def Instr.marks (l : L) : Instr L → Bool
  | label l' => decide (l' = l)
  | _ => false

/-- The code behind a label. -/
def target (l : L) : List (Instr L) → List (Instr L)
  | [] => []
  | i :: is => if i.marks l then is else target l is

/-- The processor, and the code from the instruction pointer on. -/
structure Config (L : Type) where
  cpu : Cpu
  rest : List (Instr L)

/-- One instruction of `code`, or one repetition. -/
def step (base : BitVec 16 → Word) (code : List (Instr L)) : Config L → Option (Config L)
  | ⟨_, []⟩ => none
  | ⟨c, i :: rest⟩ =>
    some (match i with
      | .jz l => ⟨c, if c.zf then target l code else rest⟩
      | .jmp l => ⟨c, target l code⟩
      | .repStosl => if c.ecx = 0 then ⟨c, rest⟩ else ⟨c.stosl base, .repStosl :: rest⟩
      | .repMovsl => if c.ecx = 0 then ⟨c, rest⟩ else ⟨c.movsl base, .repMovsl :: rest⟩
      | i => ⟨i.exec base c, rest⟩)

theorem target_append {l : L} {is : List (Instr L)} (h : ∀ i ∈ is, i.marks l = false)
    (js : List (Instr L)) : target l (is ++ js) = target l js := by
  induction is with
  | nil => rfl
  | cons i is ih =>
    obtain ⟨hi, his⟩ := List.forall_mem_cons.mp h
    rw [List.cons_append, target, hi]
    exact ih his

/-- A register is tested for zero, and the branch taken if it is. -/
theorem reaches_testl_jz (base : BitVec 16 → Word) (code : List (Instr L)) (c : Cpu) (r : Reg)
    (l : L) (rest : List (Instr L)) : ∃ z,
    Reaches (step base code) ⟨c, .testl r r :: .jz l :: rest⟩
      ⟨{ c with zf := z }, if c.get r = 0 then target l code else rest⟩ := by
  refine ⟨decide (c.get r = 0), ReflTransGen.head rfl (ReflTransGen.single ?_)⟩
  show some _ = some _
  simp only [Instr.exec, BitVec.and_self, decide_eq_true_eq]

/-- The same with some bits of the register. -/
theorem reaches_testlImm_jz (base : BitVec 16 → Word) (code : List (Instr L)) (c : Cpu)
    (imm : Word) (r : Reg) (l : L) (rest : List (Instr L)) : ∃ z,
    Reaches (step base code) ⟨c, .testlImm imm r :: .jz l :: rest⟩
      ⟨{ c with zf := z }, if imm &&& c.get r = 0 then target l code else rest⟩ := by
  refine ⟨decide (imm &&& c.get r = 0), ReflTransGen.head rfl (ReflTransGen.single ?_)⟩
  show some _ = some _
  simp only [Instr.exec, decide_eq_true_eq]

/-- The extra segment is made the data segment. -/
theorem reaches_es_ds (base : BitVec 16 → Word) (code : List (Instr L)) (c : Cpu)
    (rest : List (Instr L)) :
    Reaches (step base code) ⟨c, .movwDs .edx :: .movwEs .edx :: rest⟩
      ⟨{ c with edx := setLowHalf c.edx c.ds, es := c.ds }, rest⟩ := by
  refine ReflTransGen.head rfl (ReflTransGen.single ?_)
  show some (Config.mk { c with
    edx := setLowHalf c.edx c.ds, es := (setLowHalf c.edx c.ds).setWidth 16 } rest) = _
  rw [setWidth_setLowHalf]

end Machine

/-! ## Ranges of addresses -/

/-- Memory with the `n` bytes from `a` on replaced, byte `a + i` by `f i`. -/
def written (mem : Memory) (a : Word) (n : Nat) (f : Nat → UInt8) : Memory := fun x =>
  if (x - a).toNat < n then f (x - a).toNat else mem x

/-- The `n` bytes from `a` on are those of `f`, and no other byte changed. -/
structure Writes (mem mem' : Memory) (a : Word) (n : Nat) (f : Nat → UInt8) : Prop where
  inside : ∀ i, i < n → mem' (a + BitVec.ofNat 32 i) = f i
  outside : ∀ x, (∀ i, i < n → x ≠ a + BitVec.ofNat 32 i) → mem' x = mem x

section Ranges

variable {mem : Memory} {a : Word} {n : Nat} {f : Nat → UInt8}

theorem addr_add (a : Word) (i k : Nat) :
    a + BitVec.ofNat 32 i + BitVec.ofNat 32 k = a + BitVec.ofNat 32 (i + k) := by
  rw [BitVec.add_assoc, ← BitVec.ofNat_add]

theorem toNat_add_sub (a : Word) {i : Nat} (hi : i < 2 ^ 32) :
    (a + BitVec.ofNat 32 i - a).toNat = i := by
  rw [BitVec.add_comm, BitVec.add_sub_cancel, BitVec.toNat_ofNat, Nat.mod_eq_of_lt hi]

theorem add_toNat_sub (a x : Word) : a + BitVec.ofNat 32 (x - a).toNat = x := by
  rw [BitVec.ofNat_toNat, BitVec.setWidth_eq, BitVec.add_comm, BitVec.sub_add_cancel]

/-- The distance from `a + n`. -/
theorem toNat_sub_add (x a : Word) {n : Nat} (hn : n < 2 ^ 32) :
    (x - (a + BitVec.ofNat 32 n)).toNat = ((x - a).toNat + (2 ^ 32 - n)) % 2 ^ 32 := by
  rw [BitVec.toNat_sub, BitVec.toNat_add, BitVec.toNat_ofNat, Nat.mod_eq_of_lt hn,
    BitVec.toNat_sub]
  have hx := x.isLt
  have ha := a.isLt
  omega

theorem written_zero (mem : Memory) (a : Word) (f : Nat → UInt8) : written mem a 0 f = mem :=
  funext fun _ => if_neg (Nat.not_lt_zero _)

theorem written_writes (hn : n ≤ 2 ^ 32) : Writes mem (written mem a n f) a n f where
  inside := by
    intro i hi
    unfold written
    rw [toNat_add_sub a (by omega), if_pos hi]
  outside := fun x hx => if_neg fun hlt => hx _ hlt (add_toNat_sub a x).symm

/-- One more byte. -/
theorem written_byte (hn : n < 2 ^ 32) :
    Function.update (written mem a n f) (a + BitVec.ofNat 32 n) (f n) =
      written mem a (n + 1) f := by
  funext x
  rw [Function.update_apply]
  unfold written
  by_cases hx : x = a + BitVec.ofNat 32 n
  · rw [if_pos hx, hx, toNat_add_sub a hn, if_pos (Nat.lt_succ_self n)]
  · have hne : (x - a).toNat ≠ n := by
      intro he
      rw [← he, add_toNat_sub] at hx
      exact hx rfl
    rw [if_neg hx]
    exact if_congr (by omega) rfl rfl

/-- Four more bytes. -/
theorem written_dword (hn : n + 4 ≤ 2 ^ 32) {w : Word}
    (hw : ∀ k, k < 4 → wordByte w.toNat k = f (n + k)) :
    storeDword (written mem a n f) (a + BitVec.ofNat 32 n) w = written mem a (n + 4) f := by
  funext x
  have hlt := (x - a).isLt
  unfold storeDword written
  rw [toNat_sub_add x a (by omega)]
  generalize (x - a).toNat = i at hlt
  by_cases hword : n ≤ i ∧ i < n + 4
  · have hoffset : (i + (2 ^ 32 - n)) % 2 ^ 32 = i - n := by omega
    rw [hoffset, if_pos (by omega), if_pos hword.2, hw _ (by omega),
      Nat.add_sub_cancel' hword.1]
  · rw [if_neg (by omega)]
    exact if_congr (by omega) rfl rfl

/-- The bytes from `a` on are those of a buffer. -/
def HoldsBytes (mem : Memory) (a : Word) (len : Nat) (buf : Buf) : Prop :=
  ∀ i, i < len → mem (a + BitVec.ofNat 32 i) = buf i

/-- A write inside a buffer. -/
theorem Writes.holdsBytes {mem' : Memory} {len o : Nat} {buf : Buf}
    (h : Writes mem mem' (a + BitVec.ofNat 32 o) n f) (hbuf : HoldsBytes mem a len buf)
    (hin : o + n ≤ len) (hlen : len ≤ 2 ^ 32) :
    HoldsBytes mem' a len fun i => if o ≤ i ∧ i < o + n then f (i - o) else buf i := by
  intro i hi
  dsimp only
  split
  · rename_i hinside
    have hbyte := h.inside (i - o) (by omega)
    rw [addr_add, Nat.add_sub_cancel' hinside.1] at hbyte
    exact hbyte
  · rename_i houtside
    rw [h.outside _ fun k hk he => ?_]
    · exact hbuf i hi
    · -- distinct offsets below 2 ^ 32 are distinct addresses
      rw [addr_add] at he
      have hoffset : (a + BitVec.ofNat 32 i - a).toNat = (a + BitVec.ofNat 32 (o + k) - a).toNat :=
        congrArg (fun x => (x - a).toNat) he
      rw [toNat_add_sub a (by omega), toNat_add_sub a (by omega)] at hoffset
      omega

end Ranges

end LmaOS.Util.X86
