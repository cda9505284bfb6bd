import LmaOS.Util.StringCode
import LmaOS.Terminal

/-
  `memset` and `memcpy` of lib.c, instruction by instruction.

  Both are `stringCode`: single bytes up to a doubleword boundary of the destination, then
  doublewords, then the rest. `memset_writes` and `memcpy_writes` say that they end and what they
  write, for every address and size; `memory_routines` is the two together.

  `memcpy_copyPage` and `memcpy_program` are the calls of `switch_terminal` and `execute`: what
  the model has there in closed form.
-/
namespace LmaOS

open Util X86 Relation StateTransition

/-! ## The code -/

def memsetCode : List (Instr StringLabel) := [
  .label .top,
  .testl .ecx .ecx,
  .jz .done,
  .testlImm 0x3 .edi,
  .jz .aligned,
  .movbTo .eax .edi,
  .addl 1 .edi,
  .subl 1 .ecx,
  .jmp .top,
  .label .aligned,
  .movwDs .edx,
  .movwEs .edx,
  .movl .ecx .edx,
  .shrl 2 .ecx,
  .andl 0x3 .edx,
  .cld,
  .repStosl,
  .label .bottom,
  .testl .edx .edx,
  .jz .done,
  .movbTo .eax .edi,
  .addl 1 .edi,
  .subl 1 .edx,
  .jmp .bottom,
  .label .done]

def memcpyCode : List (Instr StringLabel) := [
  .label .top,
  .testl .ecx .ecx,
  .jz .done,
  .testlImm 0x3 .edi,
  .jz .aligned,
  .movbFrom .esi .eax,
  .movbTo .eax .edi,
  .addl 1 .edi,
  .addl 1 .esi,
  .subl 1 .ecx,
  .jmp .top,
  .label .aligned,
  .movwDs .edx,
  .movwEs .edx,
  .movl .ecx .edx,
  .shrl 2 .ecx,
  .andl 0x3 .edx,
  .cld,
  .repMovsl,
  .label .bottom,
  .testl .edx .edx,
  .jz .done,
  .movbFrom .esi .eax,
  .movbTo .eax .edi,
  .addl 1 .edi,
  .addl 1 .esi,
  .subl 1 .edx,
  .jmp .bottom,
  .label .done]

/-- What a routine returns, and the memory it leaves. -/
structure RoutineResult where
  ret : Word
  mem : Memory

/-- `c << 24 | c << 16 | c << 8 | c`, after `c &= 0xFF`. -/
def memsetPattern (c : Word) : Word :=
  let c := c &&& 0xFF
  c <<< 24 ||| c <<< 16 ||| c <<< 8 ||| c

/-- `memset(s, c, n)`, entered with the registers of `cpu`. -/
def memset (base : BitVec 16 → Word) (cpu : Cpu) (s c n : Word) : Part RoutineResult :=
  (eval (step base memsetCode)
    ⟨{ cpu with eax := memsetPattern c, edi := s, ecx := n }, memsetCode⟩).map
      fun r => ⟨s, r.cpu.mem⟩

/-- `memcpy(dest, src, n)`, entered with the registers of `cpu`. -/
def memcpy (base : BitVec 16 → Word) (cpu : Cpu) (dest src n : Word) : Part RoutineResult :=
  (eval (step base memcpyCode)
    ⟨{ cpu with esi := src, edi := dest, ecx := n }, memcpyCode⟩).map
      fun r => ⟨dest, r.cpu.mem⟩

theorem memsetCode_eq : memsetCode = stringCode [.movbTo .eax .edi, .addl 1 .edi] .repStosl := rfl

theorem memcpyCode_eq : memcpyCode = stringCode
    [.movbFrom .esi .eax, .movbTo .eax .edi, .addl 1 .edi, .addl 1 .esi] .repMovsl := rfl

/-! ## memset -/

/-- Every byte of the pattern is `c`. -/
theorem memsetPattern_byte (c : Word) {k : Nat} (hk : k < 4) :
    wordByte (memsetPattern c).toNat k = UInt8.ofNat (c.toNat % 256) := by
  have hall : ∀ b : Fin 256, ∀ k : Fin 4, wordByte (BitVec.ofNat 32 b <<< 24 |||
      BitVec.ofNat 32 b <<< 16 ||| BitVec.ofNat 32 b <<< 8 ||| BitVec.ofNat 32 b).toNat k =
        UInt8.ofNat b := by decide +kernel
  have hmask : c &&& 0xFF = BitVec.ofNat 32 (c.toNat % 256) := by
    apply BitVec.eq_of_toNat_eq
    rw [BitVec.toNat_and, BitVec.toNat_ofNat, show (0xFF : Word).toNat = 2 ^ 8 - 1 from rfl,
      Nat.and_two_pow_sub_one_eq_mod]
    omega
  unfold memsetPattern
  rw [hmask]
  exact hall ⟨c.toNat % 256, Nat.mod_lt _ (by decide)⟩ ⟨k, hk⟩

section Memset

variable (base : BitVec 16 → Word) (cpu : Cpu) (s c n : Word)

/-- `i` bytes are set. -/
def SetBytes (i : Nat) (d : Data) : Prop :=
  d.eax = memsetPattern c ∧ d.edi = s + BitVec.ofNat 32 i ∧
    d.mem = written cpu.mem (base cpu.ds + s) i fun _ => UInt8.ofNat (c.toNat % 256)

theorem memset_moves : Moves base [.movbTo .eax .edi, .addl 1 .edi] .repStosl cpu.ds n.toNat
    (SetBytes base cpu s c) where
  unlabelled := by
    intro i hi l
    rcases List.mem_cons.mp hi with rfl | hi
    · rfl
    · obtain rfl := List.mem_singleton.mp hi
      rfl
  repPlain := fun _ => rfl
  byte := by
    rintro i c₁ rest hi hds ⟨heax, hedi, hmem⟩
    dsimp only [Cpu.data] at heax hedi hmem
    have hlt := n.isLt
    refine ⟨_, .head rfl (.single rfl), ⟨heax, ?_, ?_⟩, rfl, rfl, hds⟩
    · show c₁.edi + 1 = _
      rw [hedi]
      exact addr_add s i 1
    · show Function.update c₁.mem (base c₁.ds + c₁.edi) (lowByte c₁.eax) = _
      have hbyte : lowByte (memsetPattern c) = UInt8.ofNat (c.toNat % 256) := by
        rw [← memsetPattern_byte c (by decide : 0 < 4), lowByte_eq]
      rw [hds, hedi, heax, hmem, ← BitVec.add_assoc, hbyte]
      exact written_byte (f := fun _ => UInt8.ofNat (c.toNat % 256)) (by omega)
  word := by
    rintro i c₁ rest hi hds hes hdf ⟨heax, hedi, hmem⟩ hecx
    dsimp only [Cpu.data] at heax hedi hmem
    have hlt := n.isLt
    refine ⟨c₁.stosl base, congrArg some (if_neg hecx), ⟨heax, ?_, ?_⟩, rfl, rfl, hds, hes, hdf⟩
    · show c₁.edi + c₁.stride = _
      rw [c₁.stride_up hdf, hedi]
      exact addr_add s i 4
    · -- the store goes through `es`, by now the data segment
      show storeDword c₁.mem (base c₁.es + c₁.edi) c₁.eax = _
      rw [hes, hedi, heax, hmem, ← BitVec.add_assoc]
      exact written_dword (by omega) fun k hk => memsetPattern_byte c hk
  last := fun c₁ rest hecx => congrArg some (if_pos hecx)

/-- `memset` sets its bytes and no others. -/
theorem memset_writes : ∃ r ∈ memset base cpu s c n, r.ret = s ∧
    Writes cpu.mem r.mem (base cpu.ds + s) n.toNat fun _ => UInt8.ofNat (c.toNat % 256) := by
  have hlt := n.isLt
  obtain ⟨c', heval, _, _, hmem⟩ := (memset_moves base cpu s c n).run
    (c := { cpu with eax := memsetPattern c, edi := s, ecx := n }) rfl rfl
    ⟨rfl, (BitVec.add_zero s).symm, (written_zero _ _ _).symm⟩
  rw [← memsetCode_eq] at heval
  refine ⟨⟨s, c'.mem⟩, (Part.mem_map_iff _).mpr ⟨_, heval, rfl⟩, rfl, ?_⟩
  show Writes cpu.mem c'.mem _ _ _
  rw [show c'.mem = _ from hmem]
  exact written_writes (by omega)

end Memset

/-! ## memcpy -/

/-- The ranges of `n` bytes at `dest` and `src` neither wrap nor overlap. -/
structure Apart (dest src : Word) (n : Nat) : Prop where
  destFits : dest.toNat + n ≤ 2 ^ 32
  srcFits : src.toNat + n ≤ 2 ^ 32
  disjoint : dest.toNat + n ≤ src.toNat ∨ src.toNat + n ≤ dest.toNat

instance (dest src : Word) (n : Nat) : Decidable (Apart dest src n) :=
  decidable_of_iff (dest.toNat + n ≤ 2 ^ 32 ∧ src.toNat + n ≤ 2 ^ 32 ∧
      (dest.toNat + n ≤ src.toNat ∨ src.toNat + n ≤ dest.toNat))
    ⟨fun ⟨hdest, hsrc, h⟩ => ⟨hdest, hsrc, h⟩, fun h => ⟨h.destFits, h.srcFits, h.disjoint⟩⟩

/-- No byte of the source is one of the destination, wherever the segment begins. -/
theorem Apart.ne {dest src : Word} {n i j : Nat} (h : Apart dest src n) (hi : i < n) (hj : j < n)
    (b : Word) : b + src + BitVec.ofNat 32 i ≠ b + dest + BitVec.ofNat 32 j := by
  obtain ⟨hdest, hsrc, hdisjoint⟩ := h
  intro he
  rw [BitVec.add_assoc, BitVec.add_assoc] at he
  have he := congrArg BitVec.toNat ((BitVec.add_right_inj b).mp he)
  rw [BitVec.toNat_add, BitVec.toNat_add, BitVec.toNat_ofNat, BitVec.toNat_ofNat] at he
  omega

section Memcpy

variable (base : BitVec 16 → Word) (cpu : Cpu) (dest src n : Word)

/-- Byte `i` of the source. -/
def sourceByte (i : Nat) : UInt8 := cpu.mem (base cpu.ds + src + BitVec.ofNat 32 i)

/-- `i` bytes are copied. -/
def CopiedBytes (i : Nat) (d : Data) : Prop :=
  d.esi = src + BitVec.ofNat 32 i ∧ d.edi = dest + BitVec.ofNat 32 i ∧
    d.mem = written cpu.mem (base cpu.ds + dest) i (sourceByte base cpu src)

variable {dest src n}

/-- The source is still as it was. -/
theorem source_kept (h : Apart dest src n.toNat) {i j : Nat} (hi : i ≤ n.toNat)
    (hj : j < n.toNat) : written cpu.mem (base cpu.ds + dest) i (sourceByte base cpu src)
      (base cpu.ds + src + BitVec.ofNat 32 j) = sourceByte base cpu src j := by
  have hlt := n.isLt
  have hwrites : Writes cpu.mem (written cpu.mem (base cpu.ds + dest) i (sourceByte base cpu src))
      (base cpu.ds + dest) i (sourceByte base cpu src) := written_writes (by omega)
  exact hwrites.outside _ fun k hk => h.ne hj (by omega) _

theorem memcpy_moves (h : Apart dest src n.toNat) :
    Moves base [.movbFrom .esi .eax, .movbTo .eax .edi, .addl 1 .edi, .addl 1 .esi] .repMovsl
      cpu.ds n.toNat (CopiedBytes base cpu dest src) where
  unlabelled := by
    intro i hi l
    simp only [List.mem_cons, List.not_mem_nil, or_false] at hi
    rcases hi with rfl | rfl | rfl | rfl
    all_goals rfl
  repPlain := fun _ => rfl
  byte := by
    rintro i c₁ rest hi hds ⟨hesi, hedi, hmem⟩
    dsimp only [Cpu.data] at hesi hedi hmem
    have hlt := n.isLt
    refine ⟨_, .head rfl (.head rfl (.head rfl (.single rfl))), ⟨?_, ?_, ?_⟩, rfl, rfl, hds⟩
    · show c₁.esi + 1 = _
      rw [hesi]
      exact addr_add src i 1
    · show c₁.edi + 1 = _
      rw [hedi]
      exact addr_add dest i 1
    · show Function.update c₁.mem (base c₁.ds + c₁.edi)
        (lowByte (setLowByte c₁.eax (c₁.mem (base c₁.ds + c₁.esi)))) = _
      rw [lowByte_setLowByte, hds, hesi, hedi, hmem, ← BitVec.add_assoc, ← BitVec.add_assoc,
        source_kept base cpu h (Nat.le_of_lt hi) hi]
      exact written_byte (by omega)
  word := by
    rintro i c₁ rest hi hds hes hdf ⟨hesi, hedi, hmem⟩ hecx
    dsimp only [Cpu.data] at hesi hedi hmem
    have hlt := n.isLt
    refine ⟨c₁.movsl base, congrArg some (if_neg hecx), ⟨?_, ?_, ?_⟩, rfl, rfl, hds, hes, hdf⟩
    · show c₁.esi + c₁.stride = _
      rw [c₁.stride_up hdf, hesi]
      exact addr_add src i 4
    · show c₁.edi + c₁.stride = _
      rw [c₁.stride_up hdf, hedi]
      exact addr_add dest i 4
    · show storeDword c₁.mem (base c₁.es + c₁.edi) (loadDword c₁.mem (base c₁.ds + c₁.esi)) = _
      rw [hes, hds, hesi, hedi, hmem, ← BitVec.add_assoc, ← BitVec.add_assoc]
      refine written_dword (by omega) fun k hk => ?_
      rw [wordByte_loadDword _ _ hk, addr_add]
      exact source_kept base cpu h (by omega) (by omega)
  last := fun c₁ rest hecx => congrArg some (if_pos hecx)

/-- `memcpy` copies its bytes and changes no others. -/
theorem memcpy_writes (h : Apart dest src n.toNat) : ∃ r ∈ memcpy base cpu dest src n,
    r.ret = dest ∧ Writes cpu.mem r.mem (base cpu.ds + dest) n.toNat (sourceByte base cpu src) := by
  have hlt := n.isLt
  obtain ⟨c', heval, _, _, hmem⟩ := (memcpy_moves base cpu h).run
    (c := { cpu with esi := src, edi := dest, ecx := n }) rfl rfl
    ⟨(BitVec.add_zero src).symm, (BitVec.add_zero dest).symm, (written_zero _ _ _).symm⟩
  rw [← memcpyCode_eq] at heval
  refine ⟨⟨dest, c'.mem⟩, (Part.mem_map_iff _).mpr ⟨_, heval, rfl⟩, rfl, ?_⟩
  show Writes cpu.mem c'.mem _ _ _
  rw [show c'.mem = _ from hmem]
  exact written_writes (by omega)

end Memcpy

/-- Both routines end, for all arguments, and write what they are asked to. -/
theorem memory_routines (base : BitVec 16 → Word) (cpu : Cpu) :
    (∀ s c n : Word, ∃ r ∈ memset base cpu s c n, r.ret = s ∧
      Writes cpu.mem r.mem (base cpu.ds + s) n.toNat fun _ => UInt8.ofNat (c.toNat % 256)) ∧
    ∀ dest src n : Word, Apart dest src n.toNat → ∃ r ∈ memcpy base cpu dest src n,
      r.ret = dest ∧ Writes cpu.mem r.mem (base cpu.ds + dest) n.toNat
        fun i => cpu.mem (base cpu.ds + src + BitVec.ofNat 32 i) :=
  ⟨fun s c n => memset_writes base cpu s c n, fun _ _ _ h => memcpy_writes base cpu h⟩

/-- All registers are zero, and every byte of memory is the low byte of its address. -/
def zeroCpu : Cpu := ⟨0, 0, 0, 0, 0, 0, 0, false, false, lowByte⟩

theorem memory_routines_zeroCpu : ∃ r ∈ memcpy (fun _ => 0) zeroCpu 0x1003 0x2001 7,
    r.ret = 0x1003 ∧ Writes zeroCpu.mem r.mem (0 + 0x1003) (7 : Word).toNat
      fun i => zeroCpu.mem (0 + 0x2001 + BitVec.ofNat 32 i) :=
  (memory_routines (fun _ => 0) zeroCpu).2 0x1003 0x2001 7 (by decide)

/-! ## The kernel's copies -/

section Copies

variable (base : BitVec 16 → Word) (cpu : Cpu)

/-- A copy into a buffer from a source that holds `bytes`. -/
theorem memcpy_into {a dest src n : Word} {o len : Nat} {buf bytes : Buf}
    (hapart : Apart dest src n.toNat)
    (hdest : base cpu.ds + dest = a + BitVec.ofNat 32 o) (hin : o + n.toNat ≤ len)
    (hlen : len ≤ 2 ^ 32) (hbuf : HoldsBytes cpu.mem a len buf)
    (hsource : HoldsBytes cpu.mem (base cpu.ds + src) n.toNat bytes) :
    ∃ r ∈ memcpy base cpu dest src n, HoldsBytes r.mem a len
      fun i => if o ≤ i ∧ i < o + n.toNat then bytes (i - o) else buf i := by
  obtain ⟨r, hr, _, hwrites⟩ := memcpy_writes base cpu hapart
  rw [hdest] at hwrites
  refine ⟨r, hr, fun i hi => ?_⟩
  rw [hwrites.holdsBytes hbuf hin hlen i hi]
  dsimp only
  split
  · rename_i hinside
    exact hsource (i - o) (by omega)
  · rfl

/-- Page `u` of the video memory. -/
def videoPage (u : Nat) : Word := BitVec.ofNat 32 (0xB8000 + u * entrySize)

/-- The two copies of `switch_terminal`: `copyPage` on the displayed page and the three others. -/
theorem memcpy_copyPage {v : Buf} {dst src : Nat} (hdst : dst < 4) (hsrc : src < 4)
    (hne : dst ≠ src)
    (hvideo : HoldsBytes cpu.mem (base cpu.ds + 0xB8000) (4 * entrySize) v) :
    ∃ r ∈ memcpy base cpu (videoPage dst) (videoPage src) (BitVec.ofNat 32 entrySize),
      HoldsBytes r.mem (base cpu.ds + 0xB8000) (4 * entrySize) (copyPage v dst src) := by
  have hsize : (BitVec.ofNat 32 entrySize).toNat = 4096 := rfl
  have hpage : ∀ u, u < 4 → (videoPage u).toNat = 0xB8000 + u * 4096 := fun u hu =>
    Nat.mod_eq_of_lt (by simp only [entrySize]; omega)
  have haddr : ∀ u, base cpu.ds + videoPage u =
      base cpu.ds + 0xB8000 + BitVec.ofNat 32 (u * entrySize) := fun u => by
    unfold videoPage
    rw [BitVec.ofNat_add, ← BitVec.add_assoc]
    rfl
  have hapart : Apart (videoPage dst) (videoPage src) (BitVec.ofNat 32 entrySize).toNat := by
    constructor
    all_goals
      rw [hsize]
      simp only [hpage dst hdst, hpage src hsrc]
      omega
  have hsource : HoldsBytes cpu.mem (base cpu.ds + videoPage src)
      (BitVec.ofNat 32 entrySize).toNat fun i => v (i + src * entrySize) := by
    intro i hi
    rw [hsize] at hi
    rw [haddr, addr_add, Nat.add_comm]
    exact hvideo _ (by simp only [entrySize]; omega)
  obtain ⟨r, hr, hholds⟩ := memcpy_into base cpu hapart (haddr dst)
    (by rw [hsize]; simp only [entrySize]; omega) (by decide) hvideo hsource
  refine ⟨r, hr, fun i hi => ?_⟩
  rw [hholds i hi, hsize]
  unfold copyPage
  exact if_congr (by simp only [entrySize]; omega) rfl rfl

/-- The copy of `execute`: from a buffer that holds the file's data into the new process's page. -/
theorem memcpy_program (k : Kernel) (regs : Regs) (pid : Int) (fname arg : List UInt8)
    {fileData : Buf} {nbytes : Nat} {src : Word} (hsmall : nbytes < 65536)
    (hapart : Apart 0x08048000 src nbytes)
    (hsource : HoldsBytes cpu.mem (base cpu.ds + src) nbytes fileData)
    (hpage : HoldsBytes cpu.mem (base cpu.ds + 0x08000000) 0x400000 (k.programPage pid)) :
    ∃ r ∈ memcpy base cpu 0x08048000 src (BitVec.ofNat 32 nbytes),
      HoldsBytes r.mem (base cpu.ds + 0x08000000) 0x400000
        ((startProcess k regs pid fname arg fileData nbytes).programPage pid) := by
  have hsize : (BitVec.ofNat 32 nbytes).toNat = nbytes := Nat.mod_eq_of_lt (by omega)
  have haddr : base cpu.ds + 0x08048000 =
      base cpu.ds + 0x08000000 + BitVec.ofNat 32 0x48000 := by
    rw [BitVec.add_assoc]
    rfl
  obtain ⟨r, hr, hholds⟩ := memcpy_into base cpu (n := BitVec.ofNat 32 nbytes)
    (by rw [hsize]; exact hapart) haddr (by omega) (by decide) hpage
    (by rw [hsize]; exact hsource)
  refine ⟨r, hr, fun i hi => ?_⟩
  rw [hholds i hi, hsize]
  unfold startProcess
  dsimp only
  rw [Function.update_self]

end Copies

end LmaOS
