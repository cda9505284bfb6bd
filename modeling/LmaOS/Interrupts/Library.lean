import LmaOS.Interrupts.IntrHandler

/-
  The system call library of the user programs (ece391syscall.S).

  `library_call` follows a call from one C program to the other: the arguments a program pushes for
  `ece391_read` are those the kernel's `read` is called with, what that returns is what the
  program gets, and the program sees an ordinary C function.
-/
namespace LmaOS.Interrupts

open Util Util.Asm
open Util.X86 (Word Memory loadDword storeDword addr_add)

/-! ## The code -/

abbrev UserCode := List (Instr Empty Empty)

/-- `DO_CALL`. -/
def doCall (number : Word) : UserCode :=
  [.pushl .ebx, .movlImm number .eax, .movlStack 8 .ebx, .movlStack 12 .ecx, .movlStack 16 .edx,
    .int 0x80, .popl .ebx, .ret]

def ece391Halt : UserCode := doCall 1
def ece391Execute : UserCode := doCall 2
def ece391Read : UserCode := doCall 3
def ece391Write : UserCode := doCall 4
def ece391Open : UserCode := doCall 5
def ece391Close : UserCode := doCall 6
def ece391Getargs : UserCode := doCall 7
def ece391Vidmap : UserCode := doCall 8
def ece391SetHandler : UserCode := doCall 9
def ece391Sigreturn : UserCode := doCall 10

/-- The function of the library that is meant to call a function of the kernel. -/
def libraryCode : CFunction → Option UserCode
  | .halt => some ece391Halt
  | .execute => some ece391Execute
  | .read => some ece391Read
  | .write => some ece391Write
  | .open => some ece391Open
  | .close => some ece391Close
  | .getargs => some ece391Getargs
  | .vidmap => some ece391Vidmap
  | .setHandler => some ece391SetHandler
  | .sigreturn => some ece391Sigreturn
  | .kbIntr | .rtcIntr | .pitIntr => none

/-! ## Calls -/

variable (e : Env Label CFunction) (s : Linkage) (idt : Idt) (t : Tss)

/-- A user program: its calls go to the kernel. -/
def userEnv (behind : UserCode → Word) : Env Empty Empty where
  behind := behind
  call := fun f _ => f.elim
  int := softwareInterrupt e s idt t

/-- A program calls a function with three words of arguments. Its stack is not the kernel's. -/
structure UserCall (t : Tss) (m : Machine) (ret a b c : Word) : Prop where
  level : m.cpl = 3
  stack : Stack m.mem m.esp [ret, a, b, c]
  apart : ∀ i, i < 8 → 60 ≤ (t.esp0 - 1 - (m.esp - 4 + BitVec.ofNat 32 i)).toNat

section Call

variable {e s idt t} {behind : UserCode → Word} {number : Word} {m : Machine} {ret a b c : Word}

/-- The machine at `int $0x80`. -/
def atInt (behind : UserCode → Word) (number : Word) (m : Machine) (a b c : Word) : Machine :=
  { m.push (m.reg .ebx) with
    reg := Function.update (Function.update (Function.update (Function.update m.reg
      .eax number) .ebx a) .ecx b) .edx c
    eip := behind [.popl .ebx, .ret] }

theorem run_doCall (s : Linkage) (idt : Idt) (behind : UserCode → Word) (number : Word)
    (h : UserCall t m ret a b c) : run (userEnv e s idt t behind) (doCall number) m =
    ((softwareInterrupt e s idt t 128 (atInt behind number m a b c)).bind fun m' =>
      if m'.eip = behind [.popl .ebx, .ret] then some m' else none).bind fun m' =>
        some (m'.pop .ebx).ret := by
  obtain ⟨-, -, ha, hb, hc, -⟩ := h.stack.push (m.reg .ebx) (show 4 < 2 ^ 29 by decide)
  have hoffset : ∀ sp : Word, sp + 4 + 4 = sp + BitVec.ofNat 32 8 ∧
      sp + 4 + 4 + 4 = sp + BitVec.ofNat 32 12 ∧ sp + 4 + 4 + 4 + 4 = sp + BitVec.ofNat 32 16 := by
    intro sp
    refine ⟨?_, ?_, ?_⟩ <;> bv_omega
  obtain ⟨h8, h12, h16⟩ := hoffset (m.push (m.reg .ebx)).esp
  rw [h8] at ha
  rw [h12] at hb
  rw [h16] at hc
  unfold atInt
  rw [← ha, ← hb, ← hc]
  rfl

/-- The kernel's stack it leads to. -/
theorem gateStack_atInt (s : Linkage) (behind : UserCode → Word) (number : Word)
    (h : UserCall t m ret a b c) :
    gateStack t (vectorGate s.addr 128) (atInt behind number m a b c) = t.esp0 := by
  have hlevel : (atInt behind number m a b c).cpl = 3 := h.level
  have hinner : (atInt behind number m a b c).inner (vectorGate s.addr 128) = true := by
    unfold Machine.inner
    rw [hlevel]
    exact decide_eq_true (show kernelCs.toNat % 4 < 3 by decide)
  unfold gateStack
  rw [hinner, if_pos rfl]

/-- The kernel has come back with `r` and left the two words on top of the stack alone. -/
theorem doCall_returns (h : UserCall t m ret a b c) {r : Word} {mem : Memory}
    (hkernel : softwareInterrupt e s idt t 128 (atInt behind number m a b c) =
      some { atInt behind number m a b c with
        reg := Function.update (atInt behind number m a b c).reg .eax r
        mem := mem })
    (hkept : ∀ i, i < 8 → mem (m.esp - 4 + BitVec.ofNat 32 i) =
      (atInt behind number m a b c).mem (m.esp - 4 + BitVec.ofNat 32 i)) :
    ∃ m', Cdecl (run (userEnv e s idt t behind) (doCall number)) 3 0 m m' ∧ m'.reg .eax = r ∧
      m'.mem = mem := by
  have hpushed := h.stack.push (m.reg .ebx) (show 4 < 2 ^ 29 by decide)
  have hstack : Stack mem (m.esp - 4) [m.reg .ebx, ret] := by
    have htwo : Stack (m.push (m.reg .ebx)).mem (m.esp - 4) [m.reg .ebx, ret] :=
      ⟨hpushed.1, hpushed.2.1, trivial⟩
    exact htwo.congr fun i hi => hkept i hi
  have hrun := run_doCall (e := e) s idt behind number h
  rw [hkernel, Option.bind_some] at hrun
  have hend : run (userEnv e s idt t behind) (doCall number) m = some
      (({ atInt behind number m a b c with
        reg := Function.update (atInt behind number m a b c).reg .eax r
        mem := mem } : Machine).pop .ebx).ret := by
    rw [hrun]
    exact congrArg (Option.bind · _) (if_pos rfl)
  refine ⟨_, ⟨hend, hstack.2.1.trans h.stack.1.symm, ?_, fun r' hr' => ?_, rfl, rfl, ?_⟩, ?_, rfl⟩
  · show m.esp - 4 + BitVec.ofNat 32 (4 * 1) + BitVec.ofNat 32 (4 * 1) = m.esp + 4
    bv_omega
  · cases r' with
    | ebx => exact hstack.1
    | ebp | esi | edi => rfl
    | eax | ecx | edx => exact absurd hr' (by decide)
  · intro i hlo hhi
    omega
  · rfl

end Call

/-- The number of a library function has the function of the kernel with the same name, but for the
    last two, which have none. -/
theorem libraryCode_number {f : CFunction} {code : UserCode} (hf : libraryCode f = some code) :
    ∃ number, code = doCall number ∧
      syscallFunction number = if f = .setHandler ∨ f = .sigreturn then none else some f := by
  cases f with
  | kbIntr | rtcIntr | pitIntr => exact absurd hf.symm (Option.some_ne_none code)
  | halt | execute | read | write | «open» | close | getargs | vidmap | setHandler | sigreturn =>
    exact ⟨_, (Option.some.inj hf).symm, rfl⟩

theorem doCall_injective {number number' : Word} (h : doCall number = doCall number') :
    number = number' := by
  unfold doCall at h
  injection h with _ h
  injection h with h _
  injection h

/-- A library function, called by a user program with the arguments `a`, `b` and `c`, is a C
    function to it. The kernel's function is entered with the same arguments, in the state
    `syscallCall` behind `int $0x80`, and its result from there is what the program gets.
    `ece391_set_handler` and `ece391_sigreturn` return -1. -/
theorem library_call {f : CFunction} {number : Word} (hf : libraryCode f = some (doCall number))
    (behind : UserCode → Word) {m : Machine} {ret a b c : Word} (h : UserCall t m ret a b c) :
    if f = .setHandler ∨ f = .sigreturn then
      ∃ m', Cdecl (run (userEnv e s idt t behind) (doCall number)) 3 0 m m' ∧ m'.reg .eax = -1
    else
      let k := syscallCall e ((atInt behind number m a b c).interrupt t (vectorGate s.addr 128))
      Stack k.mem k.esp [e.behind (syscallHandler.drop 14), a, b, c] ∧
        ∀ k', Cdecl (e.call f) 3 11 k k' →
          (∀ i, i < 8 → k'.mem (m.esp - 4 + BitVec.ofNat 32 i) =
            k.mem (m.esp - 4 + BitVec.ofNat 32 i)) →
          ∃ m', Cdecl (run (userEnv e s idt t behind) (doCall number)) 3 0 m m' ∧
            m'.reg .eax = k'.reg .eax ∧ m'.mem = k'.mem := by
  obtain ⟨number', hcode, hnumber⟩ := libraryCode_number hf
  obtain rfl := doCall_injective hcode
  rw [show number = (atInt behind number m a b c).reg .eax from rfl] at hnumber
  have hstack := gateStack_atInt s behind number h
  split
  · rename_i hnone
    rw [if_pos hnone] at hnumber
    obtain ⟨mem, hmem, hkernel⟩ := systemCall_rejects e s idt t hnumber
    rw [hstack] at hmem
    obtain ⟨m', hcdecl, hret, -⟩ := doCall_returns h hkernel fun i hi => hmem _ (by
      have := h.apart i hi
      omega)
    exact ⟨m', hcdecl, hret⟩
  · rename_i hsome
    rw [if_neg hsome] at hnumber
    obtain ⟨hargs, hmem, hback⟩ := systemCall_calls e s idt t hnumber
    rw [hstack] at hmem
    refine ⟨hargs, fun k' hk' hkept => doCall_returns h (hback k' hk') fun i hi => ?_⟩
    rw [hkept i hi]
    exact hmem _ (h.apart i hi)

theorem userMachine_call : UserCall ⟨0x800000, 0x18⟩ userMachine 0 0 0 0 where
  level := by decide
  stack := ⟨rfl, rfl, rfl, rfl, trivial⟩
  apart := by decide

/-- `ece391_read`, with a kernel that returns at once. -/
theorem library_call_read : ∃ m', Cdecl (run (userEnv returningEnv smallLinkage
    (fun _ => zeroDesc) ⟨0x800000, 0x18⟩ fun _ => 0) ece391Read) 3 0 userMachine m' := by
  have hcall := library_call returningEnv smallLinkage (fun _ => zeroDesc) ⟨0x800000, 0x18⟩
    (f := .read) rfl (fun _ => 0) userMachine_call
  rw [if_neg (by decide)] at hcall
  obtain ⟨m', hcdecl, -⟩ := hcall.2 _ (cdecl_ret 3 11 _) fun _ _ => rfl
  exact ⟨m', hcdecl⟩

end LmaOS.Interrupts
