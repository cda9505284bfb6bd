import LmaOS.Interrupts.Idt

/-
  The assembly behind the interrupt descriptor table (intr_handler.S).

  What the C functions do is the environment's business; they only have to keep to the calling
  convention. `device_interrupt`: wherever a device interrupts, in a user program or in the kernel,
  its handler calls its C function with interrupts off, and afterwards every register and flag is
  as before. `syscall_gate`: a system call passes three registers as arguments, and only `eax`
  comes back changed.
-/
namespace LmaOS.Interrupts

open Util Util.Asm
open Util.X86 (Word Memory loadDword storeDword addr_add)

/-! ## The code -/

/-- The C functions that are called from assembly. -/
inductive CFunction where
  | kbIntr | rtcIntr | pitIntr
  | halt | execute | read | write | open | close | getargs | vidmap | setHandler | sigreturn
  deriving DecidableEq

inductive Label where | syscallError
  deriving DecidableEq

abbrev Code := List (Instr Label CFunction)

/-- `kb_handler`, `rtc_handler` and `pit_handler` differ in the function they call. -/
def deviceHandler (f : CFunction) : Code :=
  [.pushl .ebp, .pushl .eax, .pushl .ebx, .pushl .ecx, .pushl .edx, .pushfl,
    .call f,
    .popfl, .popl .edx, .popl .ecx, .popl .ebx, .popl .eax, .popl .ebp,
    .iret]

def kbHandler : Code := deviceHandler .kbIntr
def rtcHandler : Code := deviceHandler .rtcIntr
def pitHandler : Code := deviceHandler .pitIntr

def syscallJumptable : List (Option CFunction) :=
  [none, some .halt, some .execute, some .read, some .write, some .open, some .close,
    some .getargs, some .vidmap, some .setHandler, some .sigreturn]

/-- The end of `syscall_handler` and of `syscall_error`. -/
def syscallEnd : Code :=
  [.popfl, .popl .ebx, .popl .ecx, .popl .edx, .popl .esi, .popl .edi, .iret]

/-- `syscall_handler`, with `syscall_error` behind it. -/
def syscallHandler : Code :=
  [.pushl .edi, .pushl .esi, .pushl .edx, .pushl .ecx, .pushl .ebx, .pushfl,
    .cmplImm 8 .eax, .ja .syscallError,
    .cmplImm 1 .eax, .jb .syscallError,
    .pushl .edx, .pushl .ecx, .pushl .ebx,
    .callTable syscallJumptable .eax,
    .addlEsp 12,
    .cmplImm (-1) .eax, .je .syscallError] ++
  syscallEnd ++
  [.label .syscallError, .movlImm (-1) .eax] ++ syscallEnd

/-- The assembly of a handler. The others are C functions that end in `halt`. -/
def Handler.code : Handler → Option Code
  | .pitHandler => some Interrupts.pitHandler
  | .kbHandler => some Interrupts.kbHandler
  | .rtcHandler => some Interrupts.rtcHandler
  | .syscallHandler => some Interrupts.syscallHandler
  | .idt _ | .reserved | .nonReserved => none

/-! ## The processor -/

/-- The kernel as it was linked: where its handlers are, and what code is at an address. -/
structure Linkage where
  addr : Handler → Word
  code : Word → Option Code
  loaded : ∀ h, code (addr h) = h.code

variable (e : Env Label CFunction) (s : Linkage) (idt : Idt) (t : Tss)

/-- A device interrupts with vector `v`; the result is the machine when the program goes on. -/
def interrupt (v : Nat) (m : Machine) : Option Machine :=
  (Gate.decode (idtInit s.addr idt v).val).bind fun g =>
    (s.code g.offset).bind fun code => run e code (m.interrupt t g)

/-- `int $v`. Where the gate is not for the program there is a general protection fault, and its
    handler `idt_13` does not come back. -/
def softwareInterrupt (v : Nat) (m : Machine) : Option Machine :=
  (Gate.decode (idtInit s.addr idt v).val).bind fun g =>
    if g.admits m then interrupt e s idt t v m else none

section Run

variable {e s idt t} {v : Nat} {m : Machine}

theorem interrupt_eq (hv : v < 256) {code : Code} (hcode : (vectorHandler v).code = some code) :
    interrupt e s idt t v m = run e code (m.interrupt t (vectorGate s.addr v)) := by
  unfold interrupt
  rw [idt_decode s.addr idt hv, Option.bind_some,
    show s.code (vectorGate s.addr v).offset = some code from (s.loaded _).trans hcode,
    Option.bind_some]

/-- What a handler finds when its last instructions begin: the words `ws` for the registers `rs`
    and the frame of the interrupt above. -/
theorem restore {g : Gate} {k : Machine} (rs : List Reg) (ws : List Word) {reg : Reg → Word}
    (hlen : ws.length = rs.length)
    (hstack : Stack k.mem k.esp (ws ++ m.frame (m.inner g))) (hcs : k.cs = g.selector)
    (hesp : k.esp + BitVec.ofNat 32 (4 * rs.length) = (m.interrupt t g).esp)
    (hss : k.ss = (m.interrupt t g).ss)
    (hreg : (rs.zip ws).foldl (fun reg p => Function.update reg p.1 p.2) k.reg = reg) :
    (k.pops rs).iret = { m with reg := reg, mem := k.mem } := by
  rw [pops_eq hstack hlen, hreg]
  have hframe := (stack_append.mp hstack).2
  rw [hlen] at hframe
  exact iret_frame hframe hcs hesp hss

/-! ### Devices -/

/-- The vectors of the three devices, and the functions behind them. -/
def deviceFunction : Nat → Option CFunction
  | 32 => some .pitIntr
  | 33 => some .kbIntr
  | 40 => some .rtcIntr
  | _ => none

/-- What `deviceHandler` pushes. -/
def savedWords (m : Machine) : List Word :=
  [m.eflags, m.reg .edx, m.reg .ecx, m.reg .ebx, m.reg .eax, m.reg .ebp]

/-- The machine when `f` is entered. -/
def deviceCall (e : Env Label CFunction) (f : CFunction) (m : Machine) : Machine :=
  m.pushes (e.behind ((deviceHandler f).drop 7) :: savedWords m)

theorem run_deviceHandler (f : CFunction) (m m' : Machine)
    (hf : Cdecl (e.call f) 0 11 (deviceCall e f m) m') : run e (deviceHandler f) m =
      some (({ m' with eflags := m'.top }.drop 1).pops [.edx, .ecx, .ebx, .eax, .ebp]).iret := by
  have hcall : e.callFunction ((deviceHandler f).drop 7) f (m.pushes (savedWords m)) = some m' :=
    callFunction_cdecl hf
  show (e.callFunction ((deviceHandler f).drop 7) f (m.pushes (savedWords m))).bind _ = _
  rw [hcall]
  rfl

theorem vectorGate_device {f : CFunction} (hf : deviceFunction v = some f) :
    v < 256 ∧ (vectorHandler v).code = some (deviceHandler f) ∧
      (vectorGate s.addr v).trap = false := by
  unfold deviceFunction at hf
  split at hf
  · obtain rfl := Option.some.inj hf
    exact ⟨by decide, rfl, rfl⟩
  · obtain rfl := Option.some.inj hf
    exact ⟨by decide, rfl, rfl⟩
  · obtain rfl := Option.some.inj hf
    exact ⟨by decide, rfl, rfl⟩
  · exact absurd hf.symm (Option.some_ne_none f)

end Run

section Device

variable {e t} {g : Gate} {m c' : Machine} {f : CFunction}

/-- The saved words and the frame lie above the return address. -/
theorem deviceCall_stack (e : Env Label CFunction) (t : Tss) (g : Gate) (m : Machine)
    (f : CFunction) : Stack (deviceCall e f (m.interrupt t g)).mem
      (deviceCall e f (m.interrupt t g)).esp
      (e.behind ((deviceHandler f).drop 7) ::
        (savedWords (m.interrupt t g) ++ m.frame (m.inner g))) := by
  have hframe := frame_length_le m (m.inner g)
  exact pushes_stack (interrupt_stack t g m) (_ :: savedWords (m.interrupt t g))
    (show 7 + (m.frame (m.inner g)).length < 2 ^ 29 by omega)

theorem deviceCall_back (h : Cdecl (e.call f) 0 11 (deviceCall e f (m.interrupt t g)) c') :
    Stack c'.mem c'.esp (savedWords (m.interrupt t g) ++ m.frame (m.inner g)) ∧
      c'.esp + BitVec.ofNat 32 (4 * 6) = (m.interrupt t g).esp := by
  refine ⟨h.stack_nil (deviceCall_stack e t g m f) ?_, ?_⟩
  · rw [List.length_append]
    exact Nat.add_le_add (Nat.le_refl 6) (frame_length_le m (m.inner g))
  · have hesp : (deviceCall e f (m.interrupt t g)).esp =
        (m.interrupt t g).esp - BitVec.ofNat 32 (4 * 7) := pushes_esp _ _
    rw [h.esp, hesp]
    bv_omega

/-- Every register is as it was. -/
theorem deviceCall_reg (h : Cdecl (e.call f) 0 11 (deviceCall e f (m.interrupt t g)) c') :
    ([Reg.edx, .ecx, .ebx, .eax, .ebp].zip (savedWords (m.interrupt t g)).tail).foldl
      (fun reg p => Function.update reg p.1 p.2) c'.reg = m.reg := by
  have hcall : (deviceCall e f (m.interrupt t g)).reg = (m.interrupt t g).reg := pushes_reg _ _
  have hesi := h.saved .esi (by decide)
  have hedi := h.saved .edi (by decide)
  rw [hcall] at hesi hedi
  rw [← interrupt_reg t g m]
  funext r
  cases r with
  | esi => exact hesi
  | edi => exact hedi
  | eax | ecx | edx | ebx | ebp => rfl

end Device

/-- A device interrupts: its function is entered in the state `deviceCall`, with interrupts off and
    the stack extended by at most 48 bytes, and when it has come back from there, the program goes
    on as if nothing had happened. -/
theorem device_interrupt {v : Nat} {f : CFunction} (hf : deviceFunction v = some f) (m : Machine) :
    let c := deviceCall e f (m.interrupt t (vectorGate s.addr v))
    c.eflags &&& interruptFlag = 0 ∧
      (∀ x, 48 ≤ (gateStack t (vectorGate s.addr v) m - 1 - x).toNat → c.mem x = m.mem x) ∧
      ∀ c', Cdecl (e.call f) 0 11 c c' →
        interrupt e s idt t v m = some { m with mem := c'.mem } := by
  obtain ⟨hv, hcode, htrap⟩ := vectorGate_device (s := s) hf
  rw [interrupt_eq hv hcode]
  generalize vectorGate s.addr v = g at htrap
  refine ⟨?_, fun x hx => ?_, fun c' hc' => ?_⟩
  · show m.eflags &&& ~~~(if g.trap then gateFlags else gateFlags ||| interruptFlag) &&&
      interruptFlag = 0
    rw [htrap, if_neg Bool.false_ne_true, BitVec.and_assoc]
    exact BitVec.and_zero
  · exact interrupt_pushes_mem t g m (_ :: savedWords (m.interrupt t g))
      (show 7 < 2 ^ 28 by decide) hx
  · obtain ⟨hstack, hesp⟩ := deviceCall_back hc'
    have hcs : c'.cs = g.selector := hc'.cs.trans (pushes_cs _ _)
    have hss : c'.ss = (m.interrupt t g).ss := hc'.ss.trans (pushes_ss _ _)
    have hrest : c'.esp + BitVec.ofNat 32 (4 * 1) + BitVec.ofNat 32 (4 * 5) =
        (m.interrupt t g).esp := by
      rw [addr_add]
      exact hesp
    have hreg := deviceCall_reg hc'
    have hrestored := restore (t := t) (k := { c' with eflags := c'.top }.drop 1)
      [.edx, .ecx, .ebx, .eax, .ebp] (savedWords (m.interrupt t g)).tail rfl
      hstack.2 hcs hrest hss hreg
    rw [run_deviceHandler f _ c' hc', hrestored]
    rfl

/-- Functions that return at once. -/
def returningEnv : Env Label CFunction := ⟨fun _ => 0, fun _ m => some m.ret, fun _ _ => none⟩

theorem cdecl_ret (n k : Nat) (m : Machine) : Cdecl (fun m => some m.ret) n k m m.ret :=
  ⟨rfl, rfl, rfl, fun _ _ => rfl, rfl, rfl, fun _ _ _ => rfl⟩

/-- The assembly at 1 to 4, the rest at 0. -/
def smallLinkage : Linkage where
  addr
    | .pitHandler => 1
    | .kbHandler => 2
    | .rtcHandler => 3
    | .syscallHandler => 4
    | .idt _ | .reserved | .nonReserved => 0
  code w := if w = 1 then some pitHandler else if w = 2 then some kbHandler
    else if w = 3 then some rtcHandler else if w = 4 then some syscallHandler else none
  loaded h := by cases h <;> rfl

def zeroDesc : IdtDesc := ⟨0, 0, 0, 0, 0, 0, 0, 0, 0, 0, 0⟩

/-- A user program at the beginning of its page. -/
def userMachine : Machine := ⟨fun _ => 0, 0x83FFFF0, 0x202, 0x8048000, 0x23, 0x2B, fun _ => 0⟩

/-- The keyboard interrupts it. -/
theorem device_interrupt_keyboard : ∃ mem, interrupt returningEnv smallLinkage (fun _ => zeroDesc)
    ⟨0x800000, 0x18⟩ 33 userMachine = some { userMachine with mem := mem } := by
  obtain ⟨-, -, hback⟩ := device_interrupt returningEnv smallLinkage (fun _ => zeroDesc)
    ⟨0x800000, 0x18⟩ (v := 33) rfl userMachine
  exact ⟨_, hback _ (cdecl_ret 0 11 _)⟩

/-! ### System calls -/

/-- The function of a system call number. -/
def syscallFunction (eax : Word) : Option CFunction :=
  if (8 : Word).ult eax ∨ eax.ult 1 then none else syscallJumptable.getD eax.toNat none

/-- What `syscall_handler` pushes first. -/
def syscallSaved (m : Machine) : List Word :=
  [m.eflags, m.reg .ebx, m.reg .ecx, m.reg .edx, m.reg .esi, m.reg .edi]

/-- The machine behind the two comparisons. -/
def syscallChecked (m : Machine) : Machine :=
  ((m.pushes (syscallSaved m)).cmpl 8 .eax).cmpl 1 .eax

/-- The machine when the function is entered. -/
def syscallCall (e : Env Label CFunction) (m : Machine) : Machine :=
  (syscallChecked m).pushes
    [e.behind (syscallHandler.drop 14), m.reg .ebx, m.reg .ecx, m.reg .edx]

/-- The end of the handler. -/
def syscallExit (m : Machine) : Machine :=
  (({ m with eflags := m.top }.drop 1).pops [.ebx, .ecx, .edx, .esi, .edi]).iret

section Syscall

variable {e t} {g : Gate} {m c' : Machine} {f : CFunction}

theorem exec_syscallError (k : Nat) (m : Machine) :
    exec e syscallHandler (k + 8) (.movlImm (-1) .eax :: syscallEnd) m =
      some (syscallExit (m.set .eax (-1))) := rfl

theorem syscallChecked_reg (m : Machine) : (syscallChecked m).reg = m.reg := pushes_reg _ _

/-- The two comparisons. -/
theorem run_syscallHandler (m : Machine) : run e syscallHandler m =
    if (8 : Word).ult (m.reg .eax) then
      some (syscallExit (((m.pushes (syscallSaved m)).cmpl 8 .eax).set .eax (-1)))
    else if (m.reg .eax).ult 1 then some (syscallExit ((syscallChecked m).set .eax (-1)))
    else exec e syscallHandler 23 (syscallHandler.drop 10) (syscallChecked m) := by
  have heax : ((m.pushes (syscallSaved m)).cmpl 8 .eax).reg .eax = m.reg .eax :=
    congrFun (pushes_reg m _) .eax
  show exec e syscallHandler 27 (.cmplImm 8 .eax :: .ja .syscallError ::
    .cmplImm 1 .eax :: .jb .syscallError :: syscallHandler.drop 10) (m.pushes (syscallSaved m)) = _
  rw [exec_cmpl_ja, pushes_reg]
  split
  · exact exec_syscallError 17 _
  · rw [exec_cmpl_jb, heax]
    split
    · exact exec_syscallError 15 _
    · rfl

/-- The check of the result. -/
theorem exec_syscallChecked (m : Machine) : ∃ k, k.reg = m.reg ∧ k.esp = m.esp ∧ k.cs = m.cs ∧
    k.ss = m.ss ∧ k.mem = m.mem ∧
      exec e syscallHandler 18 (syscallHandler.drop 15) m = some (syscallExit k) := by
  show ∃ k, _ ∧ _ ∧ _ ∧ _ ∧ _ ∧ exec e syscallHandler 18 (.cmplImm (-1) .eax ::
    .je .syscallError :: syscallHandler.drop 17) m = _
  rw [exec_cmpl_je]
  split
  · rename_i herror
    have hreg : ((m.cmpl (-1) .eax).set .eax (-1)).reg = m.reg := by
      show Function.update m.reg .eax (-1) = m.reg
      rw [← herror, Function.update_eq_self]
    exact ⟨_, hreg, rfl, rfl, rfl, rfl, exec_syscallError 8 (m.cmpl (-1) .eax)⟩
  · exact ⟨m.cmpl (-1) .eax, rfl, rfl, rfl, rfl, rfl, rfl⟩

/-- The call, and the check of its result. -/
theorem run_syscallHandler_call (hf : syscallFunction (m.reg .eax) = some f)
    (hc : Cdecl (e.call f) 3 11 (syscallCall e m) c') : ∃ c'', c''.reg = c'.reg ∧
      c''.esp = c'.esp + 12 ∧ c''.cs = c'.cs ∧ c''.ss = c'.ss ∧ c''.mem = c'.mem ∧
      run e syscallHandler m = some (syscallExit c'') := by
  unfold syscallFunction at hf
  split at hf
  · exact absurd hf.symm (Option.some_ne_none f)
  · rename_i hnumber
    obtain ⟨habove, hbelow⟩ := not_or.mp hnumber
    have hcall : e.callFunction (syscallHandler.drop 14) f
        ((syscallChecked m).pushes [m.reg .ebx, m.reg .ecx, m.reg .edx]) = some c' :=
      callFunction_cdecl hc
    rw [run_syscallHandler, if_neg habove, if_neg hbelow]
    have hchecked := exec_syscallChecked (e := e) (m := { c' with
      esp := c'.esp + 12, eflags := addFlags c'.eflags c'.esp 12 })
    have hrun : exec e syscallHandler 23 (syscallHandler.drop 10) (syscallChecked m) =
        ((syscallJumptable.getD ((syscallChecked m).reg .eax).toNat none).bind fun f =>
          e.callFunction (syscallHandler.drop 14) f ((syscallChecked m).pushes
            [(syscallChecked m).reg .ebx, (syscallChecked m).reg .ecx,
              (syscallChecked m).reg .edx])).bind
          (exec e syscallHandler 19 (syscallHandler.drop 14)) := rfl
    rw [hrun, syscallChecked_reg, hf, Option.bind_some, hcall, Option.bind_some]
    exact hchecked

/-- The handler, on behalf of a program interrupted in `m`, has its saved words on the stack. -/
structure Saved (t : Tss) (g : Gate) (m k : Machine) : Prop where
  stack : Stack k.mem k.esp (syscallSaved (m.interrupt t g) ++ m.frame (m.inner g))
  cs : k.cs = g.selector
  esp : k.esp + BitVec.ofNat 32 (4 * 6) = (m.interrupt t g).esp
  ss : k.ss = (m.interrupt t g).ss

theorem saved_pushes (t : Tss) (g : Gate) (m : Machine) :
    Saved t g m ((m.interrupt t g).pushes (syscallSaved (m.interrupt t g))) where
  stack := by
    have hframe := frame_length_le m (m.inner g)
    exact pushes_stack (interrupt_stack t g m) (syscallSaved (m.interrupt t g))
      (show 6 + (m.frame (m.inner g)).length < 2 ^ 29 by omega)
  cs := pushes_cs _ _
  esp := by
    rw [pushes_esp]
    exact BitVec.sub_add_cancel _ _
  ss := pushes_ss _ _

/-- The registers that the handler saved come back. -/
theorem Saved.exit {k : Machine} (h : Saved t g m k) (hebp : k.reg .ebp = m.reg .ebp) :
    syscallExit k = { m with
      reg := Function.update m.reg .eax (k.reg .eax)
      mem := k.mem } := by
  have hrest : k.esp + BitVec.ofNat 32 (4 * 1) + BitVec.ofNat 32 (4 * 5) =
      (m.interrupt t g).esp := by
    rw [addr_add]
    exact h.esp
  have hreg : ([Reg.ebx, .ecx, .edx, .esi, .edi].zip (syscallSaved (m.interrupt t g)).tail).foldl
      (fun reg p => Function.update reg p.1 p.2) k.reg =
        Function.update m.reg .eax (k.reg .eax) := by
    rw [← interrupt_reg t g m] at hebp ⊢
    funext r
    cases r with
    | ebp => exact hebp
    | eax | ecx | edx | ebx | esi | edi => rfl
  have hrestored := restore (t := t) (k := { k with eflags := k.top }.drop 1)
    [.ebx, .ecx, .edx, .esi, .edi] (syscallSaved (m.interrupt t g)).tail rfl
    h.stack.2 h.cs hrest h.ss hreg
  exact hrestored

/-- The saved registers and the frame lie above the return address and the arguments. -/
theorem syscallCall_stack (e : Env Label CFunction) (t : Tss) (g : Gate) (m : Machine) :
    Stack (syscallCall e (m.interrupt t g)).mem (syscallCall e (m.interrupt t g)).esp
      ([e.behind (syscallHandler.drop 14), m.reg .ebx, m.reg .ecx, m.reg .edx] ++
        (syscallSaved (m.interrupt t g) ++ m.frame (m.inner g))) := by
  have hframe := frame_length_le m (m.inner g)
  have hsaved : Stack (syscallChecked (m.interrupt t g)).mem (syscallChecked (m.interrupt t g)).esp
      (syscallSaved (m.interrupt t g) ++ m.frame (m.inner g)) := (saved_pushes t g m).stack
  have hargs := pushes_stack hsaved [e.behind (syscallHandler.drop 14), m.reg .ebx, m.reg .ecx,
    m.reg .edx] (by
      rw [List.length_append]
      exact show 4 + (6 + (m.frame (m.inner g)).length) < 2 ^ 29 by omega)
  rw [← interrupt_reg t g m] at hargs ⊢
  exact hargs

theorem syscallCall_esp (m : Machine) :
    (syscallCall e m).esp = m.esp - BitVec.ofNat 32 (4 * 10) := by
  have hargs : (syscallCall e m).esp = (m.pushes (syscallSaved m)).esp - BitVec.ofNat 32 (4 * 4) :=
    pushes_esp _ _
  have hsaved : (m.pushes (syscallSaved m)).esp = m.esp - BitVec.ofNat 32 (4 * 6) :=
    pushes_esp _ _
  rw [hargs, hsaved]
  bv_omega

theorem syscallCall_mem (m : Machine) : (syscallCall e m).mem =
    (m.pushes ([e.behind (syscallHandler.drop 14), m.reg .ebx, m.reg .ecx, m.reg .edx] ++
      syscallSaved m)).mem := by
  rw [← pushes_append]
  exact pushes_eflags_mem (m.pushes (syscallSaved m)) _ _

theorem syscallCall_reg (m : Machine) : (syscallCall e m).reg = m.reg :=
  (pushes_reg _ _).trans (syscallChecked_reg m)

theorem syscallCall_cs (m : Machine) : (syscallCall e m).cs = m.cs := by
  have hchecked : (syscallChecked m).cs = m.cs := pushes_cs m (syscallSaved m)
  exact (pushes_cs _ _).trans hchecked

theorem syscallCall_ss (m : Machine) : (syscallCall e m).ss = m.ss := by
  have hchecked : (syscallChecked m).ss = m.ss := pushes_ss m (syscallSaved m)
  exact (pushes_ss _ _).trans hchecked

/-- The function has come back: the handler returns its result. -/
theorem syscall_returns (hf : syscallFunction (m.reg .eax) = some f)
    (hc : Cdecl (e.call f) 3 11 (syscallCall e (m.interrupt t g)) c') :
    run e syscallHandler (m.interrupt t g) = some { m with
      reg := Function.update m.reg .eax (c'.reg .eax)
      mem := c'.mem } := by
  rw [← interrupt_reg t g m] at hf
  obtain ⟨k, hreg, hesp, hcs, hss, hmem, hrun⟩ := run_syscallHandler_call hf hc
  have hback := hc.stack (syscallCall_stack e t g m) rfl (by
    rw [List.length_append]
    exact Nat.add_le_add (Nat.le_refl 6) (frame_length_le m (m.inner g)))
  have hsaved : Saved t g m k := by
    refine ⟨?_, ?_, ?_, ?_⟩
    · rw [hmem, hesp]
      exact hback
    · rw [hcs, hc.cs, syscallCall_cs]
      rfl
    · rw [hesp, hc.esp, syscallCall_esp]
      bv_omega
    · rw [hss, hc.ss, syscallCall_ss]
  have hebp : k.reg .ebp = m.reg .ebp := by
    rw [hreg, hc.saved _ (by decide), syscallCall_reg, interrupt_reg]
  rw [hrun, hsaved.exit hebp, hreg, hmem]

/-- Only the numbers 1 to 8 have a function. -/
theorem syscallFunction_none {eax : Word} (h : syscallFunction eax = none) :
    (8 : Word).ult eax = true ∨ eax.ult 1 = true := by
  unfold syscallFunction at h
  split at h
  · assumption
  · rename_i hnumber
    obtain ⟨habove, hbelow⟩ := not_or.mp hnumber
    rw [BitVec.ult_iff_lt] at habove hbelow
    have hsome : ∀ n, n < 9 → n ≠ 0 → syscallJumptable.getD n none ≠ none := by decide
    exact absurd h (hsome _ (by bv_omega) (by bv_omega))

/-- `syscall_error` returns -1. -/
theorem Saved.error {k : Machine} (h : Saved t g m k) (hreg : k.reg = m.reg) :
    syscallExit (k.set .eax (-1)) = { m with
      reg := Function.update m.reg .eax (-1)
      mem := k.mem } := by
  have hset : Saved t g m (k.set .eax (-1)) := ⟨h.stack, h.cs, h.esp, h.ss⟩
  have hebp : (k.set .eax (-1)).reg .ebp = m.reg .ebp := congrFun hreg .ebp
  have heax : (k.set .eax (-1)).reg .eax = -1 := by
    show Function.update k.reg .eax (-1) .eax = -1
    rw [Function.update_self]
  rw [hset.exit hebp, heax]
  rfl

/-- Any other number is an error. -/
theorem syscall_rejects (hf : syscallFunction (m.reg .eax) = none) :
    run e syscallHandler (m.interrupt t g) = some { m with
      reg := Function.update m.reg .eax (-1)
      mem := ((m.interrupt t g).pushes (syscallSaved (m.interrupt t g))).mem } := by
  have hsaved := saved_pushes t g m
  have hreg : ((m.interrupt t g).pushes (syscallSaved (m.interrupt t g))).reg = m.reg := by
    rw [pushes_reg, interrupt_reg]
  rw [run_syscallHandler, interrupt_reg]
  unfold syscallChecked
  generalize (m.interrupt t g).pushes (syscallSaved (m.interrupt t g)) = k at hsaved hreg
  have habove : Saved t g m (k.cmpl 8 .eax) := ⟨hsaved.stack, hsaved.cs, hsaved.esp, hsaved.ss⟩
  have hbelow : Saved t g m ((k.cmpl 8 .eax).cmpl 1 .eax) :=
    ⟨hsaved.stack, hsaved.cs, hsaved.esp, hsaved.ss⟩
  rw [habove.error hreg, hbelow.error hreg]
  rcases syscallFunction_none hf with hnumber | hnumber
  · rw [if_pos hnumber]
    rfl
  · rw [if_pos hnumber]
    exact ite_self _

end Syscall

theorem softwareInterrupt_eq {v : Nat} (hv : v < 256) (m : Machine) :
    softwareInterrupt e s idt t v m =
      if v = 128 ∨ m.cpl = 0 then interrupt e s idt t v m else none := by
  have hcpl : m.cpl < 4 := Nat.mod_lt _ (by decide)
  unfold softwareInterrupt
  rw [idt_decode s.addr idt hv, Option.bind_some]
  refine if_congr ?_ rfl rfl
  show (true && decide (m.cpl ≤ (if v = 128 then (3 : BitVec 2) else 0).toNat)) = true ↔ _
  rw [Bool.true_and, decide_eq_true_iff]
  split
  · rename_i hv
    exact iff_of_true (show m.cpl ≤ 3 by omega) (Or.inl hv)
  · rename_i hv
    rw [or_iff_right hv]
    exact Nat.le_zero

/-- Of all the vectors of the table a user program gets through one, and there it finds
    `syscall_handler`. -/
theorem program_interrupts {v : Nat} (hv : v < 256) {m : Machine} (hm : m.cpl ≠ 0) :
    softwareInterrupt e s idt t v m =
      if v = 128 then run e syscallHandler (m.interrupt t (vectorGate s.addr 128)) else none := by
  rw [softwareInterrupt_eq e s idt t hv, if_congr (or_iff_left hm) rfl rfl]
  split
  · subst v
    exact interrupt_eq (by decide) rfl
  · rfl

theorem program_interrupts_breakpoint : softwareInterrupt returningEnv smallLinkage
    (fun _ => zeroDesc) ⟨0x800000, 0x18⟩ 3 userMachine = none :=
  program_interrupts returningEnv smallLinkage (fun _ => zeroDesc) ⟨0x800000, 0x18⟩ (by decide)
    (by decide)

/-- `int $0x80` runs `syscall_handler` from any level. -/
theorem systemCall_eq (m : Machine) : softwareInterrupt e s idt t 128 m =
    run e syscallHandler (m.interrupt t (vectorGate s.addr 128)) := by
  rw [softwareInterrupt_eq e s idt t (by decide), if_pos (Or.inl rfl)]
  exact interrupt_eq (by decide) rfl

theorem systemCall_rejects {m : Machine} (hf : syscallFunction (m.reg .eax) = none) : ∃ mem,
    (∀ x, 44 ≤ (gateStack t (vectorGate s.addr 128) m - 1 - x).toNat → mem x = m.mem x) ∧
      softwareInterrupt e s idt t 128 m = some { m with
        reg := Function.update m.reg .eax (-1)
        mem := mem } := by
  rw [systemCall_eq]
  exact ⟨_, fun x hx => interrupt_pushes_mem t _ m (syscallSaved (m.interrupt t _))
    (show 6 < 2 ^ 28 by decide) hx, syscall_rejects hf⟩

theorem systemCall_calls {m : Machine} {f : CFunction}
    (hf : syscallFunction (m.reg .eax) = some f) :
    let c := syscallCall e (m.interrupt t (vectorGate s.addr 128))
    Stack c.mem c.esp [e.behind (syscallHandler.drop 14), m.reg .ebx, m.reg .ecx, m.reg .edx] ∧
      (∀ x, 60 ≤ (gateStack t (vectorGate s.addr 128) m - 1 - x).toNat → c.mem x = m.mem x) ∧
        ∀ c', Cdecl (e.call f) 3 11 c c' → softwareInterrupt e s idt t 128 m = some { m with
          reg := Function.update m.reg .eax (c'.reg .eax)
          mem := c'.mem } := by
  rw [systemCall_eq]
  generalize vectorGate s.addr 128 = g
  refine ⟨(stack_append.mp (syscallCall_stack e t g m)).1, fun x hx => ?_,
    fun c' hc' => syscall_returns hf hc'⟩
  rw [syscallCall_mem]
  refine interrupt_pushes_mem t g m _ ?_ hx
  rw [List.length_append]
  exact show 4 + 6 < 2 ^ 28 by decide

/-- A system call, from any state of the program: the function of the number in `eax` is entered in
    the state `syscallCall` with `ebx`, `ecx` and `edx` as its arguments, and when it has come back
    from there, the program goes on with its result in `eax`; all other registers and the flags are
    as before. A number without a function gives -1. -/
theorem syscall_gate (m : Machine) :
    match syscallFunction (m.reg .eax) with
    | none => ∃ mem,
      (∀ x, 44 ≤ (gateStack t (vectorGate s.addr 128) m - 1 - x).toNat → mem x = m.mem x) ∧
        softwareInterrupt e s idt t 128 m = some { m with
          reg := Function.update m.reg .eax (-1)
          mem := mem }
    | some f =>
      let c := syscallCall e (m.interrupt t (vectorGate s.addr 128))
      Stack c.mem c.esp [e.behind (syscallHandler.drop 14), m.reg .ebx, m.reg .ecx, m.reg .edx] ∧
        (∀ x, 60 ≤ (gateStack t (vectorGate s.addr 128) m - 1 - x).toNat → c.mem x = m.mem x) ∧
        ∀ c', Cdecl (e.call f) 3 11 c c' → softwareInterrupt e s idt t 128 m = some { m with
          reg := Function.update m.reg .eax (c'.reg .eax)
          mem := c'.mem } := by
  cases hf : syscallFunction (m.reg .eax) with
  | none => exact systemCall_rejects e s idt t hf
  | some f => exact systemCall_calls e s idt t hf

end LmaOS.Interrupts
