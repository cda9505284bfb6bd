import LmaOS.Syscall

/-
  Starting and stopping processes: `execute` and `halt` of syscall.c and the exception handlers
  of idt.c.

  `execute` either returns -1 (`none`) or leaves for user mode in a new process (`some pid`); the
  kernel state is then the one the new process starts in. `halt` ends in one of three ways
  (`HaltResult`). The parse loop stores into local arrays; a word of more than 32 characters is
  refused, an argument of more than 128 characters is stored all the same.
-/
namespace LmaOS

open Util

/-! ## Parsing a command -/

/-- The parse loop's state; `fname` and `arg` are what was stored so far. -/
structure ParseState where
  fname : List UInt8
  arg : List UInt8
  commandFlag : Nat

/-- One character of the command; `none`: file name too long. -/
def parseStep (st : ParseState) (c : UInt8) : Option ParseState :=
  if c ≠ 0x20 ∧ (st.commandFlag = 0 ∨ st.commandFlag = 1) then
    if st.fname.length ≥ 32 then none
    else some { st with fname := st.fname ++ [c], commandFlag := 1 }
  else if c = 0x20 ∧ st.commandFlag = 1 then some { st with commandFlag := 2 }
  else if c ≠ 0x20 ∧ (st.commandFlag = 2 ∨ st.commandFlag = 3) then
    some { st with arg := st.arg ++ [c], commandFlag := 3 }
  else if c = 0x20 ∧ st.commandFlag = 3 then
    some { st with arg := st.arg ++ [c], commandFlag := 3 }
  else some st

def parseLoop : List UInt8 → ParseState → Option ParseState
  | [], st => some st
  | c :: cs, st =>
      match parseStep st c with
      | none => none
      | some st => parseLoop cs st

/-- `fname` and `arg` of a command, without their terminating NULs. -/
def parse (command : CString) : Option (List UInt8 × List UInt8) :=
  (parseLoop command.chars ⟨[], [], 0⟩).map fun st => (st.fname, st.arg)

/-! ## execute -/

/-- `exe_identifier`. -/
def exeIdentifier : Buf := Buf.ofList [0x7f, 0x45, 0x4c, 0x46]

/-- The text "shell". -/
def shellName : List UInt8 := [0x73, 0x68, 0x65, 0x6c, 0x6c]

/-- The command with which the kernel starts a base shell. -/
def shellCommand : CString := ⟨shellName, by decide⟩

/-- All six slots are in use. -/
def Kernel.allActive (k : Kernel) : Bool :=
  (List.range 6).all fun i => decide (k.processState i = 1)

/-- The first free slot. -/
def Kernel.freePid (k : Kernel) : Nat := firstIdx (fun i => decide (k.processState i = 0)) 6

/-- The new process's entry in `processes`: slot 0 on the terminal's first run, else the first
    free slot. -/
def Terminal.enlist (t : Terminal) (pid : Int) : Nat → Int :=
  if t.firstRun then Function.update t.processes 0 pid
  else
    let i := firstIdx (fun i => decide (t.processes i = -1)) 4
    if i < 4 then Function.update t.processes i pid else t.processes

/-- `last_shell` after the first-run branch. -/
def Kernel.firstRunShell (k : Kernel) : Fin 3 → Int :=
  if k.term.firstRun ∧ k.curTerm = terminalA then Function.update k.lastShell terminalA 0
  else k.lastShell

/-- `parent_pid`: a terminal's base process is its own parent, any other process gets the
    terminal's last shell. -/
def Kernel.newParent (k : Kernel) (pid : Int) : Int :=
  if k.term.numProc = 0 then k.term.enlist pid 0 else k.firstRunShell k.curTerm

/-- The new PCB, in the order of the source: pid, parent, descriptors 0 and 1 (the other six are
    left as they are), the argument, the parent's registers. -/
def Kernel.newPcb (k : Kernel) (regs : Regs) (pid : Int) (arg : List UInt8) : Pcb :=
  let p := { k.pcbs pid with pid := pid, parentPid := k.newParent pid }
  let p := p.setFile 0 { p.file 0 with flags := 1, fileOp := .stdinOp, pos := 0 }
  let p := p.setFile 1 { p.file 1 with flags := 1, fileOp := .stdoutOp, pos := 0 }
  let p := p.copyArg arg
  { p with parentEsp := regs.esp, parentEbp := regs.ebp }

/-- The terminal records: the displayed one lists the process, and so does, as `term_proc`, the
    one of the running terminal. -/
def Kernel.newTerminals (k : Kernel) (pid : Int) : Fin 3 → Terminal :=
  let t := { k.term with
    termProc := some pid
    processes := k.term.enlist pid
    firstRun := false
    numProc := k.term.numProc + 1 }
  let ts := Function.update k.terminals k.curTerm t
  Function.update ts k.runningTerm { ts k.runningTerm with termProc := some pid }

/-- The part of `execute` that can no longer fail. -/
def startProcess (k : Kernel) (regs : Regs) (pid : Int) (fname arg : List UInt8) (fileData : Buf)
    (nbytes : Nat) : Kernel :=
  let k' := k.setPcb pid (k.newPcb regs pid arg)
  let k' := { k' with
    terminals := k.newTerminals pid
    lastShell :=
      if fname = shellName then Function.update k.firstRunShell k.curTerm pid
      else k.firstRunShell }
  let k' := k'.setProcessPage (size8MB + pid * size4MB)
  -- `memcpy` to 0x08048000, now in the new process's page
  let image : Buf := fun i =>
    if 0x48000 ≤ i ∧ i < 0x48000 + nbytes then fileData (i - 0x48000) else k.programPage pid i
  { k' with
    programPage := Function.update k.programPage pid image
    tssSs0 := 0x18
    tssEsp0 := word32 (size8MB - pid * size8KB - 4) }

/-- `execute`. `l` is what the machine hands in: the registers saved for the parent and the
    previous contents of the locals. -/
def execute (img : Image) (k : Kernel) (l : Locals) (command : Option CString) :
    Kernel × Option Int :=
  let k := { k with shellFlag := 1 }
  match command with
  | none => (k.printf "execute error: command error\n", none)
  | some cmd =>
    if cmd.chars = [] then (k.printf "execute error: command error\n", none)
    else if k.allActive then (k.printf "execute: no available process(es)\n", none)
    else if k.term.numProc > 3 then (k.printf "execute: no available process(es)\n", none)
    else
      let pid : Int := k.freePid
      let claimed := { k with processState := Function.update k.processState pid 1 }
      let released := { claimed with processState := Function.update claimed.processState pid 0 }
      match parse cmd with
      -- this exit does not give the slot back
      | none => (claimed.printf "execute error: filename too long\n", none)
      | some (fname, arg) =>
        let d := readDentryByName img (Buf.ofList fname) l.dentry
        if d.1 = -1 then (released.printf "execute error: file not found\n", none)
        else
          let r := readData img d.2.inodeNum 0 l.fileData img.lenInodes
          let nbytes := r.1 % 65536
          if strncmp r.2 exeIdentifier 4 ≠ 0 then
            (released.printf "execute error: file not an executable\n", none)
          else (startProcess claimed l.regs pid fname arg r.2 nbytes, some pid)

/-! ## halt -/

/-- How a call of `halt` ends. -/
inductive HaltResult where
  /-- It returns -1 to its caller. -/
  | inactive
  /-- The parent's `ebp` and `esp` are loaded and `execute` returns `value` there. -/
  | resumed (ebp esp value : Nat)
  /-- A base shell was replaced by the new process `pid`. -/
  | restarted (pid : Int)
  deriving DecidableEq

/-- One round of the closing loop. The test reads the halting process's table, `close` finds its
    own PCB. -/
def closeStep (pid : Int) (k : Kernel) (i : Nat) : Kernel :=
  let k := if i > 1 ∧ ((k.pcbs pid).file i).flags = 1 then (close k i).2 else k
  let p := k.pcbs pid
  k.setPcb pid { p with file := Function.update p.file i { p.file i with fileOp := .doNothing } }

/-- The process is taken off the tables, before its files are closed. -/
def haltUnlink (k : Kernel) (p : Pcb) : Kernel :=
  let t := k.term
  let i := firstIdx (fun i => decide (t.processes i = p.pid)) 4
  let t := { t with
    processes := if i < 4 then Function.update t.processes i (-1) else t.processes
    termProc := some p.parentPid }
  { k.setTerm k.curTerm t with
    processState := Function.update k.processState p.pid 0
    lastShell :=
      if k.lastShell k.curTerm = p.pid then
        Function.update k.lastShell k.curTerm (toInt8 p.parentPid)
      else k.lastShell }

/-- The start of `halt`: a pending exception is taken, the terminal counts one process less. -/
def haltEnter (k : Kernel) : Kernel :=
  let k := if k.exceptionStatus = 256 then { k with exceptionStatus := 0 } else k
  k.setTerm k.curTerm { k.term with numProc := k.term.numProc - 1 }

/-- The process `pid` is off the tables and its files are closed. -/
def haltClosed (k : Kernel) (pid : Int) : Kernel :=
  (List.range 8).foldl (closeStep pid) (haltUnlink (haltEnter k) (k.pcbs pid))

/-- The page and the kernel stack of the parent of `pid`. -/
def loadParent (k : Kernel) (pid : Int) : Kernel :=
  let p := k.pcbs pid
  let k := k.setProcessPage (size8MB + p.parentPid * size4MB)
  { k with tssEsp0 := word32 (size8MB - p.parentPid * size8KB - 4) }

/-- The end of `halt`: a new base shell if the last process ended, and if it is none or cannot be
    started, back to the parent. -/
def haltEnd (img : Image) (k : Kernel) (l : Locals) (pid : Int) (isProcess0 : Bool)
    (actualStatus : Nat) : Kernel × HaltResult :=
  match (if isProcess0 then execute img k l (some shellCommand) else (k, none)) with
  | (k, some new) => (k, .restarted new)
  | (k, none) =>
    (loadParent k pid, .resumed (k.pcbs pid).parentEbp (k.pcbs pid).parentEsp actualStatus)

/-- `halt(status)`. -/
def halt (img : Image) (k : Kernel) (l : Locals) (status : UInt8) : Kernel × HaltResult :=
  let pid := getPcbAddress k
  let p := k.pcbs pid
  let actualStatus := if k.exceptionStatus = 256 then 256 else status.toNat
  if (haltEnter k).processState p.pid = 0 then
    ((haltEnter k).printf "halt error: inactive process\n", .inactive)
  else
    haltEnd img (haltClosed k pid) l pid (decide ((haltEnter k).term.numProc = 0)) actualStatus

/-! ## Exceptions -/

/-- `EXCEPTION_FLAG`. -/
abbrev exceptionFlag : Nat := 256

/-- The body every handler of idt.c has: message, flag, `halt((uint8_t)EXCEPTION_FLAG)`. -/
def raise (message : String) (img : Image) (k : Kernel) (l : Locals) : Kernel × HaltResult :=
  halt img { k.printf message with exceptionStatus := exceptionFlag } l
    (UInt8.ofNat exceptionFlag)

def idt0 := raise "Divide Error \n"
def idt1 := raise "RESERVED \n"
def idt2 := raise "NMI interrupt \n"
def idt3 := raise "Breakpoint \n"
def idt4 := raise "Overflow \n"
def idt5 := raise "BOUND Range Exceeded \n"
def idt6 := raise "Invalid Opcode (Undefined Opcode) \n"
def idt7 := raise "Device Not Available (No Math Coprocessor) \n"
def idt8 := raise "Double fault \n"
def idt9 := raise "Coprocessor Segment Overrun (reserved) \n"
def idt10 := raise "Invalid TSS \n"
def idt11 := raise "Segment Not Present \n"
def idt12 := raise "Stack-Segment Fault \n"
def idt13 := raise "General Protection \n"
def idt14 := raise "Page Fault \n"
def idt15 := raise "(Intel reserved. Do not use.) \n"
def idt16 := raise "x87 FPU Floating-Point Error (Math Fault) \n"
def idt17 := raise "Alignment Check \n"
def idt18 := raise "Machine Check \n"
def idt19 := raise "SIMD Floating-Point Exception \n"
def reserved := raise "Intel reserved. Do not use. \n"
def nonReserved := raise "User Defined (Non-reserved) Interrupts \n"

/-- The handler `idt_init` installs at a vector (the four device and system call gates apart). -/
def idtHandler : Nat → Image → Kernel → Locals → Kernel × HaltResult
  | 0 => idt0 | 1 => idt1 | 2 => idt2 | 3 => idt3 | 4 => idt4
  | 5 => idt5 | 6 => idt6 | 7 => idt7 | 8 => idt8 | 9 => idt9
  | 10 => idt10 | 11 => idt11 | 12 => idt12 | 13 => idt13 | 14 => idt14
  | 15 => idt15 | 16 => idt16 | 17 => idt17 | 18 => idt18 | 19 => idt19
  | n => if n < 32 then reserved else nonReserved

/-- Every handler is `raise` with its own message. -/
theorem idtHandler_raise (n : Nat) : ∃ message, idtHandler n = raise message := by
  unfold idtHandler
  split <;> first | exact ⟨_, rfl⟩ | skip
  split
  · exact ⟨_, rfl⟩
  · exact ⟨_, rfl⟩

end LmaOS
