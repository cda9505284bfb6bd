import LmaOS.Util.Stack
import LmaOS.Screen
import LmaOS.Filesys

/-
  The kernel's global state, and what the machine hands to a call.

  * `Pcb` (syscall.h): the process control block. A PCB pointer is the pid `p` of its slot
    `8MB - 8KB * (p + 1)`; `cr3` and `sche_enable` are never read and are left out.
  * `Terminal` (terminal.h), `Keyboard` (the globals of keyboard.c), `Kernel`: everything else.
  * `Regs`, `Locals`: the registers an `asm` statement reads and the previous contents of
    uninitialised local variables. Both are arbitrary in every theorem.

  Kernel memory that is not one of these (the stacks, the interrupt flag) is not modelled: local
  arrays are values of their own. The largest is `file_data` of `execute`, as long as the inode
  table; it stays clear of the PCBs, which are on the same stacks, if the executed files end 48 KB
  or more below that length. `FrameFits` (Session/System) says so for one call.
-/
namespace LmaOS

open Util

abbrev kbBufSize : Nat := 128
/-- `CMD_LEN`: the longest argument string; the arrays have one byte more. -/
abbrev cmdLen : Nat := 128
abbrev size8MB : Int := 0x800000
abbrev size4MB : Int := 0x400000
abbrev size8KB : Int := 0x2000

/-! ## Process control blocks -/

/-- The file operation tables a descriptor can point to. -/
inductive FileOps where
  | fileOp | rtcOp | dirOp | stdinOp | stdoutOp | doNothing
  deriving DecidableEq

/-- Where the linker put the tables in the shipped `bootimg`. -/
def FileOps.addr : FileOps → Nat
  | fileOp => 0x406608
  | rtcOp => 0x406618
  | dirOp => 0x406628
  | stdinOp => 0x406638
  | stdoutOp => 0x406648
  | doNothing => 0x406658

structure Fd where
  fileOp : FileOps
  inode : Nat
  pos : Nat
  flags : Nat
  deriving DecidableEq

structure Pcb where
  file : Nat → Fd
  arg : Buf
  pid : Int
  parentPid : Int
  parentEbp : Nat
  parentEsp : Nat
  ebp : Nat
  esp : Nat

/-- `strncpy(pcb->arg, arg, strlen(arg) + 1)`. The field has 129 bytes and three of padding;
    a longer string runs on into `pid`, `parent_pid` and the four saved registers. -/
def Pcb.copyArg (p : Pcb) (arg : List UInt8) : Pcb :=
  let text := arg ++ [0]
  { p with
    arg := fun i => if i < text.length ∧ i < cmdLen + 1 then text.getD i 0 else p.arg i
    pid := int32 (overlayWord (word32 p.pid) (text.drop 132))
    parentPid := int32 (overlayWord (word32 p.parentPid) (text.drop 136))
    parentEbp := overlayWord p.parentEbp (text.drop 140)
    parentEsp := overlayWord p.parentEsp (text.drop 144)
    ebp := overlayWord p.ebp (text.drop 148)
    esp := overlayWord p.esp (text.drop 152) }

/-- `pcb->file[fd].flags`, where index 8 lies in `arg`. -/
def Pcb.flagsAt (p : Pcb) (fd : Nat) : Nat :=
  if fd < 8 then (p.file fd).flags else p.arg.word 12

/-- `pcb->file[fd] = f`, where index 8 lies in `arg`. -/
def Pcb.setFile (p : Pcb) (fd : Nat) (f : Fd) : Pcb :=
  if fd < 8 then { p with file := Function.update p.file fd f }
  else
    { p with arg := fun i =>
        if i < 4 then wordByte f.fileOp.addr i
        else if i < 8 then wordByte f.inode (i - 4)
        else if i < 12 then wordByte f.pos (i - 8)
        else if i < 16 then wordByte f.flags (i - 12)
        else p.arg i }

/-! ## Terminals and keyboard -/

structure Terminal where
  processes : Nat → Int
  /-- The PCB pointer, `none` for `NULL`. -/
  termProc : Option Int
  numProc : Int
  screenX : Nat
  screenY : Nat
  firstRun : Bool
  kbBuffer : Buf
  kbBufferIndex : Nat

structure Keyboard where
  kbBuffer : Buf
  kbBufferIndex : Nat
  cursorX : Nat
  enterFlag : Nat
  clFlag : Nat
  lshiftFlag : Nat
  rshiftFlag : Nat
  ctrlFlag : Nat
  altFlag : Nat

/-! ## The kernel -/

structure Kernel where
  processState : Int → Nat
  lastShell : Fin 3 → Int
  terminals : Fin 3 → Terminal
  curTerm : Fin 3
  runningTerm : Fin 3
  /-- The byte before each `processes` array: the padding of the record before it, for
      `terminals[0]` the byte before the array of records. No function writes it. -/
  below : Fin 3 → Int
  pcbs : Int → Pcb
  exceptionStatus : Nat
  shellFlag : Nat
  pageDirectory : Nat → Nat
  tssSs0 : Nat
  tssEsp0 : Nat
  /-- The 4 MB program pages, by pid and offset from 0x08000000. -/
  programPage : Int → Buf
  /-- The RTC's register A. -/
  rtcA : Nat
  screen : Screen
  keyboard : Keyboard

/-- The terminals A, B and C of terminal.c. -/
abbrev terminalA : Fin 3 := 0
abbrev terminalB : Fin 3 := 1
abbrev terminalC : Fin 3 := 2

/-- The globals and the PCB memory as they are when the kernel is loaded. -/
def Kernel.loaded : Kernel where
  processState := fun _ => 0
  lastShell := fun _ => -1
  terminals := fun _ => ⟨fun _ => 0, none, 0, 0, 0, false, fun _ => 0, 0⟩
  curTerm := terminalA
  runningTerm := terminalA
  below := fun _ => 0
  pcbs := fun _ => ⟨fun _ => ⟨.fileOp, 0, 0, 0⟩, fun _ => 0, 0, 0, 0, 0, 0, 0⟩
  exceptionStatus := 0
  shellFlag := 0
  pageDirectory := fun _ => 0
  tssSs0 := 0
  tssEsp0 := 0
  programPage := fun _ _ => 0
  rtcA := 0
  screen := ⟨0, 0, fun _ => 0⟩
  keyboard := ⟨fun _ => 0, 0, 0, 0, 0, 0, 0, 0, 0⟩

/-- The displayed terminal's record. -/
abbrev Kernel.term (k : Kernel) : Terminal := k.terminals k.curTerm

abbrev Kernel.setTerm (k : Kernel) (u : Fin 3) (t : Terminal) : Kernel :=
  { k with terminals := Function.update k.terminals u t }

abbrev Kernel.setPcb (k : Kernel) (p : Int) (b : Pcb) : Kernel :=
  { k with pcbs := Function.update k.pcbs p b }

abbrev Kernel.printf (k : Kernel) (text : String) : Kernel :=
  { k with screen := k.screen.printf text }

/-- `set_process_page`: 0x87 is present, writable, user, 4 MB. -/
abbrev Kernel.setProcessPage (k : Kernel) (addr : Int) : Kernel :=
  { k with pageDirectory := Function.update k.pageDirectory 32 (word32 addr ||| 0x87) }

/-- `get_pcb_address`: the last process of the displayed terminal. With no process there the
    index is `-1`. -/
def getPcbAddress (k : Kernel) : Int :=
  let i := firstIdx (fun i => decide (k.term.processes i = -1)) 4
  if i = 0 then k.below k.curTerm else k.term.processes (i - 1)

/-! ## What the machine hands to a call -/

structure Regs where
  esp : Nat
  ebp : Nat

/-- The registers `execute` saves and its uninitialised locals. -/
structure Locals where
  regs : Regs
  fileData : Buf
  dentry : Dentry

/-- Zeroed locals, and the given registers. -/
def Locals.zero (regs : Regs) : Locals := ⟨regs, fun _ => 0, ⟨fun _ => 0, 0, 0⟩⟩

end LmaOS
