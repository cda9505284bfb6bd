import LmaOS.Util.Run
import LmaOS.Session.Machine
import LmaOS.Session.Effects

/-
  The system as a machine that takes one call after another.

  `Op` is what can happen: the system calls of the running process, an exception it raises, a
  switch of the displayed terminal, and whatever the other interrupts do to screen and keyboard.
  `perform` runs the kernel's code and reports, as events of the abstract machine, what became of
  the processes. `Sys` is the kernel together with the abstract machine driven by these events.
-/
namespace LmaOS

open Util

inductive Op where
  | execute (l : Locals) (command : Option CString)
  | halt (l : Locals) (status : UInt8)
  | exception (l : Locals) (vector : Nat)
  | openCall (dentry : Dentry) (filename : CString)
  | close (fd : Int)
  | read (dentry : Dentry) (tail : Buf) (fd : Int) (buf : Option Buf) (nbytes : Int)
  | write (fd : Int) (buf : Option Buf) (nbytes : Int)
  | getargs (buf : Option Buf) (nbytes : Int)
  | switchTerminal (saved : Regs) (l : Locals) (tid : Fin 3)
  /-- Device interrupts between two calls. -/
  | devices (screen : Screen) (keyboard : Keyboard)

/-- The process list of a terminal, top first. -/
def Kernel.procs (k : Kernel) (u : Fin 3) : List Int := stackOf (-1) 4 (k.terminals u).processes

/-- The command asks for the file "shell". -/
def isShell (command : Option CString) : Bool :=
  match command with
  | none => false
  | some cmd => decide ((parse cmd).map Prod.fst = some shellName)

/-- The events of an `execute` that ended with `result`. -/
def startEvents (birth : Birth) (result : Option Int) : List Event :=
  match result with
  | none => []
  | some pid => [.start pid birth]

/-- The events of a `halt`. -/
def haltEvents (regs : Regs) (result : HaltResult) : List Event :=
  match result with
  | .inactive => []
  | .resumed .. => [.finish]
  | .restarted pid => [.finish, .start pid ⟨true, regs, none⟩]

def perform (img : Image) (k : Kernel) : Op → Kernel × List Event
  | .execute l command =>
    let r := LmaOS.execute img k l command
    (r.1, startEvents ⟨isShell command, l.regs, (k.procs k.curTerm).head?⟩ r.2)
  | .halt l status =>
    let r := LmaOS.halt img k l status
    (r.1, haltEvents l.regs r.2)
  | .exception l vector =>
    let r := idtHandler vector img k l
    (r.1, haltEvents l.regs r.2)
  | .openCall dentry filename => ((LmaOS.openCall img k dentry filename).2, [])
  | .close fd => ((LmaOS.close k fd).2, [])
  | .read dentry tail fd buf nbytes =>
    match LmaOS.read img k dentry tail fd buf nbytes with
    | some r => (r.kernel, [])
    | none => (k, [])  -- still waiting for a line
  | .write fd buf nbytes => ((LmaOS.write k fd buf nbytes).2, [])
  | .getargs _ _ => (k, [])
  | .switchTerminal saved l tid =>
    let r := LmaOS.switchTerminal img k saved l tid
    (r.1, .display tid :: startEvents ⟨true, l.regs, none⟩ r.2)
  | .devices screen keyboard => ({ k with screen := screen, keyboard := keyboard }, [])

structure Sys where
  kernel : Kernel
  sessions : Sessions

namespace Sys

def step (img : Image) (s : Sys) (op : Op) : Sys :=
  let r := perform img s.kernel op
  ⟨r.1, r.2.foldl Sessions.apply s.sessions⟩

/-- A call comes from the running process; a switch is to another terminal. -/
def Issued (s : Sys) : Op → Prop
  | .switchTerminal _ _ tid => tid ≠ s.kernel.curTerm
  | .devices _ _ => True
  | _ => s.kernel.procs s.kernel.curTerm ≠ []

instance (s : Sys) (op : Op) : Decidable (s.Issued op) :=
  match op with
  | .switchTerminal _ _ tid => inferInstanceAs (Decidable (tid ≠ s.kernel.curTerm))
  | .devices _ _ => isTrue trivial
  | .execute _ _ | .halt _ _ | .exception _ _ | .openCall _ _ | .close _ | .read _ _ _ _ _
  | .write _ _ _ | .getargs _ _ =>
    inferInstanceAs (Decidable (s.kernel.procs s.kernel.curTerm ≠ []))

end Sys

/-- The argument of a command fits the 128 characters of `pcb->arg`. -/
def ArgFits : Op → Prop
  | .execute _ (some command) =>
    ∀ name arg, parse command = some (name, arg) → arg.length ≤ cmdLen
  | _ => True

instance (op : Op) : Decidable (ArgFits op) :=
  match op with
  | .execute _ (some command) =>
    match h : parse command with
    | none => isTrue fun _ _ hp => by rw [h] at hp; cases hp
    | some (_, arg) => decidable_of_iff (arg.length ≤ cmdLen)
        ⟨fun hle _ _ hp => by rw [h] at hp; cases hp; exact hle, fun hall => hall _ _ h⟩
  | .execute _ none | .halt _ _ | .exception _ _ | .openCall _ _ | .close _ | .read _ _ _ _ _
  | .write _ _ _ | .getargs _ _ | .switchTerminal _ _ _ | .devices _ _ => isTrue trivial

/-- The kernel stacks of the six processes with their PCBs: the 48 KB below 8 MB. -/
abbrev stacksSize : Nat := 6 * 8192

/-- `file_data` takes `len_inodes` bytes of the kernel stack, from the frame of `execute` on
    downwards; the bytes read into it from `inode` end below the stacks and the PCBs. -/
def FileDataClear (img : Image) (inode : Nat) : Prop :=
  inode < img.inodeCount →
    img.inodeLength inode = 0 ∨
      img.inodeLength inode + stacksSize ≤ img.inodeCount * absBlockSize

instance (img : Image) (inode : Nat) : Decidable (FileDataClear img inode) :=
  inferInstanceAs (Decidable (_ → _))

/-- The frame of `execute`, with the image at `boot`, holds its arrays and overlays nothing that
    is in use. -/
structure FrameFits (boot : Nat) (img : Image) (l : Locals) (command : Option CString) : Prop where
  arg : ArgFits (.execute l command)
  image : boot + (1 + img.inodeCount + img.dataCount) * absBlockSize
    + img.inodeCount * absBlockSize + stacksSize ≤ 0x800000
  fileData : ∀ parsed ∈ command.bind parse,
    (readDentryByName img (Buf.ofList parsed.1) l.dentry).1 ≠ -1 →
      FileDataClear img (readDentryByName img (Buf.ofList parsed.1) l.dentry).2.inodeNum

/-- The calls the refinement is about. -/
def Sys.Proper (s : Sys) (op : Op) : Prop := s.Issued op ∧ ArgFits op

instance (s : Sys) (op : Op) : Decidable (s.Proper op) :=
  inferInstanceAs (Decidable (s.Issued op ∧ ArgFits op))

/-- Process management before boot: no slot is in use and no exception is pending. -/
def Kernel.PoweredOn (k : Kernel) : Prop := (∀ p, k.processState p = 0) ∧ k.exceptionStatus = 0

theorem loaded_poweredOn : Kernel.loaded.PoweredOn := ⟨fun _ => rfl, rfl⟩

/-- The system after the boot sequence. -/
def boot (img : Image) (k : Kernel) (saved : Regs) (l : Locals) : Sys :=
  let r := entry img k saved l
  ⟨r.1, (Event.display terminalA :: startEvents ⟨true, l.regs, none⟩ r.2).foldl Sessions.apply
    Sessions.empty⟩

end LmaOS
