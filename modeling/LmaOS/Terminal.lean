import LmaOS.Process

/-
  Terminals (terminal.c) and the end of the boot sequence (kernel.c).

  `switch_terminal` saves the displayed terminal, restores the other one, switches the address
  space and the stacks to that terminal's process and starts a shell there if none ever ran.
  Frame 0 of the video memory is the displayed page, frame `u + 1` the backing page of terminal
  `u`.
-/
namespace LmaOS

open Util

/-- `memcpy` of one 4 KB video page. -/
def copyPage (v : Buf) (dst src : Nat) : Buf := fun o =>
  if dst * entrySize ≤ o ∧ o < (dst + 1) * entrySize then v (o - dst * entrySize + src * entrySize)
  else v o

/-- The body of the loop of `terminal_init`. -/
def Terminal.init (t : Terminal) : Terminal :=
  { t with
    screenX := 0
    screenY := 0
    firstRun := true
    kbBufferIndex := 0
    numProc := 0
    termProc := none
    processes := fun j => if j < 4 then -1 else t.processes j }

def terminalInit (k : Kernel) : Kernel :=
  { k with
    terminals := fun u => (k.terminals u).init
    curTerm := terminalA
    runningTerm := terminalB }

/-- The first half of `switch_terminal`: registers, cursor, typed input and display of the
    displayed terminal are saved, and `tid`'s typed input is made the current one. -/
def saveTerminal (k : Kernel) (saved : Regs) (tid : Fin 3) : Kernel :=
  let pid := getPcbAddress k
  let k := k.setPcb pid { k.pcbs pid with esp := saved.esp, ebp := saved.ebp }
  let t := { k.term with
    screenX := k.screen.getScreenX
    screenY := k.screen.getScreenY
    kbBuffer := k.keyboard.getKbBuffer k.term.kbBuffer
    kbBufferIndex := k.keyboard.getKbIndex }
  let k := k.setTerm k.curTerm t
  let kb := k.keyboard.resetKeyboard
  let kb := kb.setKbBuffer (k.terminals tid).kbBuffer
  let kb := kb.setKbIndex (k.terminals tid).kbBufferIndex
  let v := copyPage k.screen.videoMem (k.curTerm + 1) 0
  { k with keyboard := kb, screen := { k.screen with videoMem := v } }

/-- The second half: `tid`'s display and cursor. -/
def restoreTerminal (k : Kernel) (tid : Fin 3) : Kernel :=
  let k := { k with curTerm := tid }
  let v := copyPage k.screen.videoMem 0 (tid + 1)
  let screen := { k.screen with videoMem := v }
  let screen := screen.setScreenX (k.term.screenX % 256)
  let screen := screen.setScreenY (k.term.screenY % 256)
  { k with screen := screen }

/-- The address space and the kernel stack of the PCB `get_pcb_address` finds. -/
def switchExecution (k : Kernel) : Kernel :=
  let p := k.pcbs (getPcbAddress k)
  let k := k.setProcessPage (size8MB + p.pid * size4MB)
  { k with tssSs0 := 0x18, tssEsp0 := word32 (size8MB - p.pid * size8KB - 4) }

/-- `switch_terminal(tid)`. The result of the final `execute`, if it is called, is `some pid` when
    the terminal's first shell was started. The registers loaded from the PCB are left out. -/
def switchTerminal (img : Image) (k : Kernel) (saved : Regs) (l : Locals) (tid : Fin 3) :
    Kernel × Option Int :=
  let k := switchExecution (restoreTerminal (saveTerminal k saved tid) tid)
  if k.term.firstRun then execute img k l (some shellCommand) else (k, none)

/-- `entry` from `terminal_init` on: the screen is cleared and terminal 0 displayed. -/
def entry (img : Image) (k : Kernel) (saved : Regs) (l : Locals) : Kernel × Option Int :=
  let k := terminalInit k
  let screen := (k.screen.clear.setScreenX 0).setScreenY 0
  switchTerminal img { k with screen := screen } saved l terminalA

end LmaOS
