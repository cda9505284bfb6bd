import LmaOS.State

/-
  The accessors of keyboard.c, and the terminal driver's read and write (terminal.c).

  `terminal_read` spins on the Enter flag while interrupts change the keyboard state. A read is
  one step here, taken in the state in which the loop ends: `none` means that it is still
  waiting.
-/
namespace LmaOS

open Util

namespace Keyboard

/-- `get_kb_buffer`: copies the 128 bytes of the buffer. -/
def getKbBuffer (kb : Keyboard) (buf : Buf) : Buf :=
  fun i => if i < kbBufSize then kb.kbBuffer i else buf i

def setKbBuffer (kb : Keyboard) (buf : Buf) : Keyboard :=
  { kb with kbBuffer := fun i => if i < kbBufSize then buf i else kb.kbBuffer i }

def getKbIndex (kb : Keyboard) : Nat := kb.kbBufferIndex

def setKbIndex (kb : Keyboard) (index : Nat) : Keyboard := { kb with kbBufferIndex := index }

/-- `reset_keyboard`: buffer, index and Enter flag. -/
def resetKeyboard (kb : Keyboard) : Keyboard :=
  { kb with
    kbBuffer := fun i => if i < kbBufSize then 0 else kb.kbBuffer i
    enterFlag := 0
    kbBufferIndex := 0 }

/-- `set_stop_x`: Backspace stops at this column. -/
def setStopX (kb : Keyboard) (x : Nat) : Keyboard := { kb with cursorX := x }

end Keyboard

/-- The bytes `[0, n)` of a buffer set to NUL. -/
def clearBuf (n : Nat) (buf : Buf) : Buf := fun i => if i < n then 0 else buf i

/-- What a system call that fills a buffer leaves behind. -/
structure ReadResult where
  ret : Int
  buf : Buf
  kernel : Kernel

def terminalRead (k : Kernel) (buf : Buf) (nbytes : Nat) : Option ReadResult :=
  if nbytes = 0 then some ⟨0, buf, k⟩
  else
    let upperLimit := if nbytes > kbBufSize then kbBufSize else nbytes
    let termBuf := clearBuf upperLimit buf
    if k.keyboard.enterFlag = 1 then
      let kbBuf := k.keyboard.getKbBuffer (fun _ => 0)
      let termBuf : Buf := fun i => if i < upperLimit then kbBuf i else termBuf i
      let k := { k with keyboard := k.keyboard.resetKeyboard }
      let termBuf := Function.update termBuf (upperLimit - 1) 0x0A
      -- one NUL past the bytes the caller asked for
      let termBuf := Function.update termBuf upperLimit 0
      some ⟨upperLimit, termBuf, k⟩
    else none

/-- A completed read: the buffer up to the last byte asked for, a newline there and a NUL behind. -/
theorem terminalRead_eq {k : Kernel} (buf : Buf) {nbytes : Nat} (hn : nbytes ≠ 0)
    (hflag : k.keyboard.enterFlag = 1) : terminalRead k buf nbytes =
      some ⟨(min nbytes kbBufSize : Nat),
        fun i => if i + 1 < min nbytes kbBufSize then k.keyboard.kbBuffer i
          else if i + 1 = min nbytes kbBufSize then 0x0A
          else if i = min nbytes kbBufSize then 0 else buf i,
        { k with keyboard := k.keyboard.resetKeyboard }⟩ := by
  have hlimit : (if nbytes > kbBufSize then kbBufSize else nbytes) = min nbytes kbBufSize := by
    split <;> omega
  have hpos : 0 < min nbytes kbBufSize := by
    simp only [kbBufSize]
    omega
  have hsize : min nbytes kbBufSize ≤ kbBufSize := Nat.min_le_right _ _
  unfold terminalRead
  rw [if_neg hn]
  dsimp only
  rw [if_pos hflag, hlimit]
  generalize min nbytes kbBufSize = limit at hpos hsize
  refine congrArg (fun b => some (ReadResult.mk limit b _)) (funext fun i => ?_)
  rw [Function.update_apply, Function.update_apply]
  rcases Nat.lt_trichotomy (i + 1) limit with hlt | heq | hgt
  · rw [if_neg (by omega), if_neg (by omega), if_pos (by omega), if_pos hlt]
    exact if_pos (by omega)
  · rw [if_neg (by omega), if_pos (by omega), if_neg (by omega), if_pos heq]
  · rw [if_neg (Nat.not_lt_of_gt hgt), if_neg (Nat.ne_of_gt hgt)]
    by_cases hi : i = limit
    · rw [if_pos hi, if_pos hi]
    · rw [if_neg hi, if_neg hi, if_neg (by omega), if_neg (by omega)]
      exact if_neg (by omega)

theorem terminalRead_waits {k : Kernel} (buf : Buf) {nbytes : Nat} (hn : nbytes ≠ 0)
    (hflag : k.keyboard.enterFlag ≠ 1) : terminalRead k buf nbytes = none := by
  unfold terminalRead
  rw [if_neg hn]
  exact if_neg hflag

/-- `terminal_write`: what was printed cannot be erased with Backspace. -/
def terminalWrite (k : Kernel) (buf : Buf) (nbytes : Nat) : Int × Kernel :=
  if nbytes = 0 then (0, k)
  else
    let k := { k with screen := k.screen.puts (buf.take nbytes) }
    (nbytes, { k with keyboard := k.keyboard.setStopX k.screen.getScreenX })

end LmaOS
