import LmaOS.Terminal

/-
  The keyboard interrupt (keyboard.c): `kb_intr` on one scancode.

  The four key maps have an entry for every scancode below 0x59; the rest of each array is NUL.
  `kb_buffer` is written through an 8-bit index without a bound in the Backspace branches: a write
  past its 128 bytes changes `kbBuffer` at that offset here, and not the global that stands there.
-/
namespace LmaOS

open Util

/-! ## Key maps -/

/-- What all four maps hold from scancode 0x37 on: `*`, space and the keypad. -/
def keypadRow : List UInt8 :=
  bytes "*" ++ [0] ++ bytes " " ++ List.replicate 13 0 ++ bytes "789-456+1230."

/-- The layout of a map: the digit row, the three letter rows and the keypad. -/
def keyRows (digits top home bottom : String) (backslash : UInt8) : List UInt8 :=
  [0, 0] ++ bytes digits ++ [0, 0] ++ bytes top ++ [0, 0] ++ bytes home ++ [0, backslash]
    ++ bytes bottom ++ [0] ++ keypadRow

def scancodeShiftCapsLock : List UInt8 :=
  keyRows "!@#$%^&*()_+" "qwertyuiop\x7b\x7d" "asdfghjkl:\"~" "zxcvbnm<>?" 0x7c

def scancodeCapsLock : List UInt8 :=
  keyRows "1234567890-=" "QWERTYUIOP[]" "ASDFGHJKL;'`" "ZXCVBNM,./" 0x5c

def scancodeShift : List UInt8 :=
  keyRows "!@#$%^&*()_+" "QWERTYUIOP\x7b\x7d" "ASDFGHJKL:\"~" "ZXCVBNM<>?" 0x7c

def scancodeNormal : List UInt8 :=
  keyRows "1234567890-=" "qwertyuiop[]" "asdfghjkl;'`" "zxcvbnm,./" 0x5c

/-- The map the modifier flags select. -/
def Keyboard.keyMap (kb : Keyboard) : Option (List UInt8) :=
  if kb.clFlag = 0 ∧ kb.lshiftFlag = 0 ∧ kb.rshiftFlag = 0 then some scancodeNormal
  else if kb.clFlag = 1 ∧ kb.lshiftFlag = 0 ∧ kb.rshiftFlag = 0 then some scancodeCapsLock
  else if kb.clFlag = 0 ∧ (kb.lshiftFlag = 1 ∨ kb.rshiftFlag = 1) then some scancodeShift
  else if kb.clFlag = 1 ∧ (kb.lshiftFlag = 1 ∨ kb.rshiftFlag = 1) then some scancodeShiftCapsLock
  else none

/-! ## The branches of `kb_intr` -/

/-- `kb_buffer[i] = c`. -/
def Keyboard.put (kb : Keyboard) (i : Nat) (c : UInt8) : Keyboard :=
  { kb with kbBuffer := Function.update kb.kbBuffer i c }

/-- `kb_buffer_index--` on a byte. -/
def Keyboard.prevIndex (kb : Keyboard) : Keyboard :=
  { kb with kbBufferIndex := (kb.kbBufferIndex + 255) % 256 }

/-- `kb_buffer_index++` on a byte. -/
def Keyboard.nextIndex (kb : Keyboard) : Keyboard :=
  { kb with kbBufferIndex := (kb.kbBufferIndex + 1) % 256 }

def pressEnter (k : Kernel) : Kernel :=
  let y := k.screen.getScreenY
  let k := { k with keyboard := { k.keyboard with enterFlag := 1, kbBufferIndex := 0 } }
  if y = numRows - 1 then { k with screen := k.screen.scrollDown }
  else { k with screen := (k.screen.setScreenY (y + 1)).setScreenX 0 }

/-- The character of cell `(x, y)` is erased, its attribute stays. -/
def Screen.erase (s : Screen) (x y : Nat) : Screen :=
  { s with videoMem := Function.update s.videoMem ((numCols * y + x) * 2) 0 }

def pressBackspace (k : Kernel) : Kernel :=
  let x := k.screen.getScreenX
  let y := k.screen.getScreenY
  let kb := k.keyboard
  if x ≠ 0 ∧ x ≠ kb.cursorX then
    let kb := (kb.put kb.kbBufferIndex 0).prevIndex
    { k with
      keyboard := kb.put kb.kbBufferIndex 0
      screen := (k.screen.erase (x - 1) y).setScreenX (x - 1) }
  else if y ≠ 0 ∧ x ≠ kb.cursorX then
    -- back to the end of the previous row
    { k with
      keyboard := (kb.put kb.kbBufferIndex 0).prevIndex
      screen :=
        ((k.screen.erase (numCols - 1) (y - 1)).setScreenX (numCols - 1)).setScreenY (y - 1) }
  else k

/-- Ctrl+L and Ctrl+C: a clear screen, with the shell's prompt once a program was executed. -/
def clearScreen (k : Kernel) : Kernel :=
  let screen := (k.screen.clear.setScreenX 0).setScreenY 0
  let screen :=
    if k.shellFlag = 1 then ((screen.puts (bytes "391OS> ")).setScreenX 7).setScreenY 0
    else screen
  { k with screen := screen, keyboard := { k.keyboard with kbBufferIndex := 0 } }

/-- A key with a character: echoed and stored. -/
def typeKey (k : Kernel) (idx : Nat) : Kernel :=
  match k.keyboard.keyMap with
  | none => k
  | some map =>
    let c := map.getD idx 0
    { k with
      screen := k.screen.putc c
      keyboard := (k.keyboard.put k.keyboard.kbBufferIndex c).nextIndex }

/-! ## The interrupt -/

/-- The terminal of Alt+F1, Alt+F2 and Alt+F3. -/
def functionKey : Nat → Option (Fin 3)
  | 0x3B => some terminalA
  | 0x3C => some terminalB
  | 0x3D => some terminalC
  | _ => none

/-- `kb_intr` with the scancode `idx`. `saved` and `l` are for the switch of terminals, whose
    result it returns. -/
def kbIntr (img : Image) (k : Kernel) (saved : Regs) (l : Locals) (idx : Nat) :
    Kernel × Option Int :=
  let kb := k.keyboard
  if idx = 0x2A then ({ k with keyboard := { kb with lshiftFlag := 1 } }, none)
  else if idx = 0x36 then ({ k with keyboard := { kb with rshiftFlag := 1 } }, none)
  else if idx = 0xAA then ({ k with keyboard := { kb with lshiftFlag := 0 } }, none)
  else if idx = 0xB6 then ({ k with keyboard := { kb with rshiftFlag := 0 } }, none)
  else if idx = 0x3A then ({ k with keyboard := { kb with clFlag := kb.clFlag ^^^ 1 } }, none)
  else if idx = 0x38 then ({ k with keyboard := { kb with altFlag := 1 } }, none)
  else if idx = 0xB8 then ({ k with keyboard := { kb with altFlag := 0 } }, none)
  else if idx = 0x1C then (pressEnter k, none)
  else if idx = 0x1D then ({ k with keyboard := { kb with ctrlFlag := 1 } }, none)
  else if idx = 0x9D then ({ k with keyboard := { kb with ctrlFlag := 0 } }, none)
  else if idx = 0x0E then (pressBackspace k, none)
  else
    match (if kb.altFlag ≠ 0 then functionKey idx else none) with
    | some tid => if k.curTerm ≠ tid then switchTerminal img k saved l tid else (k, none)
    | none =>
      if idx < 88 then
        if kb.ctrlFlag ≠ 0 ∧ (idx = 0x26 ∨ idx = 0x2E) then (clearScreen k, none)
        else if kb.kbBufferIndex ≥ kbBufSize then (k, none)
        else (typeKey k idx, none)
      else (k, none)

end LmaOS
