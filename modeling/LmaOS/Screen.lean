import LmaOS.Lib

/-
  The text console of lib.c: `clear`, `scroll_down`, `putc`, `puts` and the cursor accessors.

  `videoMem` is the memory from 0xB8000 on, by byte offset: the displayed 4 KB page first, then
  the three backing pages of the terminals. A cell of the text page is a character byte and an
  attribute byte. `screen_x` and `screen_y` are C ints that only ever hold non-negative values.
  The hardware cursor (`update_cursor`, two writes to the VGA ports) is left out.
-/
namespace LmaOS

open Util

abbrev numCols : Nat := 80
abbrev numRows : Nat := 25
abbrev attrib : UInt8 := 0x7
/-- `ENTRY_SIZE`: the bytes of a page, and of one terminal's video page. -/
abbrev entrySize : Nat := 4096

structure Screen where
  screenX : Nat
  screenY : Nat
  videoMem : Buf

namespace Screen

def getScreenX (s : Screen) : Nat := s.screenX % 256
def getScreenY (s : Screen) : Nat := s.screenY % 256
def setScreenX (s : Screen) (x : Nat) : Screen := { s with screenX := x % 256 }
def setScreenY (s : Screen) (y : Nat) : Screen := { s with screenY := y % 256 }

@[simp] theorem setScreenX_videoMem (s : Screen) (x : Nat) :
    (s.setScreenX x).videoMem = s.videoMem := rfl

@[simp] theorem setScreenY_videoMem (s : Screen) (y : Nat) :
    (s.setScreenY y).videoMem = s.videoMem := rfl

/-! ## clear -/

def clearLoop : Nat → Nat → Buf → Buf
  | 0, _, v => v
  | n + 1, i, v =>
      clearLoop n (i + 1)
        (Function.update (Function.update v (2 * i) 0x20) (2 * i + 1) attrib)

def clear (s : Screen) : Screen := { s with videoMem := clearLoop (numRows * numCols) 0 s.videoMem }

theorem clearLoop_apply : ∀ n i (v : Buf) o, clearLoop n i v o =
    if 2 * i ≤ o ∧ o < 2 * (i + n) then (if o % 2 = 0 then 0x20 else attrib) else v o
  | 0, i, v, o => by rw [clearLoop, if_neg (by omega)]
  | n + 1, i, v, o => by
      rw [clearLoop, clearLoop_apply n (i + 1), Function.update_apply, Function.update_apply]
      by_cases hlater : 2 * (i + 1) ≤ o ∧ o < 2 * (i + 1 + n)
      · have hin : 2 * i ≤ o ∧ o < 2 * (i + (n + 1)) := by omega
        rw [if_pos hlater, if_pos hin]
      · rw [if_neg hlater]
        by_cases h1 : o = 2 * i + 1
        · rw [if_pos h1, if_pos (by omega), if_neg (by omega)]
        · rw [if_neg h1]
          by_cases h0 : o = 2 * i
          · rw [if_pos h0, if_pos (by omega), if_pos (by omega)]
          · rw [if_neg h0, if_neg (by omega)]

/-- `clear` fills the 80 × 25 cells with blanks and changes nothing else. -/
theorem clear_apply (s : Screen) (o : Nat) : s.clear.videoMem o =
    if o < 4000 then (if o % 2 = 0 then 0x20 else attrib) else s.videoMem o := by
  unfold clear
  simp only [clearLoop_apply, numRows, numCols]
  by_cases h : o < 4000
  · rw [if_pos (by omega), if_pos h]
  · rw [if_neg (by omega), if_neg h]

/-! ## scroll_down -/

/-- The row copy: cell `i` goes to cell `i - 80`, in place and in ascending order. -/
def shiftLoop : Nat → Nat → Buf → Buf
  | 0, _, v => v
  | n + 1, i, v => shiftLoop n (i + 1) (Function.update v (2 * (i - numCols)) (v (2 * i)))

/-- The last row is cleared to NULs. -/
def blankLoop : Nat → Nat → Buf → Buf
  | 0, _, v => v
  | n + 1, i, v =>
      blankLoop n (i + 1) (Function.update v (2 * (i + numCols * (numRows - 1))) 0)

def scrollDown (s : Screen) : Screen where
  screenX := 0
  screenY := s.screenY
  videoMem := blankLoop numCols 0 (shiftLoop (numRows * numCols - numCols) numCols s.videoMem)

theorem shiftLoop_apply : ∀ n i (v : Buf) o, numCols ≤ i → shiftLoop n i v o =
    if 2 * (i - numCols) ≤ o ∧ o < 2 * (i - numCols + n) ∧ o % 2 = 0 then v (o + 2 * numCols)
    else v o
  | 0, i, v, o, _ => by rw [shiftLoop, if_neg (by omega)]
  | n + 1, i, v, o, hi => by
      rw [shiftLoop, shiftLoop_apply n (i + 1) _ _ (by omega)]
      simp only [numCols] at *
      by_cases hlater : 2 * (i + 1 - 80) ≤ o ∧ o < 2 * (i + 1 - 80 + n) ∧ o % 2 = 0
      · have hin : 2 * (i - 80) ≤ o ∧ o < 2 * (i - 80 + (n + 1)) ∧ o % 2 = 0 := by omega
        rw [if_pos hlater, if_pos hin, Function.update_of_ne (by omega)]
      · rw [if_neg hlater, Function.update_apply]
        by_cases h0 : o = 2 * (i - 80)
        · rw [if_pos h0, if_pos (by omega), h0]
          congr 1; omega
        · rw [if_neg h0, if_neg (by omega)]

theorem blankLoop_apply : ∀ n i (v : Buf) o, blankLoop n i v o =
    if 2 * i + 3840 ≤ o ∧ o < 2 * (i + n) + 3840 ∧ o % 2 = 0 then 0 else v o
  | 0, i, v, o => by rw [blankLoop, if_neg (by omega)]
  | n + 1, i, v, o => by
      have hrow : 2 * (i + numCols * (numRows - 1)) = 2 * i + 3840 := Nat.mul_add 2 i 1920
      rw [blankLoop, blankLoop_apply n (i + 1), Function.update_apply, hrow]
      by_cases hlater : 2 * (i + 1) + 3840 ≤ o ∧ o < 2 * (i + 1 + n) + 3840 ∧ o % 2 = 0
      · rw [if_pos hlater, if_pos (by omega)]
      · rw [if_neg hlater]
        by_cases h0 : o = 2 * i + 3840
        · rw [if_pos h0, if_pos (by omega)]
        · rw [if_neg h0, if_neg (by omega)]

/-- Every character moves up one row, the last row is cleared, attributes stay. -/
theorem scrollDown_apply (s : Screen) (o : Nat) : s.scrollDown.videoMem o =
    if o % 2 = 0 ∧ o < 3840 then s.videoMem (o + 160)
    else if o % 2 = 0 ∧ o < 4000 then 0 else s.videoMem o := by
  unfold scrollDown
  simp only [blankLoop_apply, shiftLoop_apply _ _ _ _ (Nat.le_refl numCols), numCols, numRows]
  by_cases hshift : o % 2 = 0 ∧ o < 3840
  · rw [if_neg (by omega), if_pos (by omega), if_pos hshift]
  · by_cases hblank : o % 2 = 0 ∧ o < 4000
    · rw [if_pos (by omega), if_neg hshift, if_pos hblank]
    · rw [if_neg (by omega), if_neg (by omega), if_neg hshift, if_neg hblank]

/-! ## putc and puts -/

/-- The byte offset of the cursor cell. -/
def cell (s : Screen) : Nat := 2 * (numCols * s.screenY + s.screenX)

/-- `c` and the attribute at the cursor cell. -/
def store (s : Screen) (c : UInt8) : Screen :=
  { s with videoMem := Function.update (Function.update s.videoMem s.cell c) (s.cell + 1) attrib }

/-- Down one row, or up the screen in the last one. -/
def nextRow (s : Screen) : Screen :=
  if s.screenY < numRows - 1 then { s with screenY := s.screenY + 1 } else s.scrollDown

def putc (s : Screen) (c : UInt8) : Screen :=
  if c = 0x0A ∨ c = 0x0D then { s.nextRow with screenX := 0 }
  else
    let s := s.store c
    let s := { s with screenX := s.screenX + 1 }
    if s.screenX > numCols - 1 then nextRow { s with screenX := s.screenX % numCols } else s

def puts (s : Screen) (text : List UInt8) : Screen := text.foldl putc s

/-- `printf` of a text without conversion specifiers. -/
def printf (s : Screen) (text : String) : Screen := s.puts (bytes text)

/-! ## What printing reads and changes -/

/-- The cursor is on the screen. -/
def OnScreen (s : Screen) : Prop := s.screenX < numCols ∧ s.screenY < numRows

/-- Same cursor and same displayed page. -/
structure SamePage (s s' : Screen) : Prop where
  screenX : s'.screenX = s.screenX
  screenY : s'.screenY = s.screenY
  page : ∀ o, o < entrySize → s'.videoMem o = s.videoMem o

theorem SamePage.scrollDown {s s' : Screen} (h : SamePage s s') :
    SamePage s.scrollDown s'.scrollDown where
  screenX := rfl
  screenY := h.screenY
  page := by
    intro o ho
    rw [scrollDown_apply, scrollDown_apply]
    split
    · exact h.page _ (by simp only [entrySize]; omega)
    · split
      · rfl
      · exact h.page o ho

theorem SamePage.store {s s' : Screen} (h : SamePage s s') (c : UInt8) :
    SamePage (s.store c) (s'.store c) where
  screenX := h.screenX
  screenY := h.screenY
  page := by
    intro o ho
    have hcell : s'.cell = s.cell := by unfold cell; rw [h.screenX, h.screenY]
    unfold Screen.store
    dsimp only
    rw [hcell, Function.update_apply, Function.update_apply, Function.update_apply,
      Function.update_apply, h.page o ho]

theorem SamePage.setX {s s' : Screen} (h : SamePage s s') (x : Nat) :
    SamePage { s with screenX := x } { s' with screenX := x } := ⟨rfl, h.screenY, h.page⟩

theorem SamePage.nextRow {s s' : Screen} (h : SamePage s s') : SamePage s.nextRow s'.nextRow := by
  unfold Screen.nextRow
  rw [h.screenY]
  split
  · exact ⟨h.screenX, rfl, h.page⟩
  · exact h.scrollDown

/-- What `putc` shows depends on the cursor and the displayed page only. -/
theorem SamePage.putc {s s' : Screen} (h : SamePage s s') (c : UInt8) :
    SamePage (s.putc c) (s'.putc c) := by
  unfold Screen.putc
  split
  · exact h.nextRow.setX 0
  · have hx : (s'.store c).screenX = (s.store c).screenX := h.screenX
    dsimp only
    rw [hx]
    have hs := (h.store c).setX ((s.store c).screenX + 1)
    split
    · exact (hs.setX (((s.store c).screenX + 1) % numCols)).nextRow
    · exact hs

theorem SamePage.puts {s s' : Screen} (h : SamePage s s') (text : List UInt8) :
    SamePage (s.puts text) (s'.puts text) := by
  unfold Screen.puts
  induction text generalizing s s' with
  | nil => exact h
  | cons c text ih => exact ih (h.putc c)

/-- `s'` is on the screen and differs from `s` in the displayed page only. -/
structure Printed (s s' : Screen) : Prop where
  onScreen : s'.OnScreen
  frame : ∀ o, entrySize ≤ o → s'.videoMem o = s.videoMem o

theorem scrollDown_frame (s : Screen) {o : Nat} (ho : entrySize ≤ o) :
    s.scrollDown.videoMem o = s.videoMem o := by
  simp only [entrySize] at ho
  rw [scrollDown_apply, if_neg (by omega), if_neg (by omega)]

theorem store_frame {s : Screen} (h : s.OnScreen) (c : UInt8) {o : Nat} (ho : entrySize ≤ o) :
    (s.store c).videoMem o = s.videoMem o := by
  obtain ⟨hx, hy⟩ := h
  simp only [numCols, numRows, entrySize] at hx hy ho
  unfold store cell
  dsimp only
  rw [Function.update_of_ne (by simp only [numCols]; omega),
    Function.update_of_ne (by simp only [numCols]; omega)]

theorem nextRow_screenY {s : Screen} (h : s.screenY < numRows) : s.nextRow.screenY < numRows := by
  unfold nextRow
  simp only [numRows] at *
  split
  · dsimp only; omega
  · exact h

theorem nextRow_screenX {s : Screen} (h : s.screenX < numCols) : s.nextRow.screenX < numCols := by
  unfold nextRow
  split
  · exact h
  · exact Nat.zero_lt_succ 79

theorem nextRow_frame (s : Screen) {o : Nat} (ho : entrySize ≤ o) :
    s.nextRow.videoMem o = s.videoMem o := by
  unfold nextRow
  split
  · rfl
  · exact scrollDown_frame s ho

theorem putc_printed {s : Screen} (h : s.OnScreen) (c : UInt8) : Printed s (s.putc c) := by
  unfold putc
  split
  · exact ⟨⟨Nat.zero_lt_succ 79, nextRow_screenY h.2⟩, fun o ho => nextRow_frame s ho⟩
  · dsimp only
    split
    · refine ⟨⟨nextRow_screenX (Nat.mod_lt _ (by decide)), nextRow_screenY h.2⟩, fun o ho => ?_⟩
      rw [nextRow_frame _ ho]
      exact store_frame h c ho
    · rename_i hroom
      exact ⟨⟨by simp only [numCols] at *; omega, h.2⟩, fun o ho => store_frame h c ho⟩

/-- Printing leaves the memory behind the displayed page alone. -/
theorem puts_printed {s : Screen} (h : s.OnScreen) (text : List UInt8) :
    Printed s (s.puts text) := by
  unfold puts
  induction text generalizing s with
  | nil => exact ⟨h, fun _ _ => rfl⟩
  | cons c text ih =>
      have hc := putc_printed h c
      have hrest := ih hc.onScreen
      exact ⟨hrest.onScreen, fun o ho => (hrest.frame o ho).trans (hc.frame o ho)⟩

end Screen

end LmaOS
