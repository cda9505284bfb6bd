import LmaOS.Console.Cursor
import LmaOS.Util.Sheet

/-
  The text page as a window on an unbounded sheet.

  `onSheet text` is what a text makes of an empty sheet of 80 columns: newline and carriage
  return start the next row, every other byte goes into the cell at the cursor. `Shows s p` says
  that the screen shows the lowest 25 rows of the sheet `p`, a space and a NUL being the same
  blank: `clear` fills the page with spaces, `scroll_down` the last row with NULs.

  `screen_refines_sheet`: a cleared screen on which a text was printed shows the sheet of the
  text, however often it scrolled. `terminalWrite_screen`: `terminal_write` prints its buffer that
  way too.
-/
namespace LmaOS

open Util

/-- What a glyph shows, up to the two codes of a blank. -/
def SameGlyph (a b : UInt8) : Prop := a = b ∨ (a = 0x20 ∨ a = 0) ∧ (b = 0x20 ∨ b = 0)

instance (a b : UInt8) : Decidable (SameGlyph a b) :=
  inferInstanceAs (Decidable (_ ∨ _))

theorem SameGlyph.refl (a : UInt8) : SameGlyph a a := Or.inl rfl

/-- The bytes that end a row. -/
def EndsRow (c : UInt8) : Prop := c = 0x0A ∨ c = 0x0D

instance : DecidablePred EndsRow := fun _ => inferInstanceAs (Decidable (_ ∨ _))

abbrev onSheet (text : List UInt8) : Sheet UInt8 := Sheet.write numCols EndsRow 0x20 text

namespace Screen

/-- The character in row `r` and column `c`. -/
def glyph (s : Screen) (r c : Nat) : UInt8 := s.videoMem (2 * (numCols * r + c))

-- rewriting with it keeps the checker from running `clear` to compare the two sides
theorem glyph_eq (s : Screen) (r c : Nat) : s.glyph r c = s.videoMem (2 * (numCols * r + c)) := rfl

/-- The cursor in the first cell. -/
def home (s : Screen) : Screen := { s with screenX := 0, screenY := 0 }

theorem glyph_home (s : Screen) (r c : Nat) : s.home.glyph r c = s.glyph r c := rfl

section Glyph

variable (s : Screen) {r c : Nat}

theorem glyph_clear (hr : r < numRows) (hc : c < numCols) : s.clear.glyph r c = 0x20 := by
  have hcell : 2 * (numCols * r + c) < 4000 := by
    simp only [numRows, numCols] at *
    omega
  have heven : 2 * (numCols * r + c) % 2 = 0 := Nat.mul_mod_right 2 _
  rw [glyph_eq, clear_apply, if_pos hcell, if_pos heven]

theorem glyph_scrollDown (hr : r < numRows) (hc : c < numCols) :
    s.scrollDown.glyph r c = if r + 1 < numRows then s.glyph (r + 1) c else 0 := by
  unfold glyph
  simp only [numRows, numCols] at *
  rw [scrollDown_apply]
  by_cases hup : r + 1 < 25
  · have hfrom : 2 * (80 * r + c) + 160 = 2 * (80 * (r + 1) + c) := by omega
    rw [if_pos hup, if_pos (by omega), hfrom]
  · rw [if_neg hup, if_neg (by omega), if_pos (by omega)]

theorem glyph_store (h : s.screenX < numCols) (hc : c < numCols) (a : UInt8) :
    (s.store a).glyph r c = if r = s.screenY ∧ c = s.screenX then a else s.glyph r c := by
  unfold glyph store cell
  simp only [numCols] at *
  rw [Function.update_of_ne (by omega), Function.update_apply]
  have hcell : 2 * (80 * r + c) = 2 * (80 * s.screenY + s.screenX) ↔
      r = s.screenY ∧ c = s.screenX := by omega
  simp only [hcell]

end Glyph

/-! ## The screen and the sheet -/

/-- The rows of the screen are the lowest ones of the sheet, the cursor is in the same row. -/
structure ShowsRows (s : Screen) (p : Sheet UInt8) : Prop where
  screenY : s.screenY = min p.row (numRows - 1)
  cells : ∀ r c, r < numRows → c < numCols → SameGlyph (s.glyph r c) (p.view numRows r c)

structure Shows (s : Screen) (p : Sheet UInt8) : Prop extends ShowsRows s p where
  screenX : s.screenX = p.col

section Steps

variable {s : Screen} {p : Sheet UInt8}

/-- Both scroll paths: below row 24 the cursor moves, in row 24 the rows do. -/
theorem ShowsRows.nextRow (h : ShowsRows s p) (hp : p.Written numCols 0x20) :
    ShowsRows s.nextRow p.newline := by
  have hrow := h.screenY
  unfold Screen.nextRow
  split
  · rename_i hroom
    rw [hrow] at hroom
    refine ⟨?_, fun r c hr hc => ?_⟩
    · show s.screenY + 1 = min (p.row + 1) (numRows - 1)
      simp only [numRows] at *
      omega
    · rw [Sheet.view_newline, if_pos (by simp only [numRows] at *; omega)]
      exact h.cells r c hr hc
  · rename_i hlast
    rw [hrow] at hlast
    refine ⟨?_, fun r c hr hc => ?_⟩
    · show s.screenY = min (p.row + 1) (numRows - 1)
      simp only [numRows] at *
      omega
    · have hscroll : ¬ p.row < numRows - 1 := by simp only [numRows] at *; omega
      rw [Sheet.view_newline, if_neg hscroll, glyph_scrollDown s hr hc]
      split
      · rename_i hup
        exact h.cells (r + 1) c hup hc
      · rename_i hend
        rw [hp.view_below (Nat.not_lt.mp hend) (Nat.zero_lt_succ 24 : 0 < numRows)]
        exact Or.inr ⟨Or.inr rfl, Or.inl rfl⟩

theorem Shows.store (h : Shows s p) (hp : p.Written numCols 0x20) (a : UInt8) :
    Shows (s.store a) (p.setCell p.row p.col a) := by
  have hx : s.screenX < numCols := h.screenX ▸ hp.col
  refine ⟨⟨h.screenY, fun r c hr hc => ?_⟩, h.screenX⟩
  rw [glyph_store s hx hc, Sheet.view_setCell, ← h.screenY, ← h.screenX]
  split
  · exact SameGlyph.refl a
  · exact h.cells r c hr hc

theorem Shows.putc (h : Shows s p) (hp : p.Written numCols 0x20) (a : UInt8) :
    Shows (s.putc a) (p.symbol numCols EndsRow a) := by
  unfold Screen.putc Sheet.symbol
  by_cases hends : EndsRow a
  · have hline : a = 0x0A ∨ a = 0x0D := hends
    rw [if_pos hline, if_pos hends]
    have hrows := h.toShowsRows.nextRow hp
    exact ⟨⟨hrows.screenY, hrows.cells⟩, rfl⟩
  · have hline : ¬ (a = 0x0A ∨ a = 0x0D) := hends
    rw [if_neg hline, if_neg hends]
    have hstore := h.store hp a
    have hcol : (s.store a).screenX = p.col := h.screenX
    have hset : (p.setCell p.row p.col a).col = p.col := rfl
    have hin := hp.col
    unfold Sheet.put Sheet.advance
    dsimp only
    rw [hcol, hset]
    by_cases hfull : p.col + 1 > numCols - 1
    · have hwrap : (p.col + 1) % numCols = 0 := by simp only [numCols] at *; omega
      rw [if_pos hfull, if_neg (by simp only [numCols] at *; omega), hwrap]
      have hrows : ShowsRows { s.store a with screenX := 0 } (p.setCell p.row p.col a) :=
        ⟨hstore.screenY, hstore.cells⟩
      have hnext := hrows.nextRow (hp.setCell p.col a)
      refine ⟨hnext, ?_⟩
      unfold Screen.nextRow
      split <;> rfl
    · rw [if_neg hfull, if_pos (by simp only [numCols] at *; omega)]
      exact ⟨⟨hstore.screenY, hstore.cells⟩, rfl⟩

theorem Shows.puts (h : Shows s p) (hp : p.Written numCols 0x20) (text : List UInt8) :
    Shows (s.puts text) (text.foldl (Sheet.symbol numCols EndsRow) p) := by
  unfold Screen.puts
  induction text generalizing s p with
  | nil => exact h
  | cons a text ih => exact ih (h.putc hp a) (hp.symbol a)

theorem cleared_shows (s : Screen) : Shows s.clear.home (Sheet.blank 0x20) := by
  refine ⟨⟨rfl, fun r c hr hc => ?_⟩, rfl⟩
  rw [glyph_home, glyph_clear s hr hc]
  exact SameGlyph.refl 0x20

end Steps

end Screen

/-- The screen after a text is the window on the sheet the text makes: the cursor, and every
    character cell. -/
theorem screen_refines_sheet (s : Screen) (text : List UInt8) :
    let s' := s.clear.home.puts text
    let page := onSheet text
    s'.screenX = page.col ∧ s'.screenY = min page.row 24 ∧
      ∀ r c, r < numRows → c < numCols →
        SameGlyph (s'.videoMem (2 * (numCols * r + c))) (page.cell (r + (page.row - 24)) c) := by
  have hshows : Screen.Shows (s.clear.home.puts text) (onSheet text) :=
    (Screen.cleared_shows s).puts (Sheet.blank_written (Nat.zero_lt_succ 79)) text
  exact ⟨hshows.screenX, hshows.screenY, hshows.cells⟩

/-- `terminal_write` prints its bytes, NULs included. -/
theorem terminalWrite_screen (k : Kernel) (buf : Buf) (nbytes : Nat) :
    (terminalWrite k buf nbytes).2.screen = k.screen.puts (buf.take nbytes) := by
  unfold terminalWrite
  split
  · rename_i hnone
    rw [hnone]
    rfl
  · rfl

/-- Two lines: the second letter of the first one, and the cursor behind the second one. -/
example : (onSheet (bytes "AB\nC")).cell 0 1 = 0x42 ∧ (onSheet (bytes "AB\nC")).row = 1 ∧
    (onSheet (bytes "AB\nC")).col = 1 := by decide

end LmaOS
