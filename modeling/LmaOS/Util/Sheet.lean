import Mathlib.Logic.Function.Basic
import Mathlib.Tactic.Common

/-
  A sheet of text: rows of `w` cells without end, written from the top, and the lowest `h` rows
  of it that a display of that height shows.

  `newline` starts the next row, `put w` stores at the cursor and starts the next row when the
  row is full, `symbol w ends` does the one or the other. `Written w b p` says that the cursor is
  in its row and that nothing below the cursor's row is written yet.

  `view_newline`, `view_setCell`: what the two operations do to the shown rows. Up to row `h - 1`
  a new row moves nothing, from there on it moves every shown row up by one.
-/
namespace LmaOS.Util

structure Sheet (α : Type*) where
  row : Nat
  col : Nat
  cell : Nat → Nat → α

namespace Sheet

variable {α : Type*} {w h : Nat} {b : α} {p : Sheet α}

/-- An empty sheet with the cursor in its first cell. -/
def blank (b : α) : Sheet α := ⟨0, 0, fun _ _ => b⟩

def newline (p : Sheet α) : Sheet α := { p with row := p.row + 1, col := 0 }

/-- `a` in the cell `(r, c)`. -/
def setCell (p : Sheet α) (r c : Nat) (a : α) : Sheet α :=
  { p with cell := fun r' c' => if r' = r ∧ c' = c then a else p.cell r' c' }

/-- The cursor one cell on. -/
def advance (w : Nat) (p : Sheet α) : Sheet α :=
  if p.col + 1 < w then { p with col := p.col + 1 } else p.newline

def put (w : Nat) (p : Sheet α) (a : α) : Sheet α := (p.setCell p.row p.col a).advance w

def symbol (w : Nat) (ends : α → Prop) [DecidablePred ends] (p : Sheet α) (a : α) : Sheet α :=
  if ends a then p.newline else p.put w a

/-- The sheet a text makes. -/
def write (w : Nat) (ends : α → Prop) [DecidablePred ends] (b : α) (text : List α) : Sheet α :=
  text.foldl (symbol w ends) (blank b)

/-- Row `r` of the lowest `h` rows down to the cursor. -/
def view (h : Nat) (p : Sheet α) (r c : Nat) : α := p.cell (r + (p.row - (h - 1))) c

structure Written (w : Nat) (b : α) (p : Sheet α) : Prop where
  col : p.col < w
  below : ∀ r c, p.row < r → p.cell r c = b

theorem blank_written (hw : 0 < w) : Written w b (blank b) := ⟨hw, fun _ _ _ => rfl⟩

theorem Written.newline (hp : Written w b p) : Written w b p.newline :=
  ⟨Nat.lt_of_le_of_lt (Nat.zero_le _) hp.col,
    fun r c hr => hp.below r c (Nat.lt_of_succ_lt hr)⟩

theorem Written.setCell (hp : Written w b p) (c : Nat) (a : α) :
    Written w b (p.setCell p.row c a) := by
  refine ⟨hp.col, fun r c' hr => ?_⟩
  have hne : ¬ (r = p.row ∧ c' = c) := fun he => Nat.ne_of_gt hr he.1
  exact (if_neg hne).trans (hp.below r c' hr)

theorem Written.advance (hp : Written w b p) : Written w b (p.advance w) := by
  unfold Sheet.advance
  split
  · rename_i hroom
    exact ⟨hroom, hp.below⟩
  · exact hp.newline

theorem Written.symbol {ends : α → Prop} [DecidablePred ends] (hp : Written w b p) (a : α) :
    Written w b (p.symbol w ends a) := by
  unfold Sheet.symbol
  split
  · exact hp.newline
  · exact (hp.setCell p.col a).advance

/-- The row below the shown ones is empty. -/
theorem Written.view_below (hp : Written w b p) {r : Nat} (hr : h ≤ r) (hh : 0 < h) (c : Nat) :
    p.view h r c = b :=
  hp.below _ c (by omega)

theorem view_newline (p : Sheet α) (r c : Nat) :
    p.newline.view h r c = if p.row < h - 1 then p.view h r c else p.view h (r + 1) c := by
  unfold view newline
  dsimp only
  split
  · have hnone : p.row + 1 - (h - 1) = p.row - (h - 1) := by omega
    rw [hnone]
  · have hone : r + (p.row + 1 - (h - 1)) = r + 1 + (p.row - (h - 1)) := by omega
    rw [hone]

theorem view_setCell (p : Sheet α) (c' : Nat) (a : α) (r c : Nat) :
    (p.setCell p.row c' a).view h r c =
      if r = min p.row (h - 1) ∧ c = c' then a else p.view h r c := by
  have hrow : r + (p.row - (h - 1)) = p.row ↔ r = min p.row (h - 1) := by omega
  unfold view setCell
  dsimp only
  simp only [hrow]

end Sheet

end LmaOS.Util
