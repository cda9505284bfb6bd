import LmaOS.Console.KeyboardBuffer

/-
  The stores to video memory of lib.c and keyboard.c.

  For every function that writes to the displayed page, the list of the byte offsets it stores to,
  in the order of the source (`clearStores`, `scrollDownStores`, `putcStores`, ...). Each list
  comes with two facts: its offsets lie in the 80 × 25 cells as long as the cursor does, and a
  byte that is not listed does not change.
-/
namespace LmaOS

open Util

/-- The bytes of the text page. -/
abbrev textBytes : Nat := numRows * numCols * 2

namespace Screen

/-! ## lib.c -/

def clearStores : List Nat :=
  (List.range (numRows * numCols)).flatMap fun i => [2 * i, 2 * i + 1]

def scrollDownStores : List Nat :=
  ((List.range' numCols (numRows * numCols - numCols)).map fun i => 2 * (i - numCols)) ++
    (List.range numCols).map fun i => 2 * (i + numCols * (numRows - 1))

def nextRowStores (s : Screen) : List Nat :=
  if s.screenY < numRows - 1 then [] else scrollDownStores

def putcStores (s : Screen) (c : UInt8) : List Nat :=
  if c = 0x0A ∨ c = 0x0D then s.nextRowStores
  else [s.cell, s.cell + 1] ++ if s.screenX + 1 > numCols - 1 then s.nextRowStores else []

def putsStores (s : Screen) : List UInt8 → List Nat
  | [] => []
  | c :: text => s.putcStores c ++ (s.putc c).putsStores text

theorem mem_clearStores {o : Nat} : o ∈ clearStores ↔ o < textBytes := by
  unfold clearStores
  simp only [List.mem_flatMap, List.mem_range, List.mem_cons, List.not_mem_nil, or_false,
    textBytes, numRows, numCols]
  constructor
  · rintro ⟨i, hi, rfl | rfl⟩ <;> omega
  · intro ho
    exact ⟨o / 2, by omega, by omega⟩

theorem mem_scrollDownStores {o : Nat} : o ∈ scrollDownStores ↔ o % 2 = 0 ∧ o < textBytes := by
  unfold scrollDownStores
  simp only [List.mem_append, List.mem_map, List.mem_range'_1, List.mem_range, textBytes,
    numRows, numCols]
  constructor
  · rintro (⟨i, hi, rfl⟩ | ⟨i, hi, rfl⟩) <;> omega
  · rintro ⟨heven, hlt⟩
    rcases Nat.lt_or_ge o 3840 with hshift | hblank
    · exact Or.inl ⟨o / 2 + 80, by omega, by omega⟩
    · exact Or.inr ⟨o / 2 - 1920, by omega, by omega⟩

section Putc

variable {s : Screen}

theorem nextRowStores_lt : ∀ o ∈ s.nextRowStores, o < textBytes := by
  intro o ho
  unfold nextRowStores at ho
  split at ho
  · exact absurd ho List.not_mem_nil
  · exact (mem_scrollDownStores.mp ho).2

theorem cell_lt (h : s.OnScreen) : s.cell + 1 < textBytes := by
  obtain ⟨hx, hy⟩ := h
  unfold cell
  simp only [textBytes, numCols, numRows] at *
  omega

theorem putcStores_lt (h : s.OnScreen) (c : UInt8) : ∀ o ∈ s.putcStores c, o < textBytes := by
  intro o ho
  unfold putcStores at ho
  split at ho
  · exact nextRowStores_lt o ho
  · have hcell := cell_lt h
    rcases List.mem_append.mp ho with ho | ho
    · simp only [List.mem_cons, List.not_mem_nil, or_false] at ho
      omega
    · split at ho
      · exact nextRowStores_lt o ho
      · exact absurd ho List.not_mem_nil

theorem putsStores_lt (h : s.OnScreen) (text : List UInt8) :
    ∀ o ∈ s.putsStores text, o < textBytes := by
  induction text generalizing s with
  | nil => exact fun o ho => absurd ho List.not_mem_nil
  | cons c text ih =>
    intro o ho
    rcases List.mem_append.mp ho with ho | ho
    · exact putcStores_lt h c o ho
    · exact ih (putc_printed h c).onScreen o ho

/-! ## What is not listed stays -/

theorem clear_unstored {o : Nat} (ho : o ∉ clearStores) : s.clear.videoMem o = s.videoMem o := by
  rw [mem_clearStores] at ho
  exact (clear_apply s o).trans (if_neg ho)

theorem scrollDown_unstored {o : Nat} (ho : o ∉ scrollDownStores) :
    s.scrollDown.videoMem o = s.videoMem o := by
  rw [mem_scrollDownStores] at ho
  simp only [textBytes, numRows, numCols] at ho
  rw [scrollDown_apply, if_neg (by omega), if_neg (by omega)]

theorem nextRow_unstored {o : Nat} (ho : o ∉ s.nextRowStores) :
    s.nextRow.videoMem o = s.videoMem o := by
  unfold nextRowStores at ho
  unfold nextRow
  split <;> rename_i hrow
  · rfl
  · rw [if_neg hrow] at ho
    exact scrollDown_unstored ho

theorem store_unstored {c : UInt8} {o : Nat} (ho : o ∉ [s.cell, s.cell + 1]) :
    (s.store c).videoMem o = s.videoMem o := by
  simp only [List.mem_cons, List.not_mem_nil, or_false, not_or] at ho
  unfold store
  dsimp only
  rw [Function.update_of_ne ho.2, Function.update_of_ne ho.1]

theorem putc_unstored {c : UInt8} {o : Nat} (ho : o ∉ s.putcStores c) :
    (s.putc c).videoMem o = s.videoMem o := by
  unfold putcStores at ho
  unfold putc
  split <;> rename_i hline
  · rw [if_pos hline] at ho
    exact nextRow_unstored ho
  · rw [if_neg hline, List.mem_append, not_or] at ho
    dsimp only
    split <;> rename_i hwrap
    · have hwrap' : s.screenX + 1 > numCols - 1 := hwrap
      rw [if_pos hwrap'] at ho
      exact (nextRow_unstored (s := { s.store c with screenX := (s.screenX + 1) % numCols })
        ho.2).trans (store_unstored ho.1)
    · exact store_unstored ho.1

theorem puts_unstored {text : List UInt8} {o : Nat} (ho : o ∉ s.putsStores text) :
    (s.puts text).videoMem o = s.videoMem o := by
  induction text generalizing s with
  | nil => rfl
  | cons c text ih =>
    rw [putsStores, List.mem_append, not_or] at ho
    exact (ih ho.2).trans (putc_unstored ho.1)

end Putc

end Screen

/-! ## keyboard.c -/

def pressEnterStores (k : Kernel) : List Nat :=
  if k.screen.getScreenY = numRows - 1 then Screen.scrollDownStores else []

def pressBackspaceStores (k : Kernel) : List Nat :=
  let x := k.screen.getScreenX
  let y := k.screen.getScreenY
  if x ≠ 0 ∧ x ≠ k.keyboard.cursorX then [(numCols * y + (x - 1)) * 2]
  else if y ≠ 0 ∧ x ≠ k.keyboard.cursorX then [(numCols * (y - 1) + (numCols - 1)) * 2]
  else []

def clearScreenStores (k : Kernel) : List Nat :=
  Screen.clearStores ++
    if k.shellFlag = 1 then
      ((k.screen.clear.setScreenX 0).setScreenY 0).putsStores (bytes "391OS> ")
    else []

def typeKeyStores (k : Kernel) (idx : Nat) : List Nat :=
  match k.keyboard.keyMap with
  | none => []
  | some map => k.screen.putcStores (map.getD idx 0)

section Kb

variable {k : Kernel}

theorem getScreen_eq {s : Screen} (h : s.OnScreen) :
    s.getScreenX = s.screenX ∧ s.getScreenY = s.screenY := by
  obtain ⟨hx, hy⟩ := h
  unfold Screen.getScreenX Screen.getScreenY
  simp only [numCols, numRows] at hx hy
  omega

theorem pressEnterStores_lt : ∀ o ∈ pressEnterStores k, o < textBytes := by
  intro o ho
  unfold pressEnterStores at ho
  split at ho
  · exact (Screen.mem_scrollDownStores.mp ho).2
  · exact absurd ho List.not_mem_nil

theorem pressBackspaceStores_lt (h : k.screen.OnScreen) :
    ∀ o ∈ pressBackspaceStores k, o < textBytes := by
  obtain ⟨hgetx, hgety⟩ := getScreen_eq h
  obtain ⟨hx, hy⟩ := h
  intro o ho
  unfold pressBackspaceStores at ho
  dsimp only at ho
  rw [hgetx, hgety] at ho
  simp only [textBytes, numCols, numRows] at *
  split at ho
  · rw [List.mem_singleton] at ho
    omega
  · split at ho
    · rw [List.mem_singleton] at ho
      omega
    · exact absurd ho List.not_mem_nil

theorem clearScreenStores_lt : ∀ o ∈ clearScreenStores k, o < textBytes := by
  intro o ho
  rcases List.mem_append.mp ho with ho | ho
  · exact Screen.mem_clearStores.mp ho
  · split at ho
    · exact Screen.putsStores_lt ⟨Nat.zero_lt_succ 79, Nat.zero_lt_succ 24⟩ _ o ho
    · exact absurd ho List.not_mem_nil

theorem typeKeyStores_lt (h : k.screen.OnScreen) (idx : Nat) :
    ∀ o ∈ typeKeyStores k idx, o < textBytes := by
  intro o ho
  unfold typeKeyStores at ho
  split at ho
  · exact absurd ho List.not_mem_nil
  · exact Screen.putcStores_lt h _ o ho

theorem pressEnter_unstored {o : Nat} (ho : o ∉ pressEnterStores k) :
    (pressEnter k).screen.videoMem o = k.screen.videoMem o := by
  unfold pressEnterStores at ho
  unfold pressEnter
  dsimp only
  split <;> rename_i hlast
  · rw [if_pos hlast] at ho
    exact Screen.scrollDown_unstored ho
  · rfl

theorem pressBackspace_unstored {o : Nat} (ho : o ∉ pressBackspaceStores k) :
    (pressBackspace k).screen.videoMem o = k.screen.videoMem o := by
  unfold pressBackspaceStores at ho
  unfold pressBackspace
  dsimp only at ho ⊢
  split <;> rename_i hleft
  · rw [if_pos hleft] at ho
    exact Function.update_of_ne (fun he => ho (List.mem_singleton.mpr he)) _ _
  · rw [if_neg hleft] at ho
    split <;> rename_i hup
    · rw [if_pos hup] at ho
      exact Function.update_of_ne (fun he => ho (List.mem_singleton.mpr he)) _ _
    · rfl

theorem clearScreen_unstored {o : Nat} (ho : o ∉ clearScreenStores k) :
    (clearScreen k).screen.videoMem o = k.screen.videoMem o := by
  unfold clearScreenStores at ho
  rw [List.mem_append, not_or] at ho
  have hclear : k.screen.clear.videoMem o = k.screen.videoMem o := Screen.clear_unstored ho.1
  unfold clearScreen
  dsimp only
  split <;> rename_i hshell
  · rw [if_pos hshell] at ho
    rw [Screen.setScreenY_videoMem, Screen.setScreenX_videoMem, Screen.puts_unstored ho.2,
      Screen.setScreenY_videoMem, Screen.setScreenX_videoMem, hclear]
  · rw [Screen.setScreenY_videoMem, Screen.setScreenX_videoMem, hclear]

theorem typeKey_unstored {idx o : Nat} (ho : o ∉ typeKeyStores k idx) :
    (typeKey k idx).screen.videoMem o = k.screen.videoMem o := by
  unfold typeKeyStores at ho
  unfold typeKey
  cases hmap : k.keyboard.keyMap with
  | none => rfl
  | some map =>
    rw [hmap] at ho
    exact Screen.putc_unstored ho

end Kb

end LmaOS
