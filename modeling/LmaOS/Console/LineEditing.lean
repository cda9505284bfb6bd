import LmaOS.Console.KeyboardBuffer

/-
  Editing a line: the keyboard handler against a list editor.

  `Edit` is what a key does to the line in the editor's terms: it appends a character, drops the
  last one or empties the line. `LineEditor` runs `kb_intr` on one scancode after another and
  keeps the line next to it. `ReadsBack` says that Enter and `terminal_read` return the line.

  The handler clears bytes of `kb_buffer` by the cursor's column, and Ctrl+L clears none.
  `line_editing_iff`: after every key of a sequence the line reads back if and only if every
  character finds the index at the end of the line, every Backspace clears the last character's
  byte and none before it, and Ctrl+L is pressed on an empty line (`Follows`).
-/
namespace LmaOS

open Util

/-! ## The list editor -/

/-- What a key does to the line. -/
inductive Edit where
  | char (c : UInt8)
  | backspace
  | clear
  /-- A modifier, or the release of a key. -/
  | keep
  deriving DecidableEq

/-- A line holds at most 128 characters. -/
def Edit.apply (line : List UInt8) : Edit → List UInt8
  | .char c => if line.length < kbBufSize then line ++ [c] else line
  | .backspace => line.dropLast
  | .clear => []
  | .keep => line

/-- The edit a scancode stands for; none for Enter and for switches. -/
def editOf (k : Kernel) (idx : Nat) : Option Edit :=
  match keyAction k idx with
  | .type | .full => k.keyboard.keyMap.map fun map => .char (map.getD idx 0)
  | .backspace => some .backspace
  | .clear => some .clear
  | .modifier .. | .ignore => some .keep
  | .enter | .display _ => none

structure LineEditor where
  kernel : Kernel
  line : List UInt8

namespace LineEditor

def step (img : Image) (saved : Regs) (l : Locals) (s : LineEditor) (idx : Nat) : LineEditor :=
  ⟨(kbIntr img s.kernel saved l idx).1,
    match editOf s.kernel idx with
    | some e => e.apply s.line
    | none => s.line⟩

/-- `reset_keyboard`, and a prompt of any length. -/
def start (k : Kernel) (prompt : Buf) (nbytes : Nat) : LineEditor :=
  ⟨(terminalWrite { k with keyboard := k.keyboard.resetKeyboard } prompt nbytes).2, []⟩

/-- A key with a character, Backspace or Ctrl+L, or one that changes no line. -/
def Typed (s : LineEditor) (idx : Nat) : Prop :=
  match editOf s.kernel idx with
  | some (.char c) => c ≠ 0
  | some .clear => idx = 0x26
  | some .backspace | some .keep => True
  | none => False

instance (s : LineEditor) (idx : Nat) : Decidable (s.Typed idx) :=
  match h : editOf s.kernel idx with
  | some (.char c) => decidable_of_iff (c ≠ 0) (by unfold Typed; rw [h])
  | some .clear => decidable_of_iff (idx = 0x26) (by unfold Typed; rw [h])
  | some .backspace => isTrue (by unfold Typed; rw [h]; trivial)
  | some .keep => isTrue (by unfold Typed; rw [h]; trivial)
  | none => isFalse (by unfold Typed; rw [h]; exact not_false)

/-- Enter and a read of any size return the line, padded with NULs, and a newline. -/
def ReadsBack (img : Image) (saved : Regs) (l : Locals) (s : LineEditor) : Prop :=
  ∀ buf n, 1 ≤ n → ∃ r, terminalRead (kbIntr img s.kernel saved l 0x1C).1 buf n = some r ∧
    r.ret = (min n kbBufSize : Nat) ∧
    (∀ i, i + 1 < min n kbBufSize → r.buf i = s.line.getD i 0) ∧
    r.buf (min n kbBufSize - 1) = 0x0A

/-- The key finds the keyboard buffer as the list editor has it. -/
def Follows (s : LineEditor) (idx : Nat) : Prop :=
  match editOf s.kernel idx with
  | some (.char _) =>
    s.line.length < kbBufSize - 1 → s.kernel.keyboard.kbBufferIndex = s.line.length
  | some .backspace =>
    (0 < s.line.length → s.line.length < kbBufSize →
      s.line.length - 1 ∈ backspaceWrites s.kernel) ∧
      ∀ i ∈ backspaceWrites s.kernel, s.line.length - 1 ≤ i ∨ kbBufSize - 1 ≤ i
  | some .clear => s.line = []
  | some .keep | none => True

end LineEditor

/-! ## Lines as buffers -/

theorem ofList_append_apply (line : List UInt8) (c : UInt8) (i : Nat) :
    Buf.ofList (line ++ [c]) i = if i = line.length then c else Buf.ofList line i := by
  unfold Buf.ofList
  rcases Nat.lt_trichotomy i line.length with hlt | heq | hgt
  · rw [if_neg (by omega), List.getD_append _ _ _ _ hlt]
  · rw [if_pos heq, heq, List.getD_append_right _ _ _ _ (Nat.le_refl _), Nat.sub_self]
    rfl
  · rw [if_neg (by omega), List.getD_eq_default _ _ (by simp; omega),
      List.getD_eq_default _ _ (by omega)]

theorem ofList_dropLast_apply (line : List UInt8) (i : Nat) :
    Buf.ofList line.dropLast i = if i < line.length - 1 then Buf.ofList line i else 0 := by
  unfold Buf.ofList
  split <;> rename_i hi
  · rw [List.getD_eq_getElem _ _ (by rw [List.length_dropLast]; exact hi),
      List.getElem_dropLast, List.getD_eq_getElem]
  · rw [List.getD_eq_default _ _ (by rw [List.length_dropLast]; omega)]

/-! ## Reading back -/

/-- The part of the keyboard buffer a read returns is the line. -/
def Held (s : LineEditor) : Prop :=
  ∀ i, i < kbBufSize - 1 → s.kernel.keyboard.kbBuffer i = Buf.ofList s.line i

theorem readsBack_iff (img : Image) (saved : Regs) (l : Locals) (s : LineEditor) :
    s.ReadsBack img saved l ↔ Held s := by
  obtain ⟨screen, henter⟩ := pressEnter_eq s.kernel
  have hkey : (kbIntr img s.kernel saved l 0x1C).1 = pressEnter s.kernel := rfl
  have hread : ∀ buf n, 1 ≤ n → terminalRead (pressEnter s.kernel) buf n =
      some ⟨(min n kbBufSize : Nat),
        fun i => if i + 1 < min n kbBufSize then s.kernel.keyboard.kbBuffer i
          else if i + 1 = min n kbBufSize then 0x0A
          else if i = min n kbBufSize then 0 else buf i,
        { pressEnter s.kernel with
          keyboard := (pressEnter s.kernel).keyboard.resetKeyboard }⟩ := by
    intro buf n hn
    have hbuffer : (pressEnter s.kernel).keyboard.kbBuffer = s.kernel.keyboard.kbBuffer := by
      rw [henter]
    have hflag : (pressEnter s.kernel).keyboard.enterFlag = 1 := by rw [henter]
    rw [terminalRead_eq buf (by omega) hflag, hbuffer]
  unfold LineEditor.ReadsBack Held
  rw [hkey]
  constructor
  · intro h i hi
    obtain ⟨r, hr, _, hbytes, _⟩ := h (fun _ => 0) kbBufSize (by decide)
    have hbyte := hbytes i (by simp only [kbBufSize] at *; omega)
    rw [hread _ _ (by decide)] at hr
    obtain rfl := Option.some.inj hr
    dsimp only at hbyte
    rw [if_pos (by simp only [kbBufSize] at *; omega)] at hbyte
    exact hbyte
  · intro h buf n hn
    refine ⟨_, hread buf n hn, rfl, fun i hi => ?_, ?_⟩
    · dsimp only
      rw [if_pos hi]
      exact h i (by simp only [kbBufSize] at *; omega)
    · have hlast : min n kbBufSize - 1 + 1 = min n kbBufSize := by
        simp only [kbBufSize]
        omega
      dsimp only
      rw [if_neg (by omega), if_pos hlast]

/-! ## One key -/

section Keys

variable {k : Kernel} {idx : Nat} (img : Image) (saved : Regs) (l : Locals)

/-- A character is stored at the index, or refused when the index is past the buffer. -/
theorem kbIntr_char {c : UInt8} (h : editOf k idx = some (.char c)) :
    (k.keyboard.kbBufferIndex < kbBufSize ∧ (kbIntr img k saved l idx).1.keyboard =
        (k.keyboard.put k.keyboard.kbBufferIndex c).nextIndex) ∨
      (kbBufSize ≤ k.keyboard.kbBufferIndex ∧ (kbIntr img k saved l idx).1 = k) := by
  obtain ⟨hroom, hfull⟩ := keyAction_room k idx
  rw [kbIntr_eq]
  unfold editOf at h
  cases hact : keyAction k idx <;> rw [hact] at h hroom hfull
  case type =>
    refine Or.inl ⟨hroom rfl, ?_⟩
    obtain ⟨map, hmap, hchar⟩ := Option.map_eq_some_iff.mp h
    show (typeKey k idx).keyboard = _
    unfold typeKey
    rw [hmap, ← Edit.char.inj hchar]
  case full => exact Or.inr ⟨hfull rfl, rfl⟩
  all_goals cases h

theorem kbIntr_backspace (h : editOf k idx = some .backspace) :
    (kbIntr img k saved l idx).1 = pressBackspace k := by
  rw [kbIntr_eq]
  unfold editOf at h
  cases hact : keyAction k idx <;> rw [hact] at h
  case backspace => rfl
  case type | full =>
    obtain ⟨map, _, hchar⟩ := Option.map_eq_some_iff.mp h
    cases hchar
  all_goals cases h

/-- Ctrl+L leaves the bytes of the buffer alone. -/
theorem kbIntr_clear (h : editOf k idx = some .clear) :
    (kbIntr img k saved l idx).1.keyboard = { k.keyboard with kbBufferIndex := 0 } := by
  rw [kbIntr_eq]
  unfold editOf at h
  cases hact : keyAction k idx <;> rw [hact] at h
  case clear => rfl
  case type | full =>
    obtain ⟨map, _, hchar⟩ := Option.map_eq_some_iff.mp h
    cases hchar
  all_goals cases h

theorem kbIntr_keep (h : editOf k idx = some .keep) :
    (kbIntr img k saved l idx).1.keyboard.kbBuffer = k.keyboard.kbBuffer ∧
      (kbIntr img k saved l idx).1.keyboard.kbBufferIndex = k.keyboard.kbBufferIndex := by
  rw [kbIntr_eq]
  unfold editOf at h
  cases hact : keyAction k idx <;> rw [hact] at h
  case modifier => exact ⟨rfl, rfl⟩
  case ignore => exact ⟨rfl, rfl⟩
  case type | full =>
    obtain ⟨map, _, hchar⟩ := Option.map_eq_some_iff.mp h
    cases hchar
  all_goals cases h

/-- The listed bytes are cleared, the others stay. -/
theorem pressBackspace_apply (k : Kernel) (i : Nat) :
    (pressBackspace k).keyboard.kbBuffer i =
      if i ∈ backspaceWrites k then 0 else k.keyboard.kbBuffer i := by
  split <;> rename_i hi
  · unfold backspaceWrites at hi
    unfold pressBackspace
    dsimp only at hi ⊢
    split at hi <;> rename_i hleft
    · rw [if_pos hleft]
      show Function.update (Function.update _ _ _) k.keyboard.prevIndex.kbBufferIndex _ i = 0
      rw [Function.update_apply, Function.update_apply]
      rcases List.mem_cons.mp hi with hi | hi
      · rw [if_pos hi, ite_self]
      · rw [if_pos (List.mem_singleton.mp hi)]
    · rw [if_neg hleft]
      split at hi <;> rename_i hup
      · rw [if_pos hup]
        exact (congrArg _ (List.mem_singleton.mp hi)).trans (Function.update_self _ _ _)
      · exact absurd hi List.not_mem_nil
  · exact pressBackspace_frame hi

end Keys

/-! ## Keys and edits -/

/-- The line is in the buffer, and its index is where a full line leaves it. -/
structure Editing (s : LineEditor) : Prop where
  held : Held s
  text : 0 ∉ s.line
  size : s.line.length ≤ kbBufSize
  almost : s.line.length = kbBufSize - 1 →
    s.kernel.keyboard.kbBufferIndex = kbBufSize - 1 ∨ s.kernel.keyboard.kbBufferIndex = kbBufSize
  full : s.line.length = kbBufSize → s.kernel.keyboard.kbBufferIndex = kbBufSize

section Edits

variable {img : Image} {saved : Regs} {l : Locals} {s : LineEditor} {idx : Nat}

theorem step_line {e : Edit} (h : editOf s.kernel idx = some e) :
    (s.step img saved l idx).line = e.apply s.line := by
  unfold LineEditor.step
  dsimp only
  rw [h]

/-- A character of an unfinished line reaches its place if the index is there. -/
theorem Editing.char_held (h : Editing s) {c : UInt8} (hc : c ≠ 0)
    (hedit : editOf s.kernel idx = some (.char c)) (hroom : s.line.length < kbBufSize - 1) :
    Held (s.step img saved l idx) ↔ s.kernel.keyboard.kbBufferIndex = s.line.length := by
  have hline : (s.step img saved l idx).line = s.line ++ [c] :=
    (step_line hedit).trans (if_pos (Nat.lt_of_lt_of_le hroom (Nat.sub_le _ _)))
  have hkey := kbIntr_char img saved l hedit
  have hkernel : (s.step img saved l idx).kernel = (kbIntr img s.kernel saved l idx).1 := rfl
  rw [← hkernel] at hkey
  generalize s.step img saved l idx = s' at hline hkey ⊢
  have hempty : s.kernel.keyboard.kbBuffer s.line.length = 0 := by
    rw [h.held _ hroom]
    exact List.getD_eq_default _ _ (Nat.le_refl _)
  unfold Held
  rw [hline]
  constructor
  · intro hheld
    have hlast := hheld _ hroom
    rw [ofList_append_apply, if_pos rfl] at hlast
    by_contra hne
    rcases hkey with ⟨_, hstored⟩ | ⟨_, hsame⟩
    · have hother : s'.kernel.keyboard.kbBuffer s.line.length =
          s.kernel.keyboard.kbBuffer s.line.length := by
        rw [hstored]
        exact Function.update_of_ne (Ne.symm hne) _ _
      exact hc (hlast.symm.trans (hother.trans hempty))
    · rw [hsame, hempty] at hlast
      exact hc hlast.symm
  · intro hindex i hi
    rcases hkey with ⟨_, hstored⟩ | ⟨hfull, _⟩
    · rw [hstored, ofList_append_apply]
      show Function.update s.kernel.keyboard.kbBuffer s.kernel.keyboard.kbBufferIndex c i = _
      rw [Function.update_apply, hindex]
      split
      · rfl
      · exact h.held i hi
    · simp only [kbBufSize] at hfull hroom
      omega

/-- A character in an unfinished line. -/
theorem Editing.char_room (h : Editing s) {c : UInt8} (hc : c ≠ 0)
    (hedit : editOf s.kernel idx = some (.char c)) (hroom : s.line.length < kbBufSize - 1) :
    (Held (s.step img saved l idx) ↔ s.kernel.keyboard.kbBufferIndex = s.line.length) ∧
      (Held (s.step img saved l idx) → Editing (s.step img saved l idx)) := by
  have hheld : Held (s.step img saved l idx) ↔ _ := h.char_held hc hedit hroom
  have hline : (s.step img saved l idx).line = s.line ++ [c] :=
    (step_line hedit).trans (if_pos (Nat.lt_of_lt_of_le hroom (Nat.sub_le _ _)))
  have hkey := kbIntr_char img saved l hedit
  have hkernel : (s.step img saved l idx).kernel = (kbIntr img s.kernel saved l idx).1 := rfl
  rw [← hkernel] at hkey
  generalize s.step img saved l idx = s' at hline hkey hheld ⊢
  refine ⟨hheld, fun hafter => ?_⟩
  have hindex := hheld.mp hafter
  have hnext : s'.kernel.keyboard.kbBufferIndex = s.line.length + 1 := by
    simp only [kbBufSize] at hroom hkey
    rcases hkey with ⟨_, hstored⟩ | ⟨hfull, _⟩
    · rw [hstored]
      show (s.kernel.keyboard.kbBufferIndex + 1) % 256 = _
      omega
    · omega
  have hlen : s'.line.length = s.line.length + 1 := by
    rw [hline, List.length_append, List.length_singleton]
  refine ⟨hafter, ?_, ?_, fun he => Or.inl ?_, fun he => ?_⟩
  · rw [hline, List.mem_append, List.mem_singleton]
    exact fun hmem => hmem.elim h.text (Ne.symm hc)
  · simp only [kbBufSize] at *
    omega
  · rw [hnext, ← hlen, he]
  · rw [hnext, ← hlen, he]

/-- A character at the end of the buffer, stored last or refused. -/
theorem Editing.char_end (h : Editing s) {c : UInt8} (hc : c ≠ 0)
    (hedit : editOf s.kernel idx = some (.char c)) (hend : kbBufSize - 1 ≤ s.line.length) :
    Editing (s.step img saved l idx) := by
  have hsize := h.size
  have hline : (s.step img saved l idx).line =
      if s.line.length < kbBufSize then s.line ++ [c] else s.line := step_line hedit
  have hkey := kbIntr_char img saved l hedit
  have hkernel : (s.step img saved l idx).kernel = (kbIntr img s.kernel saved l idx).1 := rfl
  rw [← hkernel] at hkey
  generalize s.step img saved l idx = s' at hline hkey ⊢
  -- the index is 127 or 128, and 128 afterwards
  have hindex : s.kernel.keyboard.kbBufferIndex = kbBufSize - 1 ∨
      s.kernel.keyboard.kbBufferIndex = kbBufSize := by
    rcases Nat.lt_or_eq_of_le hsize with hlt | heq
    · exact h.almost (by simp only [kbBufSize] at *; omega)
    · exact Or.inr (h.full heq)
  have hnext : s'.kernel.keyboard.kbBufferIndex = kbBufSize := by
    simp only [kbBufSize] at hindex hkey ⊢
    rcases hkey with ⟨hroom, hstored⟩ | ⟨hfull, hsame⟩
    · rw [hstored]
      show (s.kernel.keyboard.kbBufferIndex + 1) % 256 = _
      omega
    · rw [hsame]
      omega
  have hlen : s'.line.length = kbBufSize := by
    rw [hline]
    simp only [kbBufSize] at *
    split
    · rw [List.length_append, List.length_singleton]
      omega
    · omega
  refine ⟨fun i hi => ?_, ?_, Nat.le_of_eq hlen, fun _ => Or.inr hnext, fun _ => hnext⟩
  · have hbyte : s'.kernel.keyboard.kbBuffer i = s.kernel.keyboard.kbBuffer i := by
      rcases hkey with ⟨_, hstored⟩ | ⟨_, hsame⟩
      · rw [hstored]
        refine Function.update_of_ne ?_ _ _
        simp only [kbBufSize] at *
        omega
      · rw [hsame]
    rw [hbyte, h.held i hi, hline]
    split
    · rw [ofList_append_apply, if_neg (by omega)]
    · rfl
  · rw [hline]
    split
    · rw [List.mem_append, List.mem_singleton]
      exact fun hmem => hmem.elim h.text (Ne.symm hc)
    · exact h.text

/-- Backspace drops the last character if its byte is cleared and no other one is. -/
theorem Editing.backspace_held (h : Editing s) (hedit : editOf s.kernel idx = some .backspace) :
    Held (s.step img saved l idx) ↔
      (0 < s.line.length → s.line.length < kbBufSize →
        s.line.length - 1 ∈ backspaceWrites s.kernel) ∧
        ∀ i ∈ backspaceWrites s.kernel, s.line.length - 1 ≤ i ∨ kbBufSize - 1 ≤ i := by
  have hline : (s.step img saved l idx).line = s.line.dropLast := step_line hedit
  have hkernel : (s.step img saved l idx).kernel = pressBackspace s.kernel :=
    kbIntr_backspace img saved l hedit
  unfold Held
  rw [hline, hkernel]
  constructor
  · intro hheld
    refine ⟨fun hpos hlt => ?_, fun i hi => ?_⟩
    · have hsmall : s.line.length - 1 < kbBufSize - 1 := by omega
      have hbyte := hheld _ hsmall
      rw [ofList_dropLast_apply, if_neg (Nat.lt_irrefl _), pressBackspace_apply] at hbyte
      by_contra hkept
      rw [if_neg hkept, h.held _ hsmall] at hbyte
      exact (Buf.ofList_ne_zero h.text).mpr (by omega) hbyte
    · by_contra hbefore
      rw [not_or] at hbefore
      have hbyte := hheld i (by omega)
      rw [pressBackspace_apply, if_pos hi, ofList_dropLast_apply, if_pos (by omega)] at hbyte
      exact (Buf.ofList_ne_zero h.text).mpr (by omega) hbyte.symm
  · rintro ⟨hlast, hothers⟩ i hi
    rw [pressBackspace_apply, ofList_dropLast_apply]
    split <;> rename_i hcleared
    · rw [if_neg]
      have hafter := hothers i hcleared
      omega
    · rw [h.held i hi]
      split
      · rfl
      · -- the byte of the last character would be cleared
        by_contra hne
        have hin := (Buf.ofList_ne_zero h.text).mp hne
        obtain rfl : i = s.line.length - 1 := by omega
        exact hcleared (hlast (by omega) (by omega))

theorem Editing.backspace (h : Editing s) (hedit : editOf s.kernel idx = some .backspace)
    (hheld : Held (s.step img saved l idx)) : Editing (s.step img saved l idx) := by
  have hline : (s.step img saved l idx).line = s.line.dropLast := step_line hedit
  have hkernel : (s.step img saved l idx).kernel = pressBackspace s.kernel :=
    kbIntr_backspace img saved l hedit
  generalize s.step img saved l idx = s' at hline hkernel hheld ⊢
  have hlen : s'.line.length = s.line.length - 1 := by rw [hline, List.length_dropLast]
  have hsize := h.size
  refine ⟨hheld, ?_, by omega, fun he => ?_, fun he => ?_⟩
  · rw [hline]
    exact fun hmem => h.text (List.dropLast_subset _ hmem)
  · have hfull := h.full (by simp only [kbBufSize] at *; omega)
    rw [hkernel]
    by_cases herases : Erases s.kernel
    · rw [(pressBackspace_of_erases herases).1, hfull]
      exact Or.inl (by decide)
    · rw [(pressBackspace_of_not_erases herases).1]
      exact Or.inr hfull
  · simp only [kbBufSize] at *
    omega

/-- Ctrl+L empties the line only if it is empty. -/
theorem Editing.clear (h : Editing s) (hedit : editOf s.kernel idx = some .clear) :
    (Held (s.step img saved l idx) ↔ s.line = []) ∧
      (Held (s.step img saved l idx) → Editing (s.step img saved l idx)) := by
  have hline : (s.step img saved l idx).line = [] := step_line hedit
  have hbuffer : (s.step img saved l idx).kernel.keyboard.kbBuffer =
      s.kernel.keyboard.kbBuffer := by
    show (kbIntr img s.kernel saved l idx).1.keyboard.kbBuffer = _
    rw [kbIntr_clear img saved l hedit]
  generalize s.step img saved l idx = s' at hline hbuffer ⊢
  constructor
  · unfold Held
    rw [hline, hbuffer]
    constructor
    · intro hheld
      by_contra hne
      have hbyte := hheld 0 (by decide)
      rw [h.held 0 (by decide)] at hbyte
      exact (Buf.ofList_ne_zero h.text).mpr (List.length_pos_iff.mpr hne) hbyte
    · intro hnil i hi
      rw [h.held i hi, hnil]
  · intro hheld
    have hlen : s'.line.length = 0 := by rw [hline]; rfl
    refine ⟨hheld, ?_, ?_, fun he => ?_, fun he => ?_⟩
    · rw [hline]
      exact List.not_mem_nil
    · rw [hlen]
      exact Nat.zero_le _
    · rw [hlen] at he
      exact absurd he (by decide)
    · rw [hlen] at he
      exact absurd he (by decide)

theorem Editing.keep (h : Editing s) (hedit : editOf s.kernel idx = some .keep) :
    Editing (s.step img saved l idx) := by
  have hline : (s.step img saved l idx).line = s.line := step_line hedit
  obtain ⟨hbuffer, hindex⟩ := kbIntr_keep img saved l hedit
  have hkernel : (s.step img saved l idx).kernel = (kbIntr img s.kernel saved l idx).1 := rfl
  rw [← hkernel] at hbuffer hindex
  generalize s.step img saved l idx = s' at hline hbuffer hindex ⊢
  refine ⟨fun i hi => ?_, ?_, ?_, fun he => ?_, fun he => ?_⟩
  · rw [hbuffer, hline]
    exact h.held i hi
  · rw [hline]
    exact h.text
  · rw [hline]
    exact h.size
  · rw [hline] at he
    rw [hindex]
    exact h.almost he
  · rw [hline] at he
    rw [hindex]
    exact h.full he

/-- What one key does. -/
theorem Editing.step_iff (h : Editing s) (htyped : s.Typed idx) :
    (Held (s.step img saved l idx) ↔ s.Follows idx) ∧
      (Held (s.step img saved l idx) → Editing (s.step img saved l idx)) := by
  unfold LineEditor.Typed at htyped
  unfold LineEditor.Follows
  cases hedit : editOf s.kernel idx with
  | none =>
    rw [hedit] at htyped
    exact htyped.elim
  | some e =>
    rw [hedit] at htyped
    cases e with
    | char c =>
      rcases Nat.lt_or_ge s.line.length (kbBufSize - 1) with hroom | hend
      · obtain ⟨hiff, hnext⟩ := h.char_room htyped hedit hroom
        exact ⟨hiff.trans ⟨fun hi _ => hi, fun hi => hi hroom⟩, hnext⟩
      · have hnext : Editing (s.step img saved l idx) := h.char_end htyped hedit hend
        exact ⟨iff_of_true hnext.held fun hlt => absurd hlt (Nat.not_lt_of_le hend),
          fun _ => hnext⟩
    | backspace => exact ⟨h.backspace_held hedit, h.backspace hedit⟩
    | clear => exact h.clear hedit
    | keep =>
      have hnext : Editing (s.step img saved l idx) := h.keep hedit
      exact ⟨iff_of_true hnext.held trivial, fun _ => hnext⟩

end Edits

/-! ## Runs -/

theorem start_editing (k : Kernel) (prompt : Buf) (nbytes : Nat) :
    Editing (LineEditor.start k prompt nbytes) := by
  obtain ⟨screen, x, he⟩ :=
    terminalWrite_eq { k with keyboard := k.keyboard.resetKeyboard } prompt nbytes
  have hkernel : (LineEditor.start k prompt nbytes).kernel = _ := he
  refine ⟨fun i hi => ?_, List.not_mem_nil, Nat.zero_le _, fun he => ?_, fun he => ?_⟩
  · rw [hkernel]
    exact if_pos (Nat.lt_of_lt_of_le hi (Nat.sub_le _ _))
  · exact absurd he (by decide : ¬ (0 : Nat) = kbBufSize - 1)
  · exact absurd he (by decide : ¬ (0 : Nat) = kbBufSize)

/-- The line reads back after every key exactly if the keyboard buffer follows every edit. -/
theorem line_editing_iff (img : Image) (k : Kernel) (saved : Regs) (l : Locals) (prompt : Buf)
    (nbytes : Nat) (keys : List Nat)
    (htyped : Allowed (LineEditor.step img saved l) LineEditor.Typed
      (LineEditor.start k prompt nbytes) keys) :
    (LineEditor.start k prompt nbytes).ReadsBack img saved l ∧
      (Allowed (LineEditor.step img saved l)
          (fun s idx => (s.step img saved l idx).ReadsBack img saved l)
          (LineEditor.start k prompt nbytes) keys ↔
        Allowed (LineEditor.step img saved l) LineEditor.Follows
          (LineEditor.start k prompt nbytes) keys) := by
  have hstart := start_editing k prompt nbytes
  refine ⟨(readsBack_iff img saved l _).mpr hstart.held, ?_⟩
  refine htyped.congr_steps Editing (fun s idx h ht hread => ?_) (fun s idx h ht => ?_) hstart
  · exact (h.step_iff ht).2 ((readsBack_iff img saved l _).mp hread)
  · rw [readsBack_iff]
    exact (h.step_iff ht).1

/-- The shell behind its prompt. -/
def promptLine : LineEditor :=
  LineEditor.start (entry shellImage Kernel.loaded ⟨0, 0⟩ (Locals.zero ⟨0, 0⟩)).1
    (Buf.ofList (bytes "391OS> ")) 7

/-- "a" is typed, erased, and "b" typed. -/
theorem line_editing_iff_erased :
    promptLine.ReadsBack shellImage ⟨0, 0⟩ (Locals.zero ⟨0, 0⟩) ∧
      (Allowed (LineEditor.step shellImage ⟨0, 0⟩ (Locals.zero ⟨0, 0⟩))
          (fun s idx => (s.step shellImage ⟨0, 0⟩ (Locals.zero ⟨0, 0⟩) idx).ReadsBack shellImage
            ⟨0, 0⟩ (Locals.zero ⟨0, 0⟩)) promptLine [0x1E, 0x0E, 0x30] ↔
        Allowed (LineEditor.step shellImage ⟨0, 0⟩ (Locals.zero ⟨0, 0⟩)) LineEditor.Follows
          promptLine [0x1E, 0x0E, 0x30]) :=
  line_editing_iff shellImage _ ⟨0, 0⟩ (Locals.zero ⟨0, 0⟩) _ 7 [0x1E, 0x0E, 0x30] (by decide)

/-- "a" is typed and the line cleared with Ctrl+L: the read still returns it. -/
theorem clear_keeps_bytes : ¬ ∀ (img : Image) (k : Kernel) (saved : Regs) (l : Locals)
    (prompt : Buf) (nbytes : Nat) (keys : List Nat),
      Allowed (LineEditor.step img saved l) LineEditor.Typed
        (LineEditor.start k prompt nbytes) keys →
      (runFrom (LineEditor.step img saved l) (LineEditor.start k prompt nbytes) keys).ReadsBack img
        saved l := by
  intro hclaim
  have h := hclaim shellImage (entry shellImage Kernel.loaded ⟨0, 0⟩ (Locals.zero ⟨0, 0⟩)).1
    ⟨0, 0⟩ (Locals.zero ⟨0, 0⟩) (Buf.ofList (bytes "391OS> ")) 7 [0x1E, 0x1D, 0x26] (by decide)
  have hbyte := (readsBack_iff _ _ _ _).mp h 0 (by decide)
  revert hbyte
  decide

end LmaOS
