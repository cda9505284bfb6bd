import LmaOS.KbIntr
import LmaOS.Session.Lifecycle

/-
  Typed input: what a scancode does to it, and that switching terminals keeps it.

  `keyAction` names what `kb_intr` does with a scancode (`kbIntr_eq`). `Kernel.input u` is what is
  typed on terminal `u`: keyboard.c's buffer and index if `u` is displayed, the saved ones in its
  record otherwise. A switch changes no terminal's typed input (`switchTerminal_input`) and clears
  the Enter flag.
-/
namespace LmaOS

open Util

/-! ## Scancodes -/

/-- What one scancode makes `kb_intr` do. -/
inductive KeyAction where
  /-- A modifier is pressed or released, or Caps Lock is pressed. -/
  | modifier (lshift rshift caps alt ctrl : Nat)
  | enter
  | backspace
  | display (tid : Fin 3)
  | clear
  /-- A key with a character, and no room for it in the buffer. -/
  | full
  | type
  | ignore

/-- The keys that are neither modifiers nor Enter nor Backspace. -/
def plainAction (k : Kernel) (idx : Nat) : KeyAction :=
  match (if k.keyboard.altFlag ≠ 0 then functionKey idx else none) with
  | some tid => if k.curTerm ≠ tid then .display tid else .ignore
  | none =>
    if idx < 88 then
      if k.keyboard.ctrlFlag ≠ 0 ∧ (idx = 0x26 ∨ idx = 0x2E) then .clear
      else if k.keyboard.kbBufferIndex ≥ kbBufSize then .full
      else .type
    else .ignore

def keyAction (k : Kernel) (idx : Nat) : KeyAction :=
  let kb := k.keyboard
  if idx = 0x2A then .modifier 1 kb.rshiftFlag kb.clFlag kb.altFlag kb.ctrlFlag
  else if idx = 0x36 then .modifier kb.lshiftFlag 1 kb.clFlag kb.altFlag kb.ctrlFlag
  else if idx = 0xAA then .modifier 0 kb.rshiftFlag kb.clFlag kb.altFlag kb.ctrlFlag
  else if idx = 0xB6 then .modifier kb.lshiftFlag 0 kb.clFlag kb.altFlag kb.ctrlFlag
  else if idx = 0x3A then
    .modifier kb.lshiftFlag kb.rshiftFlag (kb.clFlag ^^^ 1) kb.altFlag kb.ctrlFlag
  else if idx = 0x38 then .modifier kb.lshiftFlag kb.rshiftFlag kb.clFlag 1 kb.ctrlFlag
  else if idx = 0xB8 then .modifier kb.lshiftFlag kb.rshiftFlag kb.clFlag 0 kb.ctrlFlag
  else if idx = 0x1C then .enter
  else if idx = 0x1D then .modifier kb.lshiftFlag kb.rshiftFlag kb.clFlag kb.altFlag 1
  else if idx = 0x9D then .modifier kb.lshiftFlag kb.rshiftFlag kb.clFlag kb.altFlag 0
  else if idx = 0x0E then .backspace
  else plainAction k idx

/-- The interrupt with its action named. -/
def KeyAction.perform (img : Image) (k : Kernel) (saved : Regs) (l : Locals) (idx : Nat) :
    KeyAction → Kernel × Option Int
  | .modifier lshift rshift caps alt ctrl =>
    ({ k with keyboard := { k.keyboard with
        lshiftFlag := lshift, rshiftFlag := rshift, clFlag := caps, altFlag := alt,
        ctrlFlag := ctrl } }, none)
  | .enter => (pressEnter k, none)
  | .backspace => (pressBackspace k, none)
  | .display tid => switchTerminal img k saved l tid
  | .clear => (clearScreen k, none)
  | .type => (typeKey k idx, none)
  | .full | .ignore => (k, none)

section KbIntr

variable (img : Image) (k : Kernel) (saved : Regs) (l : Locals) (idx : Nat)

theorem plainAction_perform : (plainAction k idx).perform img k saved l idx =
    match (if k.keyboard.altFlag ≠ 0 then functionKey idx else none) with
    | some tid => if k.curTerm ≠ tid then switchTerminal img k saved l tid else (k, none)
    | none =>
      if idx < 88 then
        if k.keyboard.ctrlFlag ≠ 0 ∧ (idx = 0x26 ∨ idx = 0x2E) then (clearScreen k, none)
        else if k.keyboard.kbBufferIndex ≥ kbBufSize then (k, none)
        else (typeKey k idx, none)
      else (k, none) := by
  unfold plainAction
  generalize (if k.keyboard.altFlag ≠ 0 then functionKey idx else none) = key
  cases key <;> simp only [apply_ite (KeyAction.perform img k saved l idx)] <;> rfl

theorem plainAction_ne_backspace : plainAction k idx ≠ .backspace := by
  unfold plainAction
  generalize (if k.keyboard.altFlag ≠ 0 then functionKey idx else none) = key
  cases key <;> simp [ite_eq_iff]

theorem keyAction_backspace : keyAction k idx = .backspace ↔ idx = 0x0E := by
  constructor
  · intro h
    simp only [keyAction, ite_eq_iff, reduceCtorEq, and_false, false_or, plainAction_ne_backspace,
      and_true, or_false] at h
    exact h.2.2.2.2.2.2.2.2.2.2
  · rintro rfl
    rfl

/-- A character is stored only if there is room, and refused only if there is none. -/
theorem keyAction_room : (keyAction k idx = .type → k.keyboard.kbBufferIndex < kbBufSize) ∧
    (keyAction k idx = .full → kbBufSize ≤ k.keyboard.kbBufferIndex) := by
  have hplain : (plainAction k idx = .type → k.keyboard.kbBufferIndex < kbBufSize) ∧
      (plainAction k idx = .full → kbBufSize ≤ k.keyboard.kbBufferIndex) := by
    unfold plainAction
    generalize (if k.keyboard.altFlag ≠ 0 then functionKey idx else none) = key
    cases key <;> simp [ite_eq_iff]
  constructor
  all_goals
    intro h
    simp only [keyAction, ite_eq_iff, reduceCtorEq, and_false, false_or] at h
  · exact hplain.1 h.2.2.2.2.2.2.2.2.2.2.2
  · exact hplain.2 h.2.2.2.2.2.2.2.2.2.2.2

/-- `kb_intr` does what its action says. -/
theorem kbIntr_eq : kbIntr img k saved l idx = (keyAction k idx).perform img k saved l idx := by
  unfold kbIntr keyAction
  simp only [apply_ite (KeyAction.perform img k saved l idx), plainAction_perform]
  rfl

end KbIntr

/-! ## Typed input -/

/-- The first `n` bytes of a buffer. -/
def firstBytes (n : Nat) (b : Buf) : Buf := fun i => if i < n then b i else 0

theorem firstBytes_congr {n : Nat} {b b' : Buf} (h : ∀ i, i < n → b i = b' i) :
    firstBytes n b = firstBytes n b' := by
  funext i
  unfold firstBytes
  split
  · exact h i ‹_›
  · rfl

structure Input where
  buffer : Buf
  index : Nat

/-- What is typed on terminal `u`. -/
def Kernel.input (k : Kernel) (u : Fin 3) : Input :=
  if u = k.curTerm then ⟨firstBytes kbBufSize k.keyboard.kbBuffer, k.keyboard.kbBufferIndex⟩
  else ⟨firstBytes kbBufSize (k.terminals u).kbBuffer, (k.terminals u).kbBufferIndex⟩

theorem input_cur (k : Kernel) : k.input k.curTerm =
    ⟨firstBytes kbBufSize k.keyboard.kbBuffer, k.keyboard.kbBufferIndex⟩ := if_pos rfl

/-- The displayed terminal's input after a step that switches no terminal. -/
theorem input_displayed {k k' : Kernel} (hcur : k'.curTerm = k.curTerm) : k'.input k.curTerm =
    ⟨firstBytes kbBufSize k'.keyboard.kbBuffer, k'.keyboard.kbBufferIndex⟩ := if_pos hcur.symm

/-- A step that leaves the terminals alone changes the displayed terminal's input only. -/
theorem input_of_ne {k k' : Kernel} (hcur : k'.curTerm = k.curTerm)
    (hterm : k'.terminals = k.terminals) {u : Fin 3} (hu : u ≠ k.curTerm) :
    k'.input u = k.input u := by
  unfold Kernel.input
  rw [hcur, hterm, if_neg hu, if_neg hu]

/-- Same displayed terminal, same keyboard state and same saved inputs. -/
structure SameInputs (k k' : Kernel) : Prop where
  curTerm : k'.curTerm = k.curTerm
  keyboard : k'.keyboard = k.keyboard
  saved : ∀ u, (k'.terminals u).kbBuffer = (k.terminals u).kbBuffer ∧
    (k'.terminals u).kbBufferIndex = (k.terminals u).kbBufferIndex

theorem SameInputs.refl (k : Kernel) : SameInputs k k := ⟨rfl, rfl, fun _ => ⟨rfl, rfl⟩⟩

theorem SameInputs.input {k k' : Kernel} (h : SameInputs k k') (u : Fin 3) :
    k'.input u = k.input u := by
  obtain ⟨hbuf, hidx⟩ := h.saved u
  unfold Kernel.input
  rw [h.curTerm, h.keyboard, hbuf, hidx]

/-- `execute` does not touch what is typed. -/
theorem execute_sameInputs (img : Image) (k : Kernel) (l : Locals) (command : Option CString) :
    SameInputs k (execute img k l command).1 := by
  rcases execute_cases img k l command with ⟨message, _, states, _, he⟩ |
    ⟨cmd, name, arg, fileData, nbytes, _, _, _, _, he⟩
  · rw [he]
    exact ⟨rfl, rfl, fun _ => ⟨rfl, rfl⟩⟩
  · rw [he]
    refine ⟨rfl, rfl, fun u => ?_⟩
    obtain ⟨proc, hterm⟩ := newTerminals_apply k.claimed k.freePid u
    have hterminals : (startProcess k.claimed l.regs k.freePid name arg fileData nbytes).terminals =
        k.claimed.newTerminals k.freePid := rfl
    dsimp only
    rw [hterminals, hterm]
    split
    · subst u; exact ⟨rfl, rfl⟩
    · exact ⟨rfl, rfl⟩

/-! ## Switching -/

section Switch

variable (k : Kernel) (saved : Regs) (tid : Fin 3)

theorem displayed_terminals (u : Fin 3) : (displayed k saved tid).terminals u =
    if u = k.curTerm then { k.term with
      screenX := k.screen.getScreenX
      screenY := k.screen.getScreenY
      kbBuffer := k.keyboard.getKbBuffer k.term.kbBuffer
      kbBufferIndex := k.keyboard.getKbIndex } else k.terminals u := by
  show Function.update k.terminals k.curTerm _ u = _
  rw [Function.update_apply]

/-- The keyboard state after the switch: `tid`'s input, and no Enter. -/
theorem displayed_keyboard : (displayed k saved tid).keyboard =
    (k.keyboard.resetKeyboard.setKbBuffer
      ((displayed k saved tid).terminals tid).kbBuffer).setKbIndex
        ((displayed k saved tid).terminals tid).kbBufferIndex := rfl

theorem displayed_input (u : Fin 3) : (displayed k saved tid).input u = k.input u := by
  -- what the record of `u` holds after the switch is what is typed on `u`
  have hrecord : ∀ u, (⟨firstBytes kbBufSize ((displayed k saved tid).terminals u).kbBuffer,
      ((displayed k saved tid).terminals u).kbBufferIndex⟩ : Input) = k.input u := by
    intro u
    rw [displayed_terminals]
    unfold Kernel.input
    split
    · rw [Input.mk.injEq]
      exact ⟨firstBytes_congr fun i hi => if_pos hi, rfl⟩
    · rfl
  rw [← hrecord u]
  have hcur : (displayed k saved tid).curTerm = tid := rfl
  unfold Kernel.input
  rw [hcur]
  split
  · subst u
    rw [displayed_keyboard, Input.mk.injEq]
    exact ⟨firstBytes_congr fun i hi => if_pos hi, rfl⟩
  · rfl

end Switch

theorem switchTerminal_displayed (img : Image) (k : Kernel) (saved : Regs) (l : Locals)
    (tid : Fin 3) : SameInputs (displayed k saved tid) (switchTerminal img k saved l tid).1 := by
  rw [switchTerminal_eq]
  split
  · exact execute_sameInputs img _ l _
  · exact SameInputs.refl _

theorem switchTerminal_curTerm (img : Image) (k : Kernel) (saved : Regs) (l : Locals)
    (tid : Fin 3) : (switchTerminal img k saved l tid).1.curTerm = tid :=
  (switchTerminal_displayed img k saved l tid).curTerm

/-- What is typed on any terminal is the same before and after a switch. -/
theorem switchTerminal_input (img : Image) (k : Kernel) (saved : Regs) (l : Locals)
    (tid u : Fin 3) : (switchTerminal img k saved l tid).1.input u = k.input u :=
  ((switchTerminal_displayed img k saved l tid).input u).trans (displayed_input k saved tid u)

theorem switchTerminal_enterFlag (img : Image) (k : Kernel) (saved : Regs) (l : Locals)
    (tid : Fin 3) : (switchTerminal img k saved l tid).1.keyboard.enterFlag = 0 := by
  rw [(switchTerminal_displayed img k saved l tid).keyboard]
  rfl

/-- What is typed when the boot sequence is over: nothing on terminals 1 and 2, and on terminal 0
    what the keyboard state was loaded with. -/
theorem entry_input (img : Image) (k : Kernel) (saved : Regs) (l : Locals) (u : Fin 3) :
    (entry img k saved l).1.input u =
      if u = 0 then ⟨firstBytes kbBufSize k.keyboard.kbBuffer, k.keyboard.kbBufferIndex⟩
      else ⟨firstBytes kbBufSize (k.terminals u).kbBuffer, 0⟩ := by
  unfold entry
  rw [switchTerminal_input]
  rfl

end LmaOS
