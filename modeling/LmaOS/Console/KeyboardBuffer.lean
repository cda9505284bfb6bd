import LmaOS.Console.Input
import LmaOS.Session.Shell

/-
  Safety of the keyboard buffer: its 8-bit index and its 128 bytes.

  `kbWrites` lists the indices at which one operation writes to `kb_buffer` (`kbStep_frame`: all
  other bytes stay). Nothing in the Backspace branches looks at the index. `keyboard_safe_iff`: a
  run from boot keeps the index in 0..128 and all writes inside the buffer if and only if every
  Backspace that erases something finds the index in 1..127. Such a run changes nothing behind the
  buffer (`kbRun_frame`).

  The index and the column drift apart: after the shell's prompt, Enter and Backspace take the
  index from 0 to 255 (`backspace_underflows`).
-/
namespace LmaOS

open Util

inductive KbOp where
  | scancode (saved : Regs) (l : Locals) (idx : Nat)
  | terminalWrite (buf : Buf) (nbytes : Nat)
  /-- `terminal_read` is called, or stops waiting. -/
  | terminalRead (buf : Buf) (nbytes : Nat)
  | switchTerminal (saved : Regs) (l : Locals) (tid : Fin 3)

def kbStep (img : Image) (k : Kernel) : KbOp → Kernel
  | .scancode saved l idx => (kbIntr img k saved l idx).1
  | .terminalWrite buf nbytes => (LmaOS.terminalWrite k buf nbytes).2
  | .terminalRead buf nbytes =>
    match LmaOS.terminalRead k buf nbytes with
    | some r => r.kernel
    | none => k
  | .switchTerminal saved l tid => (LmaOS.switchTerminal img k saved l tid).1

/-! ## The writes -/

/-- The indices the Backspace branches write at. -/
def backspaceWrites (k : Kernel) : List Nat :=
  let x := k.screen.getScreenX
  let y := k.screen.getScreenY
  let kb := k.keyboard
  if x ≠ 0 ∧ x ≠ kb.cursorX then [kb.kbBufferIndex, kb.prevIndex.kbBufferIndex]
  else if y ≠ 0 ∧ x ≠ kb.cursorX then [kb.kbBufferIndex]
  else []

def KeyAction.writes (k : Kernel) : KeyAction → List Nat
  | .backspace => backspaceWrites k
  | .type => if k.keyboard.keyMap = none then [] else [k.keyboard.kbBufferIndex]
  | .display _ => List.range kbBufSize
  | .modifier .. | .enter | .clear | .full | .ignore => []

/-- The indices an operation writes to `kb_buffer` at. -/
def kbWrites (k : Kernel) : KbOp → List Nat
  | .scancode _ _ idx => (keyAction k idx).writes k
  | .terminalWrite _ _ => []
  | .terminalRead _ nbytes =>
    if nbytes ≠ 0 ∧ k.keyboard.enterFlag = 1 then List.range kbBufSize else []
  | .switchTerminal _ _ _ => List.range kbBufSize

/-- Backspace erases a character. -/
def Erases (k : Kernel) : Prop :=
  k.screen.getScreenX ≠ k.keyboard.cursorX ∧
    (k.screen.getScreenX ≠ 0 ∨ k.screen.getScreenY ≠ 0)

/-- The index is in range before and after, the writes are inside the buffer, and Backspace on an
    empty line changes neither screen nor buffer. -/
structure KbSafe (img : Image) (k : Kernel) (op : KbOp) : Prop where
  before : k.keyboard.kbBufferIndex ≤ kbBufSize
  after : (kbStep img k op).keyboard.kbBufferIndex ≤ kbBufSize
  writes : ∀ i ∈ kbWrites k op, i < kbBufSize
  backspace : ∀ saved l, op = .scancode saved l 0x0E → k.keyboard.kbBufferIndex = 0 →
    (kbStep img k op).screen = k.screen ∧
      (kbStep img k op).keyboard.kbBuffer = k.keyboard.kbBuffer

/-- A Backspace that erases something has something to erase, and the buffer is not full. -/
def BackspaceFits (k : Kernel) : KbOp → Prop
  | .scancode _ _ idx =>
    idx = 0x0E → Erases k → 1 ≤ k.keyboard.kbBufferIndex ∧ k.keyboard.kbBufferIndex < kbBufSize
  | _ => True

/-! ## Backspace -/

theorem pressBackspace_of_not_erases {k : Kernel} (h : ¬ Erases k) :
    pressBackspace k = k ∧ backspaceWrites k = [] := by
  unfold Erases at h
  unfold pressBackspace backspaceWrites
  dsimp only
  rw [if_neg (by tauto), if_neg (by tauto), if_neg (by tauto), if_neg (by tauto)]
  exact ⟨rfl, rfl⟩

theorem pressBackspace_of_erases {k : Kernel} (h : Erases k) :
    (pressBackspace k).keyboard.kbBufferIndex = (k.keyboard.kbBufferIndex + 255) % 256 ∧
      k.keyboard.kbBufferIndex ∈ backspaceWrites k ∧
      ∀ i ∈ backspaceWrites k, i = k.keyboard.kbBufferIndex ∨
        i = (k.keyboard.kbBufferIndex + 255) % 256 := by
  obtain ⟨hstop, hcorner⟩ := h
  unfold pressBackspace backspaceWrites
  dsimp only
  by_cases hx : k.screen.getScreenX = 0
  · -- at the left edge: back to the row above
    have hy := hcorner.resolve_left (fun hne => hne hx)
    have hleft : ¬ (k.screen.getScreenX ≠ 0 ∧ k.screen.getScreenX ≠ k.keyboard.cursorX) :=
      fun hand => hand.1 hx
    rw [if_neg hleft, if_neg hleft, if_pos ⟨hy, hstop⟩, if_pos ⟨hy, hstop⟩]
    exact ⟨rfl, List.mem_cons_self, fun i hi => Or.inl (List.mem_singleton.mp hi)⟩
  · rw [if_pos ⟨hx, hstop⟩, if_pos ⟨hx, hstop⟩]
    refine ⟨rfl, List.mem_cons_self, fun i hi => ?_⟩
    rcases List.mem_cons.mp hi with hi | hi
    · exact Or.inl hi
    · exact Or.inr (List.mem_singleton.mp hi)

theorem pressBackspace_frame {k : Kernel} {i : Nat} (hi : i ∉ backspaceWrites k) :
    (pressBackspace k).keyboard.kbBuffer i = k.keyboard.kbBuffer i := by
  unfold pressBackspace
  unfold backspaceWrites at hi
  dsimp only at hi ⊢
  split <;> rename_i hleft
  · rw [if_pos hleft, List.mem_cons, List.mem_singleton, not_or] at hi
    show Function.update (Function.update _ _ _) k.keyboard.prevIndex.kbBufferIndex _ i = _
    rw [Function.update_of_ne hi.2, Function.update_of_ne hi.1]
  · rw [if_neg hleft] at hi
    split <;> rename_i hup
    · rw [if_pos hup, List.mem_singleton] at hi
      exact Function.update_of_ne hi _ _
    · rfl

/-! ## One operation -/

section KbStep

variable (img : Image) (k : Kernel)

theorem kbStep_scancode (saved : Regs) (l : Locals) (idx : Nat) :
    kbStep img k (.scancode saved l idx) = ((keyAction k idx).perform img k saved l idx).1 :=
  congrArg Prod.fst (kbIntr_eq img k saved l idx)

theorem terminalRead_completed (buf : Buf) {nbytes : Nat}
    (h : nbytes ≠ 0 ∧ k.keyboard.enterFlag = 1) :
    kbStep img k (.terminalRead buf nbytes) = { k with keyboard := k.keyboard.resetKeyboard } := by
  unfold kbStep
  dsimp only
  rw [terminalRead_eq buf h.1 h.2]

theorem terminalRead_waiting (buf : Buf) {nbytes : Nat}
    (h : ¬ (nbytes ≠ 0 ∧ k.keyboard.enterFlag = 1)) :
    kbStep img k (.terminalRead buf nbytes) = k := by
  unfold kbStep
  dsimp only
  by_cases hn : nbytes = 0
  · subst hn; rfl
  · rw [terminalRead_waits buf hn fun hflag => h ⟨hn, hflag⟩]

theorem pressEnter_eq : ∃ screen, pressEnter k = { k with
    screen := screen
    keyboard := { k.keyboard with enterFlag := 1, kbBufferIndex := 0 } } := by
  unfold pressEnter
  dsimp only
  split <;> exact ⟨_, rfl⟩

/-- Apart from the screen a printed text moves the stop column only. -/
theorem terminalWrite_eq (buf : Buf) (nbytes : Nat) : ∃ screen x,
    (LmaOS.terminalWrite k buf nbytes).2 =
      { k with screen := screen, keyboard := { k.keyboard with cursorX := x } } := by
  unfold LmaOS.terminalWrite
  split
  · exact ⟨k.screen, k.keyboard.cursorX, rfl⟩
  · exact ⟨_, _, rfl⟩

theorem switchTerminal_frame (saved : Regs) (l : Locals) (tid : Fin 3) {i : Nat}
    (hi : i ∉ List.range kbBufSize) :
    (LmaOS.switchTerminal img k saved l tid).1.keyboard.kbBuffer i = k.keyboard.kbBuffer i := by
  have hout : ¬ i < kbBufSize := fun h => hi (List.mem_range.mpr h)
  rw [(switchTerminal_displayed img k saved l tid).keyboard, displayed_keyboard]
  exact (if_neg hout).trans (if_neg hout)

/-- Every byte an operation changes is listed. -/
theorem kbStep_frame (op : KbOp) {i : Nat} (hi : i ∉ kbWrites k op) :
    (kbStep img k op).keyboard.kbBuffer i = k.keyboard.kbBuffer i := by
  cases op with
  | scancode saved l idx =>
    rw [kbStep_scancode]
    have hi : i ∉ (keyAction k idx).writes k := hi
    cases hact : keyAction k idx <;> rw [hact] at hi
    case backspace => exact pressBackspace_frame hi
    case type =>
      show (typeKey k idx).keyboard.kbBuffer i = _
      unfold typeKey
      cases hmap : k.keyboard.keyMap with
      | none => rfl
      | some map =>
        have hmem : i ∉ [k.keyboard.kbBufferIndex] := by
          simpa only [KeyAction.writes, hmap, reduceCtorEq, if_false] using hi
        exact Function.update_of_ne (fun h => hmem (List.mem_singleton.mpr h)) _ _
    case display tid => exact switchTerminal_frame img k saved l tid hi
    case enter =>
      obtain ⟨screen, he⟩ := pressEnter_eq k
      show (pressEnter k).keyboard.kbBuffer i = _
      rw [he]
    all_goals rfl
  | terminalWrite buf nbytes =>
    obtain ⟨screen, x, he⟩ := terminalWrite_eq k buf nbytes
    show (LmaOS.terminalWrite k buf nbytes).2.keyboard.kbBuffer i = _
    rw [he]
  | terminalRead buf nbytes =>
    by_cases h : nbytes ≠ 0 ∧ k.keyboard.enterFlag = 1
    · rw [terminalRead_completed img k buf h]
      have hi : i ∉ if nbytes ≠ 0 ∧ k.keyboard.enterFlag = 1 then List.range kbBufSize else [] := hi
      rw [if_pos h] at hi
      exact if_neg fun hlt => hi (List.mem_range.mpr hlt)
    · rw [terminalRead_waiting img k buf h]
  | switchTerminal saved l tid => exact switchTerminal_frame img k saved l tid hi

/-- An operation switches and keeps every typed input, or it leaves the other terminals alone. -/
theorem kbStep_input (op : KbOp) :
    (∀ u, (kbStep img k op).input u = k.input u) ∨
      (kbStep img k op).curTerm = k.curTerm ∧ (kbStep img k op).terminals = k.terminals := by
  cases op with
  | scancode saved l idx =>
    rw [kbStep_scancode]
    cases keyAction k idx
    case display tid => exact Or.inl fun u => switchTerminal_input img k saved l tid u
    case enter =>
      obtain ⟨screen, he⟩ := pressEnter_eq k
      show _ ∨ (pressEnter k).curTerm = _ ∧ (pressEnter k).terminals = _
      rw [he]
      exact Or.inr ⟨rfl, rfl⟩
    case backspace =>
      refine Or.inr ?_
      show (pressBackspace k).curTerm = _ ∧ (pressBackspace k).terminals = _
      unfold pressBackspace
      dsimp only
      split
      · exact ⟨rfl, rfl⟩
      · split <;> exact ⟨rfl, rfl⟩
    case type =>
      refine Or.inr ?_
      show (typeKey k idx).curTerm = _ ∧ (typeKey k idx).terminals = _
      unfold typeKey
      cases k.keyboard.keyMap <;> exact ⟨rfl, rfl⟩
    all_goals exact Or.inr ⟨rfl, rfl⟩
  | terminalWrite buf nbytes =>
    obtain ⟨screen, x, he⟩ := terminalWrite_eq k buf nbytes
    show _ ∨ (LmaOS.terminalWrite k buf nbytes).2.curTerm = _ ∧
      (LmaOS.terminalWrite k buf nbytes).2.terminals = _
    rw [he]
    exact Or.inr ⟨rfl, rfl⟩
  | terminalRead buf nbytes =>
    by_cases h : nbytes ≠ 0 ∧ k.keyboard.enterFlag = 1
    · rw [terminalRead_completed img k buf h]; exact Or.inr ⟨rfl, rfl⟩
    · rw [terminalRead_waiting img k buf h]; exact Or.inr ⟨rfl, rfl⟩
  | switchTerminal saved l tid => exact Or.inl fun u => switchTerminal_input img k saved l tid u

end KbStep

/-! ## Runs -/

/-- The index of every terminal, displayed or not, is in range. -/
def IndicesInRange (k : Kernel) : Prop := ∀ u, (k.input u).index ≤ kbBufSize

theorem IndicesInRange.index {k : Kernel} (h : IndicesInRange k) :
    k.keyboard.kbBufferIndex ≤ kbBufSize := by
  have hcur := h k.curTerm
  rwa [input_cur] at hcur

theorem IndicesInRange.step {img : Image} {k : Kernel} (h : IndicesInRange k) {op : KbOp}
    (hafter : (kbStep img k op).keyboard.kbBufferIndex ≤ kbBufSize) :
    IndicesInRange (kbStep img k op) := by
  intro u
  rcases kbStep_input img k op with hsame | ⟨hcur, hterm⟩
  · rw [hsame]
    exact h u
  · by_cases hu : u = k.curTerm
    · rw [hu, ← hcur, input_cur]
      exact hafter
    · rw [input_of_ne hcur hterm hu]
      exact h u

theorem IndicesInRange.switchTerminal {img : Image} {k : Kernel} (h : IndicesInRange k)
    (saved : Regs) (l : Locals) (tid : Fin 3) :
    (switchTerminal img k saved l tid).1.keyboard.kbBufferIndex ≤ kbBufSize := by
  have hcur := h (LmaOS.switchTerminal img k saved l tid).1.curTerm
  rwa [← switchTerminal_input img k saved l tid, input_cur] at hcur

/-- Whatever is not an erasing Backspace is safe. -/
theorem IndicesInRange.harmless {k : Kernel} (h : IndicesInRange k) (img : Image) {op : KbOp}
    (hop : ∀ saved l, op = .scancode saved l 0x0E → ¬ Erases k) :
    (kbStep img k op).keyboard.kbBufferIndex ≤ kbBufSize ∧ ∀ i ∈ kbWrites k op, i < kbBufSize := by
  have hindex := h.index
  cases op with
  | scancode saved l idx =>
    rw [kbStep_scancode]
    show _ ∧ ∀ i ∈ (keyAction k idx).writes k, i < kbBufSize
    cases hact : keyAction k idx
    case modifier => exact ⟨hindex, fun i hi => absurd hi List.not_mem_nil⟩
    case enter =>
      obtain ⟨screen, he⟩ := pressEnter_eq k
      refine ⟨?_, fun i hi => absurd hi List.not_mem_nil⟩
      show (pressEnter k).keyboard.kbBufferIndex ≤ _
      rw [he]
      exact Nat.zero_le _
    case backspace =>
      obtain rfl := (keyAction_backspace k idx).mp hact
      obtain ⟨hsame, hnone⟩ := pressBackspace_of_not_erases (hop saved l rfl)
      show (pressBackspace k).keyboard.kbBufferIndex ≤ _ ∧ ∀ i ∈ backspaceWrites k, _
      rw [hsame, hnone]
      exact ⟨hindex, fun i hi => absurd hi List.not_mem_nil⟩
    case display tid => exact ⟨h.switchTerminal saved l tid, fun i hi => List.mem_range.mp hi⟩
    case clear => exact ⟨Nat.zero_le _, fun i hi => absurd hi List.not_mem_nil⟩
    case type =>
      have hroom := (keyAction_room k idx).1 hact
      show (typeKey k idx).keyboard.kbBufferIndex ≤ _ ∧
        ∀ i ∈ if k.keyboard.keyMap = none then [] else [k.keyboard.kbBufferIndex], _
      unfold typeKey
      cases k.keyboard.keyMap with
      | none => exact ⟨hindex, fun i hi => absurd hi List.not_mem_nil⟩
      | some map =>
        refine ⟨?_, fun i hi => ?_⟩
        · show (k.keyboard.kbBufferIndex + 1) % 256 ≤ kbBufSize
          simp only [kbBufSize] at hroom ⊢
          omega
        · rw [if_neg (by simp), List.mem_singleton] at hi
          omega
    all_goals exact ⟨hindex, fun i hi => absurd hi List.not_mem_nil⟩
  | terminalWrite buf nbytes =>
    obtain ⟨screen, x, he⟩ := terminalWrite_eq k buf nbytes
    refine ⟨?_, fun i hi => absurd hi List.not_mem_nil⟩
    show (LmaOS.terminalWrite k buf nbytes).2.keyboard.kbBufferIndex ≤ _
    rw [he]
    exact hindex
  | terminalRead buf nbytes =>
    show _ ∧ ∀ i ∈ if nbytes ≠ 0 ∧ k.keyboard.enterFlag = 1 then List.range kbBufSize else [], _
    by_cases hdone : nbytes ≠ 0 ∧ k.keyboard.enterFlag = 1
    · rw [terminalRead_completed img k buf hdone, if_pos hdone]
      exact ⟨Nat.zero_le _, fun i hi => List.mem_range.mp hi⟩
    · rw [terminalRead_waiting img k buf hdone, if_neg hdone]
      exact ⟨hindex, fun i hi => absurd hi List.not_mem_nil⟩
  | switchTerminal saved l tid =>
    exact ⟨h.switchTerminal saved l tid, fun i hi => List.mem_range.mp hi⟩

theorem IndicesInRange.safe_iff {img : Image} {k : Kernel} (h : IndicesInRange k) (op : KbOp) :
    KbSafe img k op ↔ BackspaceFits k op := by
  by_cases herase : ∃ saved l, op = .scancode saved l 0x0E ∧ Erases k
  · obtain ⟨saved, l, rfl, herases⟩ := herase
    obtain ⟨hafter, hmem, hwrites⟩ := pressBackspace_of_erases herases
    have hindex := h.index
    simp only [kbBufSize] at hindex
    have hstep : kbStep img k (.scancode saved l 0x0E) = pressBackspace k := rfl
    have hlist : kbWrites k (.scancode saved l 0x0E) = backspaceWrites k := rfl
    constructor
    · intro hsafe _ _
      have hle := hsafe.after
      have hlt := hsafe.writes _ (hlist ▸ hmem)
      rw [hstep, hafter] at hle
      simp only [kbBufSize] at hle hlt ⊢
      omega
    · intro hfits
      obtain ⟨hlo, hhi⟩ := hfits rfl herases
      simp only [kbBufSize] at hhi
      refine ⟨h.index, ?_, fun i hi => ?_, fun _ _ _ hzero => ?_⟩
      · rw [hstep, hafter]
        simp only [kbBufSize]
        omega
      · rcases hwrites i (hlist ▸ hi) with rfl | rfl
        all_goals simp only [kbBufSize]; omega
      · omega
  · -- any other operation is safe, and the condition asks nothing of it
    have hop : ∀ saved l, op = .scancode saved l 0x0E → ¬ Erases k :=
      fun saved l he herases => herase ⟨saved, l, he, herases⟩
    obtain ⟨hafter, hwrites⟩ := h.harmless img hop
    refine iff_of_true ⟨h.index, hafter, hwrites, fun saved l he _ => ?_⟩ ?_
    · subst he
      have hsame : kbStep img k (.scancode saved l 0x0E) = k :=
        (pressBackspace_of_not_erases (hop saved l rfl)).1
      rw [hsame]
      exact ⟨rfl, rfl⟩
    · cases op with
      | scancode saved l idx =>
        exact fun hidx herases => absurd herases (hop saved l (by rw [hidx]))
      | _ => trivial

/-- A safe run leaves the memory behind the buffer alone. -/
theorem kbRun_frame {img : Image} {k : Kernel} {ops : List KbOp}
    (h : Allowed (kbStep img) (KbSafe img) k ops) {i : Nat} (hi : kbBufSize ≤ i) :
    (runFrom (kbStep img) k ops).keyboard.kbBuffer i = k.keyboard.kbBuffer i := by
  refine h.invariant (fun k' => k'.keyboard.kbBuffer i = k.keyboard.kbBuffer i)
    (fun _ op hkept hsafe => ?_) rfl
  have hout : i ∉ kbWrites _ op := fun hmem => Nat.not_lt_of_le hi (hsafe.writes i hmem)
  rw [kbStep_frame img _ op hout, hkept]

/-- A run from boot is safe exactly as long as Backspace finds something to erase in a buffer that
    is not full. -/
theorem keyboard_safe_iff (img : Image) {k : Kernel} (hk : k.keyboard.kbBufferIndex = 0)
    (saved : Regs) (l : Locals) (ops : List KbOp) :
    Allowed (kbStep img) (KbSafe img) (entry img k saved l).1 ops ↔
      Allowed (kbStep img) BackspaceFits (entry img k saved l).1 ops := by
  have hboot : IndicesInRange (entry img k saved l).1 := by
    intro u
    rw [entry_input, hk]
    split <;> exact Nat.zero_le _
  exact (allowed_true _ ops).congr_steps IndicesInRange
    (fun _ _ h _ hsafe => h.step hsafe.after) (fun _ op h _ => h.safe_iff op) hboot

/-- The prompt is printed, "a" typed and erased, and Enter pressed. -/
def promptRun : List KbOp :=
  [.terminalWrite (Buf.ofList (bytes "391OS> ")) 7, .scancode ⟨0, 0⟩ (Locals.zero ⟨0, 0⟩) 0x1E,
    .scancode ⟨0, 0⟩ (Locals.zero ⟨0, 0⟩) 0x0E, .scancode ⟨0, 0⟩ (Locals.zero ⟨0, 0⟩) 0x1C]

theorem keyboard_safe_iff_promptRun :
    Allowed (kbStep shellImage) (KbSafe shellImage)
        (entry shellImage Kernel.loaded ⟨0, 0⟩ (Locals.zero ⟨0, 0⟩)).1 promptRun ↔
      Allowed (kbStep shellImage) BackspaceFits
        (entry shellImage Kernel.loaded ⟨0, 0⟩ (Locals.zero ⟨0, 0⟩)).1 promptRun :=
  keyboard_safe_iff shellImage rfl ⟨0, 0⟩ (Locals.zero ⟨0, 0⟩) promptRun

/-- Enter moves the cursor to column 0, away from the stop column 7, and sets the index to 0. -/
theorem backspace_underflows : ¬ ∀ (img : Image) (k : Kernel), k.keyboard.kbBufferIndex = 0 →
    ∀ (saved : Regs) (l : Locals) (ops : List KbOp),
      Allowed (kbStep img) (KbSafe img) (entry img k saved l).1 ops := by
  intro hclaim
  have h := hclaim shellImage Kernel.loaded rfl ⟨0, 0⟩ (Locals.zero ⟨0, 0⟩)
    [.terminalWrite (Buf.ofList (bytes "391OS> ")) 7, .scancode ⟨0, 0⟩ (Locals.zero ⟨0, 0⟩) 0x1C,
      .scancode ⟨0, 0⟩ (Locals.zero ⟨0, 0⟩) 0x0E]
  have hafter := h.2.2.1.after
  revert hafter
  decide

end LmaOS
