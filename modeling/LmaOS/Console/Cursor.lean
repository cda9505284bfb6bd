import LmaOS.Console.VideoStores

/-
  The cursor and the video memory over whole runs.

  `ScreenOp` is whatever moves the cursor: text printed by `putc`, `puts` or `printf`,
  `terminal_write`, scancodes and switches of terminals. `screenStores` lists the video memory
  offsets such an operation stores to, the messages of `execute` included; only the two page
  copies of a switch are not listed (`shownMemory` is the memory after them).

  `cursor_and_stores`: in every run from boot the cursor stays on the screen, the live one and the
  three saved ones, and all stores go to the 80 × 25 cells of the displayed page.
-/
namespace LmaOS

open Util

inductive ScreenOp where
  /-- The text `putc`, `puts` or `printf` prints. -/
  | print (text : List UInt8)
  | kb (op : KbOp)

def screenStep (img : Image) (k : Kernel) : ScreenOp → Kernel
  | .print text => { k with screen := k.screen.puts text }
  | .kb op => kbStep img k op

/-- The live cursor and the saved ones are on the screen. -/
def CursorsInRange (k : Kernel) : Prop :=
  k.screen.OnScreen ∧
    ∀ u, (k.terminals u).screenX < numCols ∧ (k.terminals u).screenY < numRows

/-! ## Stores -/

/-- The message of a failing `execute`, nothing if it starts a process. -/
def executeMessage (img : Image) (k : Kernel) (l : Locals) (command : Option CString) : String :=
  match command with
  | none => "execute error: command error\n"
  | some cmd =>
    if cmd.chars = [] then "execute error: command error\n"
    else if k.allActive then "execute: no available process(es)\n"
    else if k.term.numProc > 3 then "execute: no available process(es)\n"
    else
      match parse cmd with
      | none => "execute error: filename too long\n"
      | some (fname, _) =>
        let d := readDentryByName img (Buf.ofList fname) l.dentry
        if d.1 = -1 then "execute error: file not found\n"
        else if strncmp (readData img d.2.inodeNum 0 l.fileData img.lenInodes).2 exeIdentifier 4 ≠ 0
          then "execute error: file not an executable\n"
        else ""

/-- The stores of a switch behind its page copies: the message of a first shell that cannot be
    started. -/
def switchStores (img : Image) (k : Kernel) (saved : Regs) (l : Locals) (tid : Fin 3) : List Nat :=
  let k := displayed k saved tid
  if k.term.firstRun then
    k.screen.putsStores (bytes (executeMessage img k l (some shellCommand)))
  else []

def KeyAction.stores (img : Image) (k : Kernel) (saved : Regs) (l : Locals) (idx : Nat) :
    KeyAction → List Nat
  | .enter => pressEnterStores k
  | .backspace => pressBackspaceStores k
  | .display tid => switchStores img k saved l tid
  | .clear => clearScreenStores k
  | .type => typeKeyStores k idx
  | .modifier .. | .full | .ignore => []

def screenStores (img : Image) (k : Kernel) : ScreenOp → List Nat
  | .print text => k.screen.putsStores text
  | .kb (.scancode saved l idx) => (keyAction k idx).stores img k saved l idx
  | .kb (.terminalWrite buf nbytes) => k.screen.putsStores (buf.take nbytes)
  | .kb (.terminalRead _ _) => []
  | .kb (.switchTerminal saved l tid) => switchStores img k saved l tid

/-- The video memory the listed stores start from: behind the page copies of a switch. -/
def KeyAction.shown (k : Kernel) (saved : Regs) : KeyAction → Buf
  | .display tid => (displayed k saved tid).screen.videoMem
  | .modifier .. | .enter | .backspace | .clear | .full | .type | .ignore => k.screen.videoMem

def shownMemory (k : Kernel) : ScreenOp → Buf
  | .kb (.scancode saved _ idx) => (keyAction k idx).shown k saved
  | .kb (.switchTerminal saved _ tid) => (displayed k saved tid).screen.videoMem
  | .print _ | .kb (.terminalWrite _ _) | .kb (.terminalRead _ _) => k.screen.videoMem

/-- The cursors stay in range, the stores go to the text page, and no other byte changes. -/
structure StaysOnScreen (img : Image) (k : Kernel) (op : ScreenOp) : Prop where
  cursors : CursorsInRange (screenStep img k op)
  stores : ∀ o ∈ screenStores img k op, o < textBytes
  frame : ∀ o, o ∉ screenStores img k op →
    (screenStep img k op).screen.videoMem o = shownMemory k op o

/-! ## execute -/

/-- `execute` prints its message and changes no other byte of the video memory. -/
theorem execute_screen (img : Image) (k : Kernel) (l : Locals) (command : Option CString) :
    (execute img k l command).1.screen =
      k.screen.puts (bytes (executeMessage img k l command)) := by
  have hactive : ({ k with shellFlag := 1 } : Kernel).allActive = k.allActive := rfl
  unfold execute executeMessage
  dsimp only
  cases command with
  | none => rfl
  | some cmd =>
    dsimp only
    rw [hactive]
    split
    · rfl
    · split
      · rfl
      · split
        · rfl
        · cases parse cmd with
          | none => rfl
          | some parsed =>
            dsimp only
            split
            · rfl
            · split <;> rfl

theorem execute_cursors (img : Image) {k : Kernel} (h : CursorsInRange k) (l : Locals)
    (command : Option CString) : CursorsInRange (execute img k l command).1 := by
  refine ⟨?_, fun u => ?_⟩
  · rw [execute_screen]
    exact (Screen.puts_printed h.1 _).onScreen
  · rcases execute_cases img k l command with ⟨message, _, states, _, he⟩ |
      ⟨cmd, name, arg, fileData, nbytes, _, _, _, _, he⟩
    · rw [he]
      exact h.2 u
    · obtain ⟨proc, hterm⟩ := newTerminals_apply k.claimed k.freePid u
      have hterminals : (startProcess k.claimed l.regs k.freePid name arg fileData
          nbytes).terminals = k.claimed.newTerminals k.freePid := rfl
      rw [he]
      dsimp only
      rw [hterminals, hterm]
      split
      · exact h.2 k.curTerm
      · exact h.2 u

/-! ## Switches -/

section Switch

variable {k : Kernel} (saved : Regs) (tid : Fin 3)

theorem displayed_cursors (h : CursorsInRange k) : CursorsInRange (displayed k saved tid) := by
  obtain ⟨hgetx, hgety⟩ := getScreen_eq h.1
  have hrecord : ∀ u, ((displayed k saved tid).terminals u).screenX < numCols ∧
      ((displayed k saved tid).terminals u).screenY < numRows := by
    intro u
    rw [displayed_terminals]
    split
    · exact ⟨hgetx.symm ▸ h.1.1, hgety.symm ▸ h.1.2⟩
    · exact h.2 u
  obtain ⟨hx, hy⟩ := hrecord tid
  refine ⟨⟨?_, ?_⟩, hrecord⟩
  · show ((displayed k saved tid).terminals tid).screenX % 256 % 256 < numCols
    exact Nat.lt_of_le_of_lt (Nat.le_trans (Nat.mod_le _ _) (Nat.mod_le _ _)) hx
  · show ((displayed k saved tid).terminals tid).screenY % 256 % 256 < numRows
    exact Nat.lt_of_le_of_lt (Nat.le_trans (Nat.mod_le _ _) (Nat.mod_le _ _)) hy

/-- A switch prints at most the message of its first shell. -/
theorem switchTerminal_stays (img : Image) (h : CursorsInRange k) (l : Locals) :
    CursorsInRange (switchTerminal img k saved l tid).1 ∧
      (∀ o ∈ switchStores img k saved l tid, o < textBytes) ∧
      ∀ o, o ∉ switchStores img k saved l tid →
        (switchTerminal img k saved l tid).1.screen.videoMem o =
          (displayed k saved tid).screen.videoMem o := by
  have hshown := displayed_cursors saved tid h
  rw [switchTerminal_eq]
  unfold switchStores
  dsimp only
  by_cases hrun : (displayed k saved tid).term.firstRun = true
  · rw [if_pos hrun, if_pos hrun]
    refine ⟨execute_cursors img hshown l _, Screen.putsStores_lt hshown.1 _, fun o ho => ?_⟩
    rw [execute_screen]
    exact Screen.puts_unstored ho
  · rw [if_neg hrun, if_neg hrun]
    exact ⟨hshown, fun o ho => absurd ho List.not_mem_nil, fun _ _ => rfl⟩

end Switch

/-! ## Keys -/

section Keys

variable {k : Kernel}

theorem CursorsInRange.screen {k' : Kernel} (h : CursorsInRange k)
    (hterm : k'.terminals = k.terminals) (hscreen : k'.screen.OnScreen) : CursorsInRange k' :=
  ⟨hscreen, by rw [hterm]; exact h.2⟩

theorem pressEnter_onScreen (h : k.screen.OnScreen) : (pressEnter k).screen.OnScreen := by
  obtain ⟨_, hgety⟩ := getScreen_eq h
  obtain ⟨_, hy⟩ := h
  unfold pressEnter
  dsimp only
  rw [hgety]
  simp only [numRows] at hy ⊢
  split
  · exact ⟨Nat.zero_lt_succ 79, hy⟩
  · refine ⟨Nat.zero_lt_succ 79, ?_⟩
    show (k.screen.screenY + 1) % 256 < 25
    omega

theorem pressBackspace_onScreen (h : k.screen.OnScreen) : (pressBackspace k).screen.OnScreen := by
  obtain ⟨hgetx, hgety⟩ := getScreen_eq h
  obtain ⟨hx, hy⟩ := h
  unfold pressBackspace
  dsimp only
  rw [hgetx, hgety]
  simp only [numCols, numRows] at hx hy
  split
  · refine ⟨?_, hy⟩
    show (k.screen.screenX - 1) % 256 < 80
    omega
  · split
    · refine ⟨(by decide : 79 % 256 < 80), ?_⟩
      show (k.screen.screenY - 1) % 256 < 25
      omega
    · exact ⟨hx, hy⟩

theorem pressBackspace_terminals : (pressBackspace k).terminals = k.terminals := by
  unfold pressBackspace
  dsimp only
  split
  · rfl
  · split <;> rfl

theorem clearScreen_onScreen : (clearScreen k).screen.OnScreen := by
  unfold clearScreen
  dsimp only
  split
  · exact ⟨(by decide : 7 % 256 < 80), (by decide : 0 % 256 < 25)⟩
  · exact ⟨(by decide : 0 % 256 < 80), (by decide : 0 % 256 < 25)⟩

theorem typeKey_cursors (h : CursorsInRange k) (idx : Nat) : CursorsInRange (typeKey k idx) := by
  unfold typeKey
  cases k.keyboard.keyMap with
  | none => exact h
  | some map => exact ⟨(Screen.putc_printed h.1 _).onScreen, h.2⟩

end Keys

/-- One key, whatever it does. -/
theorem keyAction_stays (img : Image) {k : Kernel} (h : CursorsInRange k) (saved : Regs)
    (l : Locals) (idx : Nat) (act : KeyAction) :
    CursorsInRange (act.perform img k saved l idx).1 ∧
      (∀ o ∈ act.stores img k saved l idx, o < textBytes) ∧
      ∀ o, o ∉ act.stores img k saved l idx →
        (act.perform img k saved l idx).1.screen.videoMem o = act.shown k saved o := by
  cases act with
  | enter =>
    obtain ⟨screen, he⟩ := pressEnter_eq k
    have hterm : (pressEnter k).terminals = k.terminals := by rw [he]
    exact ⟨h.screen hterm (pressEnter_onScreen h.1), pressEnterStores_lt,
      fun o ho => pressEnter_unstored ho⟩
  | backspace =>
    exact ⟨h.screen pressBackspace_terminals (pressBackspace_onScreen h.1),
      pressBackspaceStores_lt h.1, fun o ho => pressBackspace_unstored ho⟩
  | display tid => exact switchTerminal_stays saved tid img h l
  | clear =>
    exact ⟨h.screen rfl clearScreen_onScreen, clearScreenStores_lt,
      fun o ho => clearScreen_unstored ho⟩
  | type =>
    exact ⟨typeKey_cursors h idx, typeKeyStores_lt h.1 idx, fun o ho => typeKey_unstored ho⟩
  | modifier => exact ⟨h, fun o ho => absurd ho List.not_mem_nil, fun _ _ => rfl⟩
  | full => exact ⟨h, fun o ho => absurd ho List.not_mem_nil, fun _ _ => rfl⟩
  | ignore => exact ⟨h, fun o ho => absurd ho List.not_mem_nil, fun _ _ => rfl⟩

/-! ## Runs -/

theorem CursorsInRange.print {k : Kernel} (h : CursorsInRange k) (text : List UInt8) :
    CursorsInRange { k with screen := k.screen.puts text } :=
  ⟨(Screen.puts_printed h.1 text).onScreen, h.2⟩

theorem CursorsInRange.stays {k : Kernel} (h : CursorsInRange k) (img : Image) (op : ScreenOp) :
    StaysOnScreen img k op := by
  cases op with
  | print text =>
    exact ⟨h.print text, Screen.putsStores_lt h.1 text, fun o ho => Screen.puts_unstored ho⟩
  | kb op =>
    cases op with
    | scancode saved l idx =>
      obtain ⟨hcursors, hstores, hframe⟩ := keyAction_stays img h saved l idx (keyAction k idx)
      have hstep : screenStep img k (.kb (.scancode saved l idx)) =
          ((keyAction k idx).perform img k saved l idx).1 := kbStep_scancode img k saved l idx
      exact ⟨by rw [hstep]; exact hcursors, hstores, by rw [hstep]; exact hframe⟩
    | terminalWrite buf nbytes =>
      by_cases hn : nbytes = 0
      · subst hn
        exact ⟨h, fun o ho => absurd ho List.not_mem_nil, fun _ _ => rfl⟩
      · have hstep : screenStep img k (.kb (.terminalWrite buf nbytes)) =
            { k with
              screen := k.screen.puts (buf.take nbytes)
              keyboard := k.keyboard.setStopX (k.screen.puts (buf.take nbytes)).getScreenX } := by
          show (LmaOS.terminalWrite k buf nbytes).2 = _
          unfold LmaOS.terminalWrite
          rw [if_neg hn]
        exact ⟨by rw [hstep]; exact h.print _, Screen.putsStores_lt h.1 _,
          by rw [hstep]; exact fun o ho => Screen.puts_unstored ho⟩
    | terminalRead buf nbytes =>
      have hsame : (kbStep img k (.terminalRead buf nbytes)).screen = k.screen ∧
          (kbStep img k (.terminalRead buf nbytes)).terminals = k.terminals := by
        by_cases hdone : nbytes ≠ 0 ∧ k.keyboard.enterFlag = 1
        · rw [terminalRead_completed img k buf hdone]
          exact ⟨rfl, rfl⟩
        · rw [terminalRead_waiting img k buf hdone]
          exact ⟨rfl, rfl⟩
      refine ⟨h.screen hsame.2 ?_, fun o ho => absurd ho List.not_mem_nil, fun o _ => ?_⟩
      · show (kbStep img k _).screen.OnScreen
        rw [hsame.1]
        exact h.1
      · show (kbStep img k _).screen.videoMem o = _
        rw [hsame.1]
        rfl
    | switchTerminal saved l tid =>
      obtain ⟨hcursors, hstores, hframe⟩ := switchTerminal_stays saved tid img h l
      exact ⟨hcursors, hstores, hframe⟩

/-- The kernel when `entry` displays its first terminal. -/
def cleared (k : Kernel) : Kernel :=
  { terminalInit k with screen := (k.screen.clear.setScreenX 0).setScreenY 0 }

theorem cleared_cursors (k : Kernel) : CursorsInRange (cleared k) :=
  ⟨⟨Nat.zero_lt_succ 79, Nat.zero_lt_succ 24⟩,
    fun _ => ⟨Nat.zero_lt_succ 79, Nat.zero_lt_succ 24⟩⟩

/-- The cursor and the stores of every run from boot, those of the boot sequence included. -/
theorem cursor_and_stores (img : Image) (k : Kernel) (saved : Regs) (l : Locals)
    (ops : List ScreenOp) :
    (∀ o ∈ Screen.clearStores ++ switchStores img (cleared k) saved l terminalA, o < textBytes) ∧
      CursorsInRange (entry img k saved l).1 ∧
      Allowed (screenStep img) (StaysOnScreen img) (entry img k saved l).1 ops := by
  obtain ⟨hboot, hstores, _⟩ := switchTerminal_stays saved terminalA img (cleared_cursors k) l
  refine ⟨fun o ho => ?_, hboot, ?_⟩
  · rcases List.mem_append.mp ho with ho | ho
    · exact Screen.mem_clearStores.mp ho
    · exact hstores o ho
  · exact (allowed_true _ ops).steps CursorsInRange
      (fun _ op h _ => (h.stays img op).cursors) (fun _ op h _ => h.stays img op) hboot

end LmaOS
