import LmaOS.Console.Input
import LmaOS.Session.Shell

/-
  Terminal switching as three independent consoles.

  A `View` is what a user sees of a terminal and has typed there: the 4 KB page, the cursor, the
  keyboard buffer and its index. The displayed terminal's view is in the hardware page and the
  globals (`Kernel.live`), the other two in the backing pages and the terminal records
  (`Kernel.saved`). `Console` runs switches and arbitrary changes of the live view, and remembers
  every terminal's view as it was when it was last left.

  `switching_restores`: a terminal that is displayed again shows the view it was left with, and
  the saved views of the terminals not displayed never change. A terminal whose first shell could
  not be started is tried again at every display; if that fails again, the message is printed on
  top (`retry_prints`).
-/
namespace LmaOS

open Util

structure View where
  page : Buf
  x : Nat
  y : Nat
  kbBuffer : Buf
  kbIndex : Nat

/-- The view of the displayed terminal. -/
def Kernel.live (k : Kernel) : View where
  page := firstBytes entrySize k.screen.videoMem
  x := k.screen.screenX
  y := k.screen.screenY
  kbBuffer := firstBytes kbBufSize k.keyboard.kbBuffer
  kbIndex := k.keyboard.kbBufferIndex

/-- The saved view of terminal `u`. -/
def Kernel.saved (k : Kernel) (u : Fin 3) : View where
  page := firstBytes entrySize fun o => k.screen.videoMem ((u + 1) * entrySize + o)
  x := (k.terminals u).screenX
  y := (k.terminals u).screenY
  kbBuffer := firstBytes kbBufSize (k.terminals u).kbBuffer
  kbIndex := (k.terminals u).kbBufferIndex

/-- The cursor is on the screen and the index is a byte. -/
structure View.InRange (v : View) : Prop where
  x : v.x < numCols
  y : v.y < numRows
  kbIndex : v.kbIndex < 256

instance (v : View) : Decidable v.InRange :=
  decidable_of_iff (v.x < numCols ∧ v.y < numRows ∧ v.kbIndex < 256)
    ⟨fun ⟨hx, hy, hi⟩ => ⟨hx, hy, hi⟩, fun h => ⟨h.x, h.y, h.kbIndex⟩⟩

/-- All three views are in range. -/
def Kernel.ViewsInRange (k : Kernel) : Prop := k.live.InRange ∧ ∀ u, (k.saved u).InRange

instance (k : Kernel) : Decidable k.ViewsInRange :=
  inferInstanceAs (Decidable (k.live.InRange ∧ ∀ u, (k.saved u).InRange))

/-- The displayed terminal's view replaced by another. -/
def Kernel.change (k : Kernel) (v : View) : Kernel :=
  { k with
    screen := ⟨v.x, v.y, fun o => if o < entrySize then v.page o else k.screen.videoMem o⟩
    keyboard := { k.keyboard with
      kbBuffer := fun i => if i < kbBufSize then v.kbBuffer i else k.keyboard.kbBuffer i
      kbBufferIndex := v.kbIndex } }

/-- A text printed on a view. -/
def View.printed (v : View) (text : String) : View :=
  let s := (Screen.mk v.x v.y v.page).printf text
  { v with page := firstBytes entrySize s.videoMem, x := s.screenX, y := s.screenY }

inductive ConsoleOp where
  | switchTerminal (saved : Regs) (l : Locals) (tid : Fin 3)
  | change (v : View)

/-- The kernel and the view each terminal was last left with. -/
structure Console where
  kernel : Kernel
  left : Fin 3 → Option View

namespace Console

def step (img : Image) (s : Console) : ConsoleOp → Console
  | .switchTerminal saved l tid =>
    ⟨(LmaOS.switchTerminal img s.kernel saved l tid).1,
      Function.update s.left s.kernel.curTerm (some s.kernel.live)⟩
  | .change v => ⟨s.kernel.change v, s.left⟩

/-- Switches are to another terminal, changes keep the cursor on the screen. -/
def Issued (s : Console) : ConsoleOp → Prop
  | .switchTerminal _ _ tid => tid ≠ s.kernel.curTerm
  | .change v => v.InRange

instance (s : Console) (op : ConsoleOp) : Decidable (s.Issued op) :=
  match op with
  | .switchTerminal _ _ tid => inferInstanceAs (Decidable (tid ≠ s.kernel.curTerm))
  | .change v => inferInstanceAs (Decidable v.InRange)

end Console

/-- No operation changes the saved view of a terminal that is not displayed. -/
def KeepsSaved (img : Image) (s : Console) (op : ConsoleOp) : Prop :=
  ∀ u, u ≠ s.kernel.curTerm → (s.step img op).kernel.saved u = s.kernel.saved u

/-- A terminal displayed again shows what it was left with. -/
def Restores (img : Image) (s : Console) : ConsoleOp → Prop
  | .switchTerminal saved l tid => ∀ v, s.left tid = some v →
    (s.step img (.switchTerminal saved l tid)).kernel.live = v
  | .change _ => True

/-- The first shell of the terminal is still to be started and cannot be. -/
def FirstShellFails (img : Image) (k : Kernel) (saved : Regs) (l : Locals) (tid : Fin 3) : Prop :=
  (k.terminals tid).firstRun = true ∧ (switchTerminal img k saved l tid).2 = none

/-- The same, and if its first shell is still to be started and cannot be, with the message of
    `execute` on top. -/
def RestoresOrReports (img : Image) (s : Console) : ConsoleOp → Prop
  | .switchTerminal saved l tid => ∀ v, s.left tid = some v →
    (FirstShellFails img s.kernel saved l tid → ∃ message ∈ executeErrors,
      (s.step img (.switchTerminal saved l tid)).kernel.live = v.printed message) ∧
    (¬ FirstShellFails img s.kernel saved l tid →
      (s.step img (.switchTerminal saved l tid)).kernel.live = v)
  | .change _ => True

/-! ## Pages -/

/-- `memcpy` of a page: the destination page is the source page, the others stay. -/
theorem copyPage_apply (v : Buf) (dst src f o : Nat) (ho : o < entrySize) :
    copyPage v dst src (f * entrySize + o) =
      if f = dst then v (src * entrySize + o) else v (f * entrySize + o) := by
  unfold copyPage
  simp only [entrySize] at *
  by_cases hf : f = dst
  · subst hf
    rw [if_pos (by omega), if_pos rfl]
    congr 1
    omega
  · rw [if_neg (by omega), if_neg hf]

section Switch

variable {k : Kernel} (saved : Regs) {tid : Fin 3}

theorem displayed_videoMem (htid : tid ≠ k.curTerm) (f o : Nat) (ho : o < entrySize) :
    (displayed k saved tid).screen.videoMem (f * entrySize + o) =
      if f = 0 then k.screen.videoMem ((tid + 1) * entrySize + o)
      else if f = k.curTerm + 1 then k.screen.videoMem o
      else k.screen.videoMem (f * entrySize + o) := by
  have hne : (tid : Nat) + 1 ≠ k.curTerm + 1 := fun h => htid (Fin.ext (by omega))
  have hmem : (displayed k saved tid).screen.videoMem =
      copyPage (copyPage k.screen.videoMem (k.curTerm + 1) 0) 0 (tid + 1) := rfl
  rw [hmem, copyPage_apply _ _ _ _ _ ho, copyPage_apply _ _ _ _ _ ho,
    copyPage_apply _ _ _ _ _ ho, if_neg hne, Nat.zero_mul, Nat.zero_add]

/-- The terminal that is left is saved, the others stay as they are. -/
theorem displayed_saved (htid : tid ≠ k.curTerm) (hlive : k.live.InRange) (u : Fin 3) :
    (displayed k saved tid).saved u = if u = k.curTerm then k.live else k.saved u := by
  have hpage : ((displayed k saved tid).saved u).page =
      if u = k.curTerm then k.live.page else (k.saved u).page := by
    have hu : ((u : Nat) + 1 = k.curTerm + 1) ↔ u = k.curTerm :=
      ⟨fun h => Fin.ext (by omega), fun h => by rw [h]⟩
    split <;> rename_i h
    · refine firstBytes_congr fun o ho => ?_
      rw [displayed_videoMem saved htid _ _ ho, if_neg (by omega), if_pos (hu.mpr h)]
    · refine firstBytes_congr fun o ho => ?_
      rw [displayed_videoMem saved htid _ _ ho, if_neg (by omega), if_neg (fun he => h (hu.mp he))]
  have hx := hlive.x
  have hy := hlive.y
  simp only [Kernel.live, numCols, numRows] at hx hy
  unfold Kernel.saved at hpage ⊢
  rw [View.mk.injEq]
  dsimp only at hpage
  rw [hpage, displayed_terminals]
  split <;> rename_i h
  · refine ⟨rfl, Nat.mod_eq_of_lt (by omega), Nat.mod_eq_of_lt (by omega), ?_, rfl⟩
    exact firstBytes_congr fun i hi => if_pos hi
  · exact ⟨rfl, rfl, rfl, rfl, rfl⟩

/-- The terminal that is displayed is restored. -/
theorem displayed_live (htid : tid ≠ k.curTerm) (hsaved : (k.saved tid).InRange) :
    (displayed k saved tid).live = k.saved tid := by
  have hx := hsaved.x
  have hy := hsaved.y
  simp only [Kernel.saved, numCols, numRows] at hx hy
  have hterm : (saveTerminal k saved tid).terminals tid = k.terminals tid := by
    have := displayed_terminals k saved tid tid
    rw [if_neg htid] at this
    exact this
  unfold Kernel.live Kernel.saved
  rw [View.mk.injEq]
  refine ⟨firstBytes_congr fun o ho => ?_, ?_, ?_, firstBytes_congr fun i hi => ?_, ?_⟩
  · have := displayed_videoMem saved htid 0 o ho
    rwa [Nat.zero_mul, Nat.zero_add, if_pos rfl] at this
  · show ((saveTerminal k saved tid).terminals tid).screenX % 256 % 256 = _
    rw [hterm, Nat.mod_mod, Nat.mod_eq_of_lt (by omega)]
  · show ((saveTerminal k saved tid).terminals tid).screenY % 256 % 256 = _
    rw [hterm, Nat.mod_mod, Nat.mod_eq_of_lt (by omega)]
  · show (if i < kbBufSize then (((saveTerminal k saved tid).terminals tid).kbBuffer i) else _) = _
    rw [if_pos hi, hterm]
  · show ((saveTerminal k saved tid).terminals tid).kbBufferIndex = _
    rw [hterm]

end Switch

/-! ## The first shell -/

/-- A new process leaves every view alone. -/
theorem startProcess_saved (k : Kernel) (regs : Regs) (pid : Int) (name arg : List UInt8)
    (fileData : Buf) (nbytes : Nat) (u : Fin 3) :
    (startProcess k regs pid name arg fileData nbytes).saved u = k.saved u := by
  obtain ⟨proc, hterm⟩ := newTerminals_apply k pid u
  have hterminals : (startProcess k regs pid name arg fileData nbytes).terminals =
      k.newTerminals pid := rfl
  unfold Kernel.saved
  rw [hterminals, hterm]
  split
  · subst u; rfl
  · rfl

/-- A text printed on the displayed terminal. -/
theorem printf_live (k : Kernel) (message : String) :
    (k.printf message).live = k.live.printed message := by
  have hpage : Screen.SamePage ⟨k.live.x, k.live.y, k.live.page⟩ k.screen :=
    ⟨rfl, rfl, fun o ho => (if_pos ho).symm⟩
  have hputs := hpage.puts (bytes message)
  unfold View.printed
  rw [View.mk.injEq]
  exact ⟨firstBytes_congr hputs.page, hputs.screenX, hputs.screenY, rfl, rfl⟩

theorem printf_saved {k : Kernel} (hlive : k.live.InRange) (message : String) (u : Fin 3) :
    (k.printf message).saved u = k.saved u := by
  have hprinted := Screen.puts_printed ⟨hlive.x, hlive.y⟩ (bytes message)
  unfold Kernel.saved
  rw [View.mk.injEq]
  refine ⟨firstBytes_congr fun o _ => hprinted.frame _ ?_, rfl, rfl, rfl, rfl⟩
  simp only [entrySize]
  omega

theorem printf_inRange {k : Kernel} (hlive : k.live.InRange) (message : String) :
    (k.printf message).live.InRange := by
  have hprinted := Screen.puts_printed ⟨hlive.x, hlive.y⟩ (bytes message)
  exact ⟨hprinted.onScreen.1, hprinted.onScreen.2, hlive.kbIndex⟩

/-- A failing `execute` prints its message on the displayed terminal, any other leaves the views
    alone. -/
theorem execute_views (img : Image) {k : Kernel} (l : Locals) (command : Option CString)
    (hlive : k.live.InRange) :
    (execute img k l command).1.live.InRange ∧
      (∀ u, (execute img k l command).1.saved u = k.saved u) ∧
      ((execute img k l command).2 = none → ∃ message ∈ executeErrors,
        (execute img k l command).1.live = k.live.printed message) ∧
      ((execute img k l command).2 ≠ none → (execute img k l command).1.live = k.live) := by
  rcases execute_cases img k l command with ⟨message, hm, states, _, he⟩ |
    ⟨cmd, name, arg, fileData, nbytes, _, _, _, _, he⟩
  · rw [he]
    exact ⟨printf_inRange hlive message, printf_saved hlive message,
      fun _ => ⟨message, hm, printf_live k message⟩, fun hne => absurd rfl hne⟩
  · rw [he]
    exact ⟨hlive, fun u => startProcess_saved k.claimed l.regs _ name arg fileData nbytes u,
      fun hnone => absurd hnone (Option.some_ne_none _), fun _ => rfl⟩

/-- What one switch does to the views. -/
theorem switchTerminal_views (img : Image) {k : Kernel} (saved : Regs) (l : Locals) {tid : Fin 3}
    (htid : tid ≠ k.curTerm) (hk : k.ViewsInRange) :
    (switchTerminal img k saved l tid).1.live.InRange ∧
      (∀ u, (switchTerminal img k saved l tid).1.saved u =
        if u = k.curTerm then k.live else k.saved u) ∧
      (FirstShellFails img k saved l tid → ∃ message ∈ executeErrors,
        (switchTerminal img k saved l tid).1.live = (k.saved tid).printed message) ∧
      (¬ FirstShellFails img k saved l tid →
        (switchTerminal img k saved l tid).1.live = k.saved tid) := by
  have hshown := displayed_live saved htid (hk.2 tid)
  have hrange : (displayed k saved tid).live.InRange := by
    rw [hshown]
    exact hk.2 tid
  have hkept := displayed_saved saved htid hk.1
  have hfirst : (displayed k saved tid).term.firstRun = (k.terminals tid).firstRun := by
    show ((displayed k saved tid).terminals tid).firstRun = _
    rw [displayed_terminals, if_neg htid]
  unfold FirstShellFails
  rw [switchTerminal_eq, hfirst]
  by_cases hrun : (k.terminals tid).firstRun = true
  · -- the terminal has no first shell yet
    obtain ⟨hlive, hsaved, hfails, hstarts⟩ := execute_views img l (some shellCommand) hrange
    rw [if_pos hrun, ← hshown]
    exact ⟨hlive, fun u => (hsaved u).trans (hkept u), fun h => hfails h.2,
      fun h => hstarts fun hnone => h ⟨hrun, hnone⟩⟩
  · rw [if_neg hrun]
    exact ⟨hrange, hkept, fun h => absurd h.1 hrun, fun _ => hshown⟩

/-! ## Runs -/

/-- The views are in range, and a terminal that is not displayed is saved as it was left. -/
structure Console.Inv (s : Console) : Prop where
  views : s.kernel.ViewsInRange
  left : ∀ u, u ≠ s.kernel.curTerm → ∀ v, s.left u = some v → s.kernel.saved u = v

theorem change_live {k : Kernel} (v : View) : (k.change v).live.InRange ↔ v.InRange :=
  ⟨fun h => ⟨h.x, h.y, h.kbIndex⟩, fun h => ⟨h.x, h.y, h.kbIndex⟩⟩

theorem change_saved (k : Kernel) (v : View) (u : Fin 3) : (k.change v).saved u = k.saved u := by
  unfold Kernel.saved
  rw [View.mk.injEq]
  refine ⟨firstBytes_congr fun o _ => if_neg ?_, rfl, rfl, rfl, rfl⟩
  simp only [entrySize]
  omega

theorem Console.Inv.step {img : Image} {s : Console} (h : s.Inv) {op : ConsoleOp}
    (hop : s.Issued op) : (s.step img op).Inv := by
  cases op with
  | switchTerminal saved l tid =>
    obtain ⟨hlive, hsaved, _⟩ := switchTerminal_views img saved l hop h.views
    have hcur := switchTerminal_curTerm img s.kernel saved l tid
    refine ⟨⟨hlive, fun u => ?_⟩, fun u hu v hv => ?_⟩
    · show ((LmaOS.switchTerminal img s.kernel saved l tid).1.saved u).InRange
      rw [hsaved]
      split
      · exact h.views.1
      · exact h.views.2 u
    · show (LmaOS.switchTerminal img s.kernel saved l tid).1.saved u = v
      rw [hsaved]
      have hv : Function.update s.left s.kernel.curTerm (some s.kernel.live) u = some v := hv
      rw [Function.update_apply] at hv
      split <;> rename_i huc
      · rw [if_pos huc] at hv
        exact Option.some.inj hv
      · rw [if_neg huc] at hv
        exact h.left u huc v hv
  | change v =>
    refine ⟨⟨(change_live v).mpr hop, fun u => ?_⟩, fun u hu w hw => ?_⟩
    · show ((s.kernel.change v).saved u).InRange
      rw [change_saved]
      exact h.views.2 u
    · show (s.kernel.change v).saved u = w
      rw [change_saved]
      exact h.left u hu w hw

theorem Console.Inv.keepsSaved {img : Image} {s : Console} (h : s.Inv) {op : ConsoleOp}
    (hop : s.Issued op) : KeepsSaved img s op := by
  intro u hu
  cases op with
  | switchTerminal saved l tid =>
    obtain ⟨_, hsaved, _⟩ := switchTerminal_views img saved l hop h.views
    exact (hsaved u).trans (if_neg hu)
  | change v => exact change_saved s.kernel v u

theorem Console.Inv.restores {img : Image} {s : Console} (h : s.Inv) {op : ConsoleOp}
    (hop : s.Issued op) : RestoresOrReports img s op := by
  cases op with
  | switchTerminal saved l tid =>
    intro v hv
    obtain ⟨_, _, hview⟩ := switchTerminal_views img saved l hop h.views
    rw [h.left tid hop v hv] at hview
    exact hview
  | change v => trivial

/-- The three terminals are independent, over every run of switches and changes from any state
    with its views in range. -/
theorem switching_restores (img : Image) {k : Kernel} (hk : k.ViewsInRange)
    {ops : List ConsoleOp}
    (hrun : Allowed (Console.step img) Console.Issued ⟨k, fun _ => none⟩ ops) :
    Allowed (Console.step img) (fun s op => RestoresOrReports img s op ∧ KeepsSaved img s op)
      ⟨k, fun _ => none⟩ ops :=
  hrun.steps Console.Inv (fun _ _ h hop => h.step hop)
    (fun _ _ h hop => ⟨h.restores hop, h.keepsSaved hop⟩)
    ⟨hk, fun _ _ _ hv => by cases hv⟩

/-- Something is typed on terminal 0, and it is left and displayed again. -/
def awayAndBack : List ConsoleOp :=
  [.change ⟨fun _ => 0x41, 3, 7, fun _ => 0x61, 5⟩,
    .switchTerminal ⟨0, 0⟩ (Locals.zero ⟨0, 0⟩) terminalC,
    .change ⟨fun _ => 0x42, 79, 24, fun _ => 0x62, 128⟩,
    .switchTerminal ⟨0, 0⟩ (Locals.zero ⟨0, 0⟩) terminalA]

theorem switching_restores_awayAndBack :
    Allowed (Console.step shellImage)
      (fun s op => RestoresOrReports shellImage s op ∧ KeepsSaved shellImage s op)
      ⟨(boot shellImage Kernel.loaded ⟨0, 0⟩ (Locals.zero ⟨0, 0⟩)).kernel, fun _ => none⟩
      awayAndBack :=
  switching_restores shellImage (by decide) (by decide)

/-- Four processes on terminal 0 and two on terminal 1: no slot is free. -/
def crowd : List Op :=
  [.execute (Locals.zero ⟨0, 0⟩) (some shellCommand),
    .execute (Locals.zero ⟨0, 0⟩) (some shellCommand),
    .execute (Locals.zero ⟨0, 0⟩) (some shellCommand),
    .switchTerminal ⟨0, 0⟩ (Locals.zero ⟨0, 0⟩) terminalB,
    .execute (Locals.zero ⟨0, 0⟩) (some shellCommand)]

/-- Terminal 2 gets no shell. When it is displayed again, its shell is tried again, and the second
    message moves the cursor from row 1 to row 2. -/
theorem retry_prints : ¬ ∀ (img : Image) (index : Nat), HasShell img index → ∀ ops : List Op,
    Allowed (Sys.step img) Sys.Proper (boot img Kernel.loaded ⟨0, 0⟩ (Locals.zero ⟨0, 0⟩)) ops →
      ∀ cops : List ConsoleOp, Allowed (Console.step img) Console.Issued
          ⟨(runFrom (Sys.step img) (boot img Kernel.loaded ⟨0, 0⟩ (Locals.zero ⟨0, 0⟩)) ops).kernel,
            fun _ => none⟩ cops →
        Allowed (Console.step img) (Restores img)
          ⟨(runFrom (Sys.step img) (boot img Kernel.loaded ⟨0, 0⟩ (Locals.zero ⟨0, 0⟩)) ops).kernel,
            fun _ => none⟩ cops := by
  intro hclaim
  have h := hclaim shellImage 0 shellImage_hasShell crowd (by decide +kernel)
    [.switchTerminal ⟨0, 0⟩ (Locals.zero ⟨0, 0⟩) terminalC,
      .switchTerminal ⟨0, 0⟩ (Locals.zero ⟨0, 0⟩) terminalA,
      .switchTerminal ⟨0, 0⟩ (Locals.zero ⟨0, 0⟩) terminalC] (by decide +kernel)
  have hrow := congrArg View.y (h.2.2.1 _ rfl)
  revert hrow
  decide +kernel

end LmaOS
