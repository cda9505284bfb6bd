import Mathlib.Order.Interval.Finset.Nat
import LmaOS.Console.Cursor
import LmaOS.Exec.Executable
import LmaOS.Exec.Load
import LmaOS.Session.Arguments
import LmaOS.Session.Return
import LmaOS.User.Programs

/-
  A program that executes another one.

  `ece391Execute` is the call as its caller sees it: the kernel starts the process, the new
  process runs to its end, which is either an exception or the `ece391_halt` of `_start`
  (ece391syscall.S) with what `main` returns, and the caller goes on with the value `halt` gives
  it. What the machine code in a program page does is a parameter, `code`.

  * `World.Runs a p below`: process `p` runs, on the processes `below` it, in a system that
    refines the sessions `a`.
  * `program_runs`: the caller gets the status modulo 256, or 256 after an exception, and finds its
    own PCB, the slots and the sessions as before. Its descriptors 2 to 7 have to be closed: `halt`
    closes the files of the process below.
  * `cat_repeated`: `cat` leaves its file open in a slot that the next process gets. Six runs use
    up the descriptors, and from then on the file is not found.
-/
namespace LmaOS

open Util Sessions User

/-! ## What `execute` prints -/

/-- A message is printed only where no process is started. -/
theorem executeMessage_started {img : Image} {k : Kernel} {l : Locals} {cmd : CString} {pid : Int}
    (hstart : (execute img k l (some cmd)).2 = some pid) :
    executeMessage img k l (some cmd) = "" := by
  have hfailed : ∀ k' : Kernel, (k', (none : Option Int)).2 ≠ some pid :=
    fun _ => (Option.some_ne_none pid).symm
  revert hstart
  unfold execute executeMessage
  dsimp only
  split
  · exact fun hnone => absurd hnone (hfailed k)
  · split
    · exact fun hnone => absurd hnone (hfailed k)
    · rename_i hslots
      rw [if_neg (show ¬ k.allActive = true from hslots)]
      split
      · exact fun hnone => absurd hnone (hfailed k)
      · cases parse cmd with
        | none => exact fun hnone => absurd hnone (hfailed k)
        | some parsed =>
          dsimp only
          split
          · exact fun hnone => absurd hnone (hfailed k)
          · split
            · exact fun hnone => absurd hnone (hfailed k)
            · exact fun _ => rfl

/-! ## The call -/

/-- How a program ends: `main` returns, or an exception is raised, whose handler has the message. -/
inductive Ending where
  | returns (status : Int)
  | raises (message : String)

/-- The kernel's part of it. -/
def Ending.finish (e : Ending) (img : Image) (k : Kernel) (l : Locals) : Kernel × HaltResult :=
  match e with
  | returns status => halt img k l (UInt8.ofNat (word32 status))
  | raises message => raise message img k l

def Ending.text : Ending → List UInt8
  | returns _ => []
  | raises message => bytes message

/-- What the process below is told. -/
def Ending.value : Ending → Int
  | returns status => status % 256
  | raises _ => 256

namespace User

variable (m : Host) (code : Buf → Task World Ending)

/-- The end of a program: the value with which the process below goes on. A base shell has none. -/
def ece391Finish (e : Ending) : Task World Int :=
  Task.of fun w =>
    match e.finish m.img (m.enter w) (m.before w).locals with
    | (k, .resumed _ _ value) => some ((value : Int), ⟨k, w.calls + 1, w.printed ++ e.text⟩)
    | (_, .inactive) | (_, .restarted _) => none

/-- `ece391_execute`, with all that happens before it returns. -/
def ece391Execute (command : Buf) : Task World Int := do
  let started ← Task.of fun w =>
    let k := m.enter w
    let l := (m.before w).locals
    let r := execute m.img k l (some (cstring command))
    some (r.2, ⟨r.1, w.calls + 1,
      w.printed ++ bytes (executeMessage m.img k l (some (cstring command)))⟩)
  match started with
  | none => pure (-1)
  | some pid => do
    let page ← Task.of fun w => some (w.kernel.programPage pid, w)
    let e ← code page
    ece391Finish m e

end User

/-! ## The closing loop over open files -/

/-- Where the process `close` finds has no file open, a round of the loop only takes the table
    pointer away. -/
theorem closeStep_below {pid : Int} {k : Kernel} (hclosed : k.FilesClosed (getPcbAddress k))
    {i : Nat} (hi : i < 8) : closeStep pid k i = k.setPcb pid { k.pcbs pid with
      file := Function.update (k.pcbs pid).file i { (k.pcbs pid).file i with
        fileOp := .doNothing } } := by
  have hskip : (if i > 1 ∧ ((k.pcbs pid).file i).flags = 1 then (close k i).2 else k) = k := by
    split
    · rename_i hopen
      have hflags : ((k.pcbs (getPcbAddress k)).file i).flags ≠ 1 := by
        rw [hclosed i hi hopen.1]
        exact Nat.zero_ne_one
      unfold close
      rw [if_neg (by omega), Int.toNat_natCast]
      dsimp only
      rw [if_pos hflags]
    · rfl
  unfold closeStep
  rw [hskip]

theorem closeSteps_below {pid : Int} (is : List Nat) (his : ∀ i ∈ is, i < 8) {k : Kernel}
    (hclosed : k.FilesClosed (getPcbAddress k)) (hne : getPcbAddress k ≠ pid) :
    FlagsKept pid k (is.foldl (closeStep pid) k) := by
  induction is generalizing k with
  | nil => exact ⟨fun _ _ => rfl, fun _ => rfl⟩
  | cons i is ih =>
    have hstep : closeStep pid k i = _ := closeStep_below hclosed (his i List.mem_cons_self)
    have hone : FlagsKept pid k (closeStep pid k i) := by
      rw [hstep]
      refine ⟨fun q hq => Function.update_of_ne hq _ _, fun j => ?_⟩
      dsimp only [Kernel.setPcb]
      rw [Function.update_self]
      dsimp only
      rw [Function.update_apply]
      split
      · subst j
        rfl
      · rfl
    have haddr : getPcbAddress (closeStep pid k i) = getPcbAddress k := by
      rw [hstep]
      rfl
    have hrest := ih (fun j hj => his j (List.mem_cons_of_mem i hj))
      (k := closeStep pid k i) (by rw [haddr]; exact hone.filesClosed hclosed) (by rwa [haddr])
    exact ⟨fun q hq => (hrest.1 q hq).trans (hone.1 q hq),
      fun j => (hrest.2 j).trans (hone.2 j)⟩

/-- A process above one without open files leaves its descriptors' flags as they are. -/
theorem Refines.haltClosed_below {k : Kernel} {a : Sessions} (h : Refines k a) {pid p : Int}
    {below : List Int} (hcur : a.current = pid :: p :: below) (hclosed : k.FilesClosed p) :
    FlagsKept pid k (LmaOS.haltClosed k pid) := by
  have haddr : LmaOS.getPcbAddress (haltUnlink (haltEnter k) (k.pcbs pid)) = p :=
    (h.unlinked hcur).getPcbAddress (current_finish hcur)
  have hne : p ≠ pid := fun he => h.not_mem_below hcur (he ▸ List.mem_cons_self)
  have hbelow : (haltUnlink (haltEnter k) (k.pcbs pid)).FilesClosed p := by
    intro i hi hi'
    rw [unlinked_pcbs]
    exact hclosed i hi hi'
  have hsteps : FlagsKept pid _ (LmaOS.haltClosed k pid) :=
    closeSteps_below (List.range 8) (fun i hi => List.mem_range.mp hi) (by rwa [haddr])
      (by rwa [haddr])
  unfold FlagsKept at hsteps
  rw [unlinked_pcbs] at hsteps
  exact hsteps

/-! ## A running process -/

/-- Process `p` runs on the displayed terminal, with the processes `below` under it. -/
structure World.Runs (w : World) (a : Sessions) (p : Int) (below : List Int) : Prop where
  refines : Refines w.kernel a
  current : a.current = p :: below
  quiet : w.kernel.exceptionStatus = 0

/-- What is left of a program that ran in the slot `pid`: the flags of its descriptors. -/
structure World.Returned (w w' : World) (pid : Int) (files : Nat → Fd) : Prop where
  others : ∀ q, q ≠ pid → w'.kernel.pcbs q = w.kernel.pcbs q
  flags : ∀ i, ((w'.kernel.pcbs pid).file i).flags = (files i).flags
  slots : w'.kernel.processState = w.kernel.processState

section Runs

variable {m : Host} {code : Buf → Task World Ending} {w : World} {a : Sessions} {p : Int}
  {below : List Int}

theorem World.Runs.entered (h : w.Runs a p below) : Refines (m.enter w) a :=
  h.refines.same (sameTables_devices w.kernel _ _)

theorem World.Runs.pcbAddress (h : w.Runs a p below) : getPcbAddress w.kernel = p :=
  h.refines.getPcbAddress h.current

/-- The sessions in which the process `pid`, started by the running one, runs. -/
def childSessions (a : Sessions) (pid : Int) (shell : Bool) (regs : Regs) : Sessions :=
  a.apply (.start pid ⟨shell, regs, a.current.head?⟩)

theorem childSessions_current (a : Sessions) (pid : Int) (shell : Bool) (regs : Regs) :
    (childSessions a pid shell regs).current = pid :: a.current := by
  unfold childSessions
  rw [Sessions.current, apply_start_stack, apply_start_shown, Function.update_self]

/-- The world in which a started process begins. -/
structure Begins (m : Host) (w w₁ : World) (a : Sessions) (pid p : Int) (below : List Int)
    (shell : Bool) (regs : Regs) : Prop where
  started : Started (m.enter w) w₁.kernel pid shell regs
  runs : w₁.Runs (childSessions a pid shell regs) pid (p :: below)

theorem World.Runs.begins (h : w.Runs a p below) {l : Locals} {cmd : CString}
    (hfits : ArgFits (.execute l (some cmd))) {pid : Int}
    (hstart : (execute m.img (m.enter w) l (some cmd)).2 = some pid) {w₁ : World}
    (hw₁ : w₁.kernel = (execute m.img (m.enter w) l (some cmd)).1) :
    Begins m w w₁ a pid p below (isShell (some cmd)) l.regs := by
  have hent : Refines (m.enter w) a := h.entered
  rcases execute_cases m.img (m.enter w) l (some cmd) with hf | hs
  · rw [hf.result] at hstart
    exact absurd hstart.symm (Option.some_ne_none pid)
  obtain ⟨pid', hpid', hstarted⟩ := hent.hasStarted hs hfits
  obtain rfl := Option.some.inj (hstart.symm.trans hpid')
  rw [← hw₁] at hstarted
  have hcur := h.current
  refine ⟨hstarted, hent.started hstarted (fun hnil => ?_) rfl, ?_, ?_⟩
  · rw [hcur] at hnil
    exact absurd hnil (List.cons_ne_nil p below)
  · rw [childSessions_current, hcur]
  · rw [hw₁, execute_exceptionStatus]
    exact h.quiet

/-- The descriptors with which a started process begins. -/
theorem Begins.fdAt {w₁ : World} {pid : Int} {shell : Bool} {regs : Regs}
    (h : Begins m w w₁ a pid p below shell regs) :
    w₁.kernel.fdAt = newFiles (w.kernel.pcbs pid).file := by
  unfold Kernel.fdAt
  rw [h.runs.pcbAddress]
  exact h.started.ownFile

theorem Begins.terminal {w₁ : World} {pid : Int} {shell : Bool} {regs : Regs}
    (h : Begins m w w₁ a pid p below shell regs) : (w₁.kernel.fdAt 1).IsTerminal := by
  rw [h.fdAt]
  exact ⟨rfl, rfl⟩

theorem childSessions_finish (a : Sessions) (pid : Int) (shell : Bool) (regs : Regs) :
    ((childSessions a pid shell regs).apply .finish).stack = a.stack := by
  rw [apply_finish_stack, childSessions_current]
  unfold childSessions
  rw [apply_start_stack, apply_start_shown, List.tail_cons, Function.update_idem]
  exact Function.update_eq_self _ _

/-- The closing loop prints nothing. -/
theorem screen_closingRel (pid : Int) : ClosingRel pid fun k k' => k'.screen = k.screen where
  refl := fun _ => rfl
  trans := fun h h' => h'.trans h
  closed := close_screen
  disabled := fun _ _ => rfl

theorem haltClosed_screen (k : Kernel) (pid : Int) : (haltClosed k pid).screen = k.screen := by
  refine ((screen_closingRel pid).closeSteps _ _).trans ?_
  rw [haltEnter_eq]
  rfl

/-- `halt` of a process that is not alone on its terminal. -/
theorem Refines.halt_program {k : Kernel} (h : Refines k a) {q : Int}
    (hcur : a.current = p :: q :: below) (img : Image) (l : Locals) (status : UInt8) :
    ∃ ebp esp, halt img k l status = (loadParent (LmaOS.haltClosed k p) p,
      .resumed ebp esp (if k.exceptionStatus = 256 then 256 else status.toNat)) := by
  rw [h.halt_eq hcur, decide_eq_false (List.cons_ne_nil q below), haltEnd_program]
  exact ⟨_, _, rfl⟩

/-- The end of a program that another one executed: `halt` is entered in `k`. -/
theorem World.Runs.finish_eq {q : Int} (h : w.Runs a p (q :: below)) (e : Ending) (l : Locals) :
    ∃ k, (m.enter w).Entering k ∧ k.screen = (m.enter w).screen.puts e.text ∧
      (k.exceptionStatus = 0 ∨ k.exceptionStatus = 256) ∧ ∃ ebp esp value,
        e.finish m.img (m.enter w) l =
            (loadParent (haltClosed k p) p, .resumed ebp esp value) ∧ (value : Int) = e.value := by
  have hquiet : (m.enter w).exceptionStatus = 0 := h.quiet
  cases e with
  | returns status =>
    obtain ⟨ebp, esp, hhalt⟩ := (h.entered (m := m)).halt_program h.current m.img l
      (UInt8.ofNat (word32 status))
    refine ⟨m.enter w, ⟨_, _, rfl⟩, rfl, Or.inl hquiet, ebp, esp, _, hhalt, ?_⟩
    rw [hquiet, if_neg (by decide), UInt8.toNat_ofNat']
    unfold Ending.value word32
    dsimp only
    omega
  | raises message =>
    have hin : (m.enter w).Entering
        { (m.enter w).printf message with exceptionStatus := exceptionFlag } := ⟨_, _, rfl⟩
    have hraised := h.entered.same (entering_sameTables hin)
    obtain ⟨ebp, esp, hhalt⟩ := hraised.halt_program h.current m.img l (UInt8.ofNat exceptionFlag)
    exact ⟨_, hin, rfl, Or.inr rfl, ebp, esp, _, hhalt, rfl⟩

/-- The status of an exception is cleared. -/
theorem haltClosed_exceptionStatus (k : Kernel) (pid : Int) :
    (haltClosed k pid).exceptionStatus =
      if k.exceptionStatus = 256 then 0 else k.exceptionStatus := by
  rw [fileCall_exceptionStatus (haltClosed_fileCall k pid), ← haltEnter_exceptionStatus]
  rfl

/-- A program that ends: `halt` gives the caller the value and its tables back. -/
theorem finish_returns_to (hclosed : w.kernel.FilesClosed p) {w₁ w₂ : World} {pid : Int}
    {shell : Bool} {regs : Regs} (hbegins : Begins m w w₁ a pid p below shell regs)
    {files : Nat → Fd} {text : List UInt8} (hran : w₂.At m w₁ files text) (e : Ending) :
    (ece391Finish m e).Ensures w₂ fun r w' => r = e.value ∧ w'.Shown m w₂ e.text ∧
      w.Returned w' pid files ∧ ∃ a', a'.stack = a.stack ∧ w'.Runs a' p below := by
  have hacts := hran.acts
  rw [hbegins.runs.pcbAddress] at hacts
  have hruns : w₂.Runs (childSessions a pid shell regs) pid (p :: below) :=
    ⟨hbegins.runs.refines.same hacts.fileCall.sameTables, hbegins.runs.current,
      (fileCall_exceptionStatus hacts.fileCall).trans hbegins.runs.quiet⟩
  obtain ⟨k, hin, hscreen, hexc, ebp, esp, value, hfinish, hvalue⟩ :=
    hruns.finish_eq (m := m) e (m.before w₂).locals
  have hent : Refines k (childSessions a pid shell regs) :=
    hruns.entered.same (entering_sameTables hin)
  have hpcbs : k.pcbs = (m.enter w₂).pcbs := entering_pcbs hin
  have hne : ∀ q, q ≠ pid → w₂.kernel.pcbs q = w.kernel.pcbs q := fun q hq =>
    (hacts.others hq).trans (hbegins.started.others q hq)
  have hp : p ≠ pid := fun he =>
    hent.not_mem_below hruns.current (he ▸ List.mem_cons_self)
  have hclosed₂ : k.FilesClosed p := by
    intro i hi hi'
    rw [hpcbs]
    show (((w₂.kernel.pcbs p).file i).flags = 0)
    rw [hne p hp]
    exact hclosed i hi hi'
  obtain ⟨hothers, hflags⟩ := hent.haltClosed_below hruns.current hclosed₂
  have hmem : pid ∈ (childSessions a pid shell regs).stack
      (childSessions a pid shell regs).shown := mem_current hruns.current
  refine Task.Ensures.of (by rw [hfinish]) ⟨hvalue, ?_, ⟨fun q hq => ?_, fun i => ?_, ?_⟩,
    (childSessions a pid shell regs).apply .finish, childSessions_finish a pid shell regs,
    ⟨?_, current_finish hruns.current, ?_⟩⟩
  · exact m.shown w₂ ((haltClosed_screen k pid).trans hscreen)
  · rw [hpcbs] at hothers
    exact (hothers q hq).trans (hne q hq)
  · rw [hpcbs] at hflags
    rw [← hran.files]
    unfold Kernel.fdAt
    rw [hruns.pcbAddress]
    exact hflags i
  · have hpid : (k.pcbs pid).pid = pid := (hent.pcbs _ pid hmem).1
    have hfreed : (haltClosed k pid).processState = Function.update k.processState pid 0 := by
      rw [(haltClosed_fileCall _ pid).sameTables.processState, unlinked_processState, hpid]
    have htaken : k.processState = Function.update w.kernel.processState pid 1 :=
      (entering_sameTables hin).processState.trans
        (hacts.fileCall.sameTables.processState.trans hbegins.started.processState)
    have hfree : w.kernel.processState pid = 0 := hbegins.started.free.2.2
    show (haltClosed k pid).processState = _
    rw [hfreed, htaken, Function.update_idem, ← hfree, Function.update_eq_self]
  · exact (hent.haltClosed hruns.current).same (loadParent_sameTables _ _)
  · refine Eq.trans (haltClosed_exceptionStatus k pid) ?_
    rcases hexc with hnone | hraised
    · rw [hnone]
      rfl
    · rw [hraised]
      rfl

/-- A program that another one executes: if it ends from its start on with `P e files` and has
    printed `text`, its caller gets the value of that end, and the tables back. -/
theorem program_runs (h : w.Runs a p below) (hclosed : w.kernel.FilesClosed p) {command : Buf}
    (hfits : ArgFits (.execute (m.before w).locals (some (cstring command)))) {pid : Int}
    (hstart : (execute m.img (m.enter w) (m.before w).locals (some (cstring command))).2 =
      some pid) {P : Ending → (Nat → Fd) → Prop} {text : List UInt8}
    (hprogram : ∀ w₁, w₁.kernel =
        (execute m.img (m.enter w) (m.before w).locals (some (cstring command))).1 →
      (code (w₁.kernel.programPage pid)).Ensures w₁ fun e w₂ =>
        ∃ files, P e files ∧ w₂.At m w₁ files text) :
    (ece391Execute m code command).Ensures w fun r w' => ∃ e files, P e files ∧ r = e.value ∧
      w'.Shown m w (text ++ e.text) ∧ w.Returned w' pid files ∧
        ∃ a', a'.stack = a.stack ∧ w'.Runs a' p below := by
  have hquiet : bytes (executeMessage m.img (m.enter w) (m.before w).locals
      (some (cstring command))) = [] :=
    congrArg bytes (executeMessage_started hstart)
  have hbegins : ∀ {w₁ : World}, w₁.kernel =
      (execute m.img (m.enter w) (m.before w).locals (some (cstring command))).1 →
        Begins m w w₁ a pid p below _ _ := fun hw₁ => h.begins hfits hstart hw₁
  unfold ece391Execute
  refine .bind (.of rfl ?_)
  rw [hstart]
  refine .bind (.of rfl ?_)
  refine .bind ((hprogram _ rfl).mono ?_)
  rintro e w₂ ⟨files, hP, hran⟩
  refine (finish_returns_to hclosed (hbegins rfl) hran e).mono ?_
  rintro r w' ⟨rfl, hshown, hreturned, ha⟩
  refine ⟨e, files, hP, rfl, ?_, hreturned, ha⟩
  have hexecuted := m.shown w
    (execute_screen m.img (m.enter w) (m.before w).locals (some (cstring command)))
  have hall := (hexecuted.trans hran.shown).trans hshown
  rwa [hquiet, List.nil_append] at hall

end Runs

/-! ## Installed programs -/

/-- Entry `i`, the file `name`, is an executable that is loaded whole, and a page with it in place
    runs as `program`, whatever else the page holds. -/
structure Installed (img : Image) (code : Buf → Task World Ending) (name : List UInt8)
    (program : Buf → Task World Int) (i : Nat) : Prop where
  nonempty : name ≠ []
  named : img.FirstNamed name i
  executable : IsExecutable img i
  short : img.inodeLength (img.inodeNum i) < 65536
  roomy : img.inodeLength (img.inodeNum i) ≤ img.inodeCount * absBlockSize
  runs : ∀ page : Buf, (∀ j, j < img.inodeLength (img.inodeNum i) →
    page (programOffset + j) = img.contentByte (img.inodeNum i) j) →
      ∃ buf, code page = Ending.returns <$> program buf

/-- Where a slot is free, the command starts it. -/
theorem Installed.starts {img : Image} (hwf : img.WellFormed) {code : Buf → Task World Ending}
    {name : List UInt8} {program : Buf → Task World Int} {i : Nat}
    (h : Installed img code name program i) {k : Kernel} (hfree : k.allActive = false)
    (hroom : k.term.numProc ≤ 3) {cmd : CString} {arg : List UInt8}
    (hparse : parse cmd = some (name, arg)) (l : Locals) :
    (execute img k l (some cmd)).2 = some (k.freePid : Int) ∧
      ∃ buf, code ((execute img k l (some cmd)).1.programPage k.freePid) =
        Ending.returns <$> program buf := by
  obtain ⟨hnul, hlen, _⟩ := parse_parts hparse
  have hi := h.named.listed
  obtain ⟨hregular, hlong, hmagic⟩ := h.executable
  have hload : Loadable img l name := (loadable_iff hwf l hnul hlen).mpr ⟨i, h.named,
    fun j hj => (headByte_regular hwf hi hregular hlong l.fileData hj).trans (hmagic j hj)⟩
  have hchars : cmd.chars ≠ [] := by
    intro hnil
    rw [parse_eq, hnil] at hparse
    exact h.nonempty (congrArg Prod.fst (Option.some.inj hparse)).symm
  have hstarts : (execute img k l (some cmd)).2 ≠ none :=
    execute_starts_iff.mpr ⟨⟨cmd, rfl, hchars⟩, hfree, hroom, _, hparse, hload⟩
  obtain ⟨pid, hpid⟩ := Option.ne_none_iff_exists'.mp hstarts
  obtain ⟨_, _, _, _, _, _, _, rfl, _⟩ := execute_started hpid
  have hkey : CString.key ⟨name, hnul⟩ = name := List.take_of_length_le hlen
  have hentry : (readDentryByName img (Buf.ofList name) l.dentry).2.fileType = img.fileType i ∧
      (readDentryByName img (Buf.ofList name) l.dentry).2.inodeNum = img.inodeNum i := by
    have hfirst := readDentryByName_first (s := ⟨name, hnul⟩) (hkey.symm ▸ h.named) l.dentry
    unfold readDentryByIndex at hfirst
    rw [if_neg (Nat.not_le_of_lt hi)] at hfirst
    exact ⟨congrArg (fun r => r.2.fileType) hfirst, congrArg (fun r => r.2.inodeNum) hfirst⟩
  refine ⟨hpid, h.runs _ fun j hj => ?_⟩
  have hcopied : copiedBytes img (img.inodeNum i) = img.inodeLength (img.inodeNum i) := by
    unfold copiedBytes
    rw [Nat.min_eq_right h.roomy, Nat.mod_eq_of_lt h.short]
  rw [execute_page hwf hparse (hentry.1.trans hregular) hpid, hentry.2, hcopied, if_pos hj]

/-! ## Programs that leave files open -/

/-- `n` of the descriptors 2 to 7 are closed, and the others are open. -/
structure Spare (n : Nat) (files : Nat → Fd) : Prop where
  flags : ∀ d, 2 ≤ d → d < 8 → (files d).flags = 0 ∨ (files d).flags = 1
  count : ((Finset.Ico 2 8).filter fun d => (files d).flags = 0).card = n

section Spare

variable {n : Nat} {files files' : Nat → Fd}

theorem Spare.congr (h : Spare n files)
    (hflags : ∀ d, 2 ≤ d → d < 8 → (files' d).flags = (files d).flags) : Spare n files' where
  flags := fun d hlo hhi => by
    rw [hflags d hlo hhi]
    exact h.flags d hlo hhi
  count := by
    rw [← h.count]
    refine congrArg Finset.card (Finset.filter_congr fun d hd => ?_)
    obtain ⟨hlo, hhi⟩ := Finset.mem_Ico.mp hd
    rw [hflags d hlo hhi]

theorem Spare.newFiles (h : Spare n files) : Spare n (newFiles files) := by
  refine h.congr fun d hlo _ => ?_
  unfold LmaOS.newFiles
  dsimp only
  rw [Function.update_of_ne (by omega), Function.update_of_ne (by omega)]

theorem Spare.free (h : Spare n files) (hn : n ≠ 0) :
    ∃ d, 2 ≤ d ∧ d < 8 ∧ (files d).flags = 0 := by
  have hpos : 0 < ((Finset.Ico 2 8).filter fun d => (files d).flags = 0).card := by
    rw [h.count]
    exact Nat.pos_of_ne_zero hn
  obtain ⟨d, hd⟩ := Finset.card_pos.mp hpos
  obtain ⟨hrange, hzero⟩ := Finset.mem_filter.mp hd
  obtain ⟨hlo, hhi⟩ := Finset.mem_Ico.mp hrange
  exact ⟨d, hlo, hhi, hzero⟩

theorem Spare.full (h : Spare 0 files) {d : Nat} (hlo : 2 ≤ d) (hhi : d < 8) :
    (files d).flags = 1 := by
  have hnone := Finset.card_eq_zero.mp h.count
  refine (h.flags d hlo hhi).resolve_left fun hzero => ?_
  exact Finset.filter_eq_empty_iff.mp hnone (Finset.mem_Ico.mpr ⟨hlo, hhi⟩) hzero

/-- A descriptor that is opened is one spare descriptor less. -/
theorem Spare.open (h : Spare (n + 1) files) {fd : Nat} (hlo : 2 ≤ fd) (hhi : fd < 8)
    (hclosed : (files fd).flags ≠ 1) {f : Fd} (hf : f.flags = 1) :
    Spare n (Function.update files fd f) where
  flags := fun d hlo' hhi' => by
    rw [Function.update_apply]
    split
    · exact Or.inr hf
    · exact h.flags d hlo' hhi'
  count := by
    have hzero : (files fd).flags = 0 := (h.flags fd hlo hhi).resolve_right hclosed
    have herase : (Finset.Ico 2 8).filter (fun d => (Function.update files fd f d).flags = 0) =
        ((Finset.Ico 2 8).filter fun d => (files d).flags = 0).erase fd := by
      ext d
      rw [Finset.mem_erase, Finset.mem_filter, Finset.mem_filter, Function.update_apply]
      by_cases hd : d = fd
      · rw [if_pos hd, hf]
        simp [hd]
      · rw [if_neg hd]
        simp [hd]
    rw [herase, Finset.card_erase_of_mem
      (Finset.mem_filter.mpr ⟨Finset.mem_Ico.mpr ⟨hlo, hhi⟩, hzero⟩), h.count]
    rfl

/-- A program that leaves a file open. -/
theorem Spare.leaves (h : Spare n files) {opened : Option Fd} (hn : opened ≠ none → n ≠ 0)
    (hleaves : LeavesOpen opened files files') :
    Spare (if opened = none then n else n - 1) files' := by
  cases opened with
  | none =>
    obtain rfl : files' = files := hleaves
    exact h
  | some f =>
    obtain ⟨fd, f', hlo, hhi, hclosed, hf', rfl⟩ := hleaves
    obtain ⟨n, rfl⟩ := Nat.exists_eq_succ_of_ne_zero (hn (Option.some_ne_none f))
    exact h.open hlo hhi hclosed hf'

end Spare

/-- What a program prints and returns, and how many of its descriptors it leaves closed. -/
structure Outcome where
  text : List UInt8
  status : Int
  left : Nat

/-- With the argument `arg` and `n` closed descriptors the program comes to the outcome `o`. -/
def Serves (m : Host) (program : Buf → Task World Int) (arg : List UInt8) (n : Nat)
    (o : Outcome) : Prop :=
  ∀ w buf, (w.kernel.pcbs (getPcbAddress w.kernel)).HoldsArg arg → (w.kernel.fdAt 0).flags = 1 →
    (w.kernel.fdAt 1).IsTerminal → Spare n w.kernel.fdAt →
    (program buf).Ensures w fun status w' => ∃ files, (status = o.status ∧ Spare o.left files) ∧
      w'.At m w files o.text

/-- The outcome of a program that opens a file to read it, and says that it cannot where no
    descriptor is closed. -/
def openingOutcome (opened : Option Fd) (full done : List UInt8 × Int) (n : Nat) : Outcome :=
  if opened ≠ none ∧ n = 0 then ⟨full.1, full.2, 0⟩
  else ⟨done.1, done.2, if opened = none then n else n - 1⟩

section Serves

variable {m : Host} {n : Nat}

theorem Spare.allOpen {files : Nat → Fd} (h : Spare 0 files) (hin : (files 0).flags = 1)
    (hterm : (files 1).IsTerminal) : ∀ d, d < 8 → (files d).flags = 1 := by
  intro d hd
  by_cases hlo : 2 ≤ d
  · exact h.full hlo hd
  · obtain rfl | rfl : d = 0 ∨ d = 1 := by omega
    · exact hin
    · exact hterm.1

theorem cat_serves (hwf : m.img.WellFormed) {arg : CString}
    (hkind : ∀ f, m.img.catOpens arg = some f → f.fileOp ≠ .rtcOp) (n : Nat) :
    Serves m (cat m) arg.chars n (openingOutcome (m.img.catOpens arg)
      (bytes "file not found\n", 2) (m.img.catText arg) n) := by
  intro w buf ha hin hterm hspare
  unfold openingOutcome
  by_cases hfull : m.img.catOpens arg ≠ none ∧ n = 0
  · obtain ⟨hopens, rfl⟩ := hfull
    obtain ⟨f, hf⟩ := Option.ne_none_iff_exists'.mp hopens
    rw [if_pos ⟨hopens, rfl⟩]
    have hkindf := hkind f hf
    have hlen : arg.chars.length ≤ 128 := ha.fits
    unfold Image.catOpens at hf
    split at hf
    · exact absurd hf.symm (Option.some_ne_none f)
    rename_i hne
    unfold cat
    refine .bind ((ensures_getargs (World.at_start m w) ha buf (n := 1024) (by omega)
      (by decide)).mono ?_)
    rintro r w₁ ⟨hargs, hworld⟩
    rw [if_neg hne] at hargs
    rw [if_neg (by omega)]
    have hname : cstring r.2 = arg := cstring_spells hargs.2 (by omega)
    rw [← hname] at hf
    refine .bind ((ensures_full hworld hf hkindf (hspare.allOpen hin hterm)).mono ?_)
    rintro _ w₂ ⟨rfl, hworld⟩
    rw [if_pos rfl]
    refine .bind ((ensures_literal hworld hterm (by decide) (by decide)).mono fun _ w₃ h => ?_)
    exact .pure ⟨_, ⟨rfl, hspare⟩, h⟩
  · rw [if_neg hfull]
    have hn : m.img.catOpens arg ≠ none → n ≠ 0 := fun hopens hn => hfull ⟨hopens, hn⟩
    refine (cat_ensures hwf ha hterm (fun hopens => hspare.free (hn hopens)) buf).mono ?_
    rintro status w' ⟨rfl, files, hleaves, hat⟩
    exact ⟨files, ⟨rfl, hspare.leaves hn hleaves⟩, hat⟩

theorem ls_serves (hwf : m.img.WellFormed)
    (hkind : ∀ f, m.img.opens dot = some f → f.fileOp ≠ .rtcOp) (arg : List UInt8) (n : Nat) :
    Serves m (ls m) arg n (openingOutcome (m.img.opens dot)
      (bytes "directory open failed\n", 2) m.img.lsText n) := by
  intro w buf _ hin hterm hspare
  unfold openingOutcome
  by_cases hfull : m.img.opens dot ≠ none ∧ n = 0
  · obtain ⟨hopens, rfl⟩ := hfull
    obtain ⟨f, hf⟩ := Option.ne_none_iff_exists'.mp hopens
    rw [if_pos ⟨hopens, rfl⟩]
    have hkindf := hkind f hf
    have hdot : 0 ∉ bytes "." := by decide
    have hname : cstring (literal ".") = dot := cstring_spells (Buf.spells_ofList hdot) (by decide)
    rw [← hname] at hf
    unfold ls
    refine .bind ((ensures_full (World.at_start m w) hf hkindf
      (hspare.allOpen hin hterm)).mono ?_)
    rintro _ w₁ ⟨rfl, hworld⟩
    rw [if_pos rfl]
    refine .bind ((ensures_literal hworld hterm (by decide) (by decide)).mono fun _ w₂ h => ?_)
    exact .pure ⟨_, ⟨rfl, hspare⟩, h⟩
  · rw [if_neg hfull]
    have hn : m.img.opens dot ≠ none → n ≠ 0 := fun hopens hn => hfull ⟨hopens, hn⟩
    refine (ls_ensures hwf hterm (fun hopens => hspare.free (hn hopens)) buf).mono ?_
    rintro status w' ⟨rfl, files, hleaves, hat⟩
    exact ⟨files, ⟨rfl, hspare.leaves hn hleaves⟩, hat⟩

end Serves

/-! ## One program after the other -/

/-- Process `p` runs and has the next program's slot before it, with `n` closed descriptors. -/
structure World.Ready (w : World) (p : Int) (below : List Int) (slot n : Nat) : Prop where
  runs : ∃ a, w.Runs a p below
  free : w.kernel.allActive = false
  next : w.kernel.freePid = slot
  closed : w.kernel.FilesClosed p
  spare : Spare n (w.kernel.pcbs slot).file

section Ready

variable {m : Host} {code : Buf → Task World Ending} {w : World} {p : Int} {below : List Int}
  {slot n : Nat} {command : Buf} {name arg : List UInt8} {program : Buf → Task World Int}
  {i : Nat} {o : Outcome}

theorem World.Ready.other (h : w.Ready p below slot n) : p ≠ slot := by
  obtain ⟨a, hruns⟩ := h.runs
  have hfree := (freePid_spec hruns.refines.slots h.free).2
  rw [h.next] at hfree
  exact hruns.refines.fresh hfree (mem_current hruns.current)

/-- A program that was executed leaves everything ready for the next one. -/
theorem World.Ready.returned (h : w.Ready p below slot n) {w' : World} {files : Nat → Fd} {n' : Nat}
    (hruns : ∃ a, w'.Runs a p below) (hreturned : w.Returned w' slot files)
    (hspare : Spare n' files) : w'.Ready p below slot n' where
  runs := hruns
  free := by
    unfold Kernel.allActive
    rw [hreturned.slots]
    exact h.free
  next := by
    rw [← h.next]
    unfold Kernel.freePid
    rw [hreturned.slots]
  closed := fun d hhi hlo => by
    rw [hreturned.others p h.other]
    exact h.closed d hhi hlo
  spare := hspare.congr fun d _ _ => hreturned.flags d

/-- There is room on the terminal. -/
theorem World.Ready.room (h : w.Ready p below slot n) (hroom : below.length ≤ 2) :
    (m.enter w).term.numProc ≤ 3 := by
  obtain ⟨a, hruns⟩ := h.runs
  have hlen : ((m.enter w).terminals a.shown).numProc = _ := hruns.entered.counts a.shown
  have hcur : a.stack a.shown = p :: below := hruns.current
  rw [hcur, List.length_cons] at hlen
  unfold Kernel.term
  rw [hruns.entered.shown, hlen]
  omega

/-- One program, from the process `p`. -/
theorem installed_run (hwf : m.img.WellFormed) (hinstalled : Installed m.img code name program i)
    (h : w.Ready p below slot n) (hroom : below.length ≤ 2)
    (hparse : parse (cstring command) = some (name, arg)) (hfits : arg.length ≤ cmdLen)
    (hserves : Serves m program arg n o) :
    (ece391Execute m code command).Ensures w fun r w' => r = o.status % 256 ∧
      w'.Shown m w o.text ∧ w'.kernel.pcbs p = w.kernel.pcbs p ∧ w'.Ready p below slot o.left := by
  obtain ⟨a, hruns⟩ := h.runs
  have hargfits : ArgFits (.execute (m.before w).locals (some (cstring command))) := by
    intro name' arg' hparse'
    obtain ⟨rfl, rfl⟩ := Prod.mk.inj (Option.some.inj (hparse.symm.trans hparse'))
    exact hfits
  obtain ⟨hstart, buf, hcode⟩ := hinstalled.starts (k := m.enter w) hwf h.free (h.room hroom)
    hparse (m.before w).locals
  have hslot : (m.enter w).freePid = slot := h.next
  rw [hslot] at hstart hcode
  have hprogram : ∀ w₁, w₁.kernel = (execute m.img (m.enter w) (m.before w).locals
      (some (cstring command))).1 → (code (w₁.kernel.programPage slot)).Ensures w₁ fun e w₂ =>
        ∃ files, (e = .returns o.status ∧ Spare o.left files) ∧ w₂.At m w₁ files o.text := by
    intro w₁ hw₁
    have hbegins := hruns.begins hargfits hstart hw₁
    have hfiles := hbegins.fdAt
    have harg : (w₁.kernel.pcbs (getPcbAddress w₁.kernel)).HoldsArg arg := by
      rw [hbegins.runs.pcbAddress, hw₁]
      exact execute_holdsArg hparse hfits hstart
    have hspare : Spare n w₁.kernel.fdAt := by
      rw [hfiles]
      exact h.spare.newFiles
    rw [hw₁, hcode]
    refine .map ((hserves w₁ buf harg (by rw [hfiles]; rfl) hbegins.terminal hspare).mono ?_)
    rintro status w₂ ⟨files, ⟨rfl, hspare'⟩, hran⟩
    exact ⟨files, ⟨rfl, hspare'⟩, hran⟩
  refine (program_runs hruns h.closed hargfits hstart hprogram).mono ?_
  rintro r w' ⟨_, files, ⟨rfl, hspare'⟩, rfl, hshown, hreturned, a', _, hruns'⟩
  rw [Ending.text, List.append_nil] at hshown
  exact ⟨rfl, hshown, hreturned.others p h.other, h.returned ⟨a', hruns'⟩ hreturned hspare'⟩

/-! ## cat, again and again -/

/-- `k` runs, of which the first `n` have the one outcome and the others the other. -/
def outcomes {α : Type} (first other : α) (n k : Nat) : List α :=
  List.replicate (min k n) first ++ List.replicate (k - n) other

theorem outcomes_succ {α : Type} (first other : α) (n k : Nat) :
    outcomes first other n (k + 1) =
      (if n = 0 then other else first) :: outcomes first other (n - 1) k := by
  unfold outcomes
  cases n with
  | zero =>
    rw [if_pos rfl, Nat.min_zero, Nat.min_zero, Nat.sub_zero, Nat.sub_zero]
    rfl
  | succ n =>
    rw [if_neg (Nat.succ_ne_zero n), Nat.add_sub_cancel, Nat.add_min_add_right,
      Nat.add_sub_add_right]
    rfl

/-- `cat` does not close its file, and `halt` closes those of the process below: with `n` closed
    descriptors in the slot `n` runs succeed, and then the file is not found any more. -/
theorem cat_repeated (hwf : m.img.WellFormed) (hcat : Installed m.img code name (cat m) i)
    (h : w.Ready p below slot n) (hroom : below.length ≤ 2) {arg : CString}
    (hparse : parse (cstring command) = some (name, arg.chars))
    (hfits : arg.chars.length ≤ cmdLen) {f : Fd} (hopen : m.img.catOpens arg = some f)
    (hkind : f.fileOp ≠ .rtcOp) (k : Nat) :
    (Task.times (ece391Execute m code command) k).Ensures w fun rs w' =>
      rs = outcomes 0 2 n k ∧
        w'.Shown m w (outcomes (m.img.rest f) (bytes "file not found\n") n k).flatten := by
  have hdone : m.img.catText arg = (m.img.rest f, 0) := by
    unfold Image.catOpens at hopen
    unfold Image.catText
    split at hopen
    · exact absurd hopen.symm (Option.some_ne_none f)
    · rw [if_neg ‹_›, hopen]
  have hkind' : ∀ f', m.img.catOpens arg = some f' → f'.fileOp ≠ .rtcOp := by
    intro f' hf'
    obtain rfl := Option.some.inj (hopen.symm.trans hf')
    exact hkind
  induction k generalizing w n with
  | zero =>
    refine .pure ⟨?_, ?_⟩
    · simp [outcomes]
    · simp only [outcomes, Nat.zero_min, Nat.zero_sub, List.replicate_zero, List.append_nil,
        List.flatten_nil]
      exact World.Shown.refl m w
  | succ k ih =>
    refine .bind ((installed_run hwf hcat h hroom hparse hfits (cat_serves hwf hkind' n)).mono ?_)
    rintro r w₁ ⟨rfl, hshown, _, hready⟩
    rw [outcomes_succ, outcomes_succ, List.flatten_cons]
    unfold openingOutcome at hshown hready ⊢
    rw [hopen, hdone] at hshown hready ⊢
    have hsome : some f ≠ none := Option.some_ne_none f
    by_cases hn : n = 0
    · subst hn
      rw [if_pos ⟨hsome, rfl⟩] at hshown hready ⊢
      refine .bind ((ih hready).mono ?_)
      rintro rs w₂ ⟨rfl, hshown'⟩
      exact .pure ⟨rfl, hshown.trans hshown'⟩
    · rw [if_neg (fun hfull => hn hfull.2)] at hshown hready ⊢
      rw [if_neg hn, if_neg hn]
      rw [if_neg hsome] at hready
      refine .bind ((ih hready).mono ?_)
      rintro rs w₂ ⟨rfl, hshown'⟩
      exact .pure ⟨rfl, hshown.trans hshown'⟩

end Ready

/-- In `dotImage` the program "shell" may as well be `cat`. -/
def catCode (_ : Buf) : Task World Ending :=
  Ending.returns <$> cat (quietHost dotImage) fun _ => 0

theorem dotImage_installed :
    Installed dotImage catCode shellName (cat (quietHost dotImage)) 1 where
  nonempty := by decide
  named := ⟨by decide, by decide, by decide⟩
  executable := ⟨by decide, by decide, by decide⟩
  short := by decide
  roomy := by decide
  runs := fun _ _ => ⟨_, rfl⟩

/-- The base shell after boot. -/
theorem dotShell_ready : (World.start dotShell).Ready 0 [] 1 6 where
  runs := ⟨(boot dotImage Kernel.loaded ⟨0, 0⟩ (Locals.zero ⟨0, 0⟩)).sessions,
    boot_refines loaded_poweredOn _ _ _, by decide, by decide⟩
  free := by decide
  next := by decide
  closed := by
    unfold Kernel.FilesClosed
    decide
  spare := ⟨by decide, by decide⟩

theorem cat_repeated_dotShell :
    (Task.times (ece391Execute (quietHost dotImage) catCode
        (Buf.ofList (shellName ++ [0x20] ++ shellName))) 8).Ensures (World.start dotShell)
      fun rs w' => rs = [0, 0, 0, 0, 0, 0, 2, 2] ∧ w'.Shown (quietHost dotImage)
        (World.start dotShell) (outcomes (dotImage.rest (openedFd .fileOp 0))
          (bytes "file not found\n") 6 8).flatten := by
  have hcommand : cstring (Buf.ofList (shellName ++ [0x20] ++ shellName)) =
      ⟨shellName ++ [0x20] ++ shellName, by decide⟩ :=
    cstring_spells (Buf.spells_ofList (by decide)) (by decide)
  have hopen : dotImage.catOpens shellCommand = some (openedFd .fileOp 0) := by decide
  exact cat_repeated (m := quietHost dotImage) dotImage_wellFormed dotImage_installed
    dotShell_ready (by decide) (by rw [hcommand]; decide) (by decide) hopen (by decide) 8

end LmaOS
