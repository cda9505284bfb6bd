import LmaOS.Session.Tables

/-
  The return discipline of `execute` and `halt`.

  A halting process that is not its terminal's base shell goes back to the registers the
  `execute` that created it saved, that call was made by the process directly below it, and the
  value delivered is the status or, for an exception, 256. `halt_returns`: so it is for every
  halt of every run from boot whose arguments fit, and no exception stays pending. An argument
  that runs over the PCB's pid makes `halt` refuse the process (`halt_refused`).
-/
namespace LmaOS

open Util Sessions

/-- How a halting call ends, and the value it is to deliver. -/
def haltOutcome (img : Image) (k : Kernel) : Op → Option (Nat × HaltResult)
  | .halt l status => some (status.toNat, (halt img k l status).2)
  | .exception l vector => some (256, (idtHandler vector img k l).2)
  | _ => none

structure HaltReturns (img : Image) (s : Sys) (op : Op) : Prop where
  returns : ∀ value result, haltOutcome img s.kernel op = some (value, result) →
    ∀ p q below, s.kernel.procs s.kernel.curTerm = p :: q :: below →
      (s.sessions.born p).caller = some q ∧
        result = .resumed (s.sessions.born p).regs.ebp (s.sessions.born p).regs.esp value
  quiet : op.isHalt = true → (s.step img op).kernel.exceptionStatus = 0

/-! ## The exception flag -/

theorem execute_exceptionStatus (img : Image) (k : Kernel) (l : Locals)
    (command : Option CString) :
    (execute img k l command).1.exceptionStatus = k.exceptionStatus := by
  rcases execute_cases img k l command with ⟨_, _, _, _, h⟩ | ⟨_, _, _, _, _, _, _, _, _, h⟩
  · rw [h]
  · rw [h]; rfl

theorem fileCall_exceptionStatus {k k' : Kernel} (h : FileCall k k') :
    k'.exceptionStatus = k.exceptionStatus := by
  obtain ⟨_, _, _, _, rfl, _⟩ := h
  rfl

theorem haltEnter_exceptionStatus (k : Kernel) : (haltEnter k).exceptionStatus =
    if k.exceptionStatus = 256 then 0 else k.exceptionStatus := by
  rw [haltEnter_eq]

/-- `halt` takes a pending exception, whatever way it ends. -/
theorem halt_exceptionStatus (img : Image) (k : Kernel) (l : Locals) (status : UInt8) :
    (halt img k l status).1.exceptionStatus =
      if k.exceptionStatus = 256 then 0 else k.exceptionStatus := by
  have hclosed : ∀ pid, (haltClosed k pid).exceptionStatus =
      if k.exceptionStatus = 256 then 0 else k.exceptionStatus := fun pid => by
    rw [fileCall_exceptionStatus (haltClosed_fileCall k pid), ← haltEnter_exceptionStatus]
    rfl
  have hshell := execute_exceptionStatus img (haltClosed k (getPcbAddress k)) l (some shellCommand)
  unfold halt
  dsimp only
  split
  · exact haltEnter_exceptionStatus k
  · unfold haltEnd
    split
    · rename_i k' new he
      split at he
      · rw [he] at hshell; exact hshell.trans (hclosed _)
      · cases he
    · rename_i k' he
      show k'.exceptionStatus = _
      split at he
      · rw [he] at hshell; exact hshell.trans (hclosed _)
      · obtain ⟨rfl, _⟩ := Prod.mk.inj he
        exact hclosed _

theorem switchTerminal_exceptionStatus (img : Image) (k : Kernel) (saved : Regs) (l : Locals)
    (tid : Fin 3) : (switchTerminal img k saved l tid).1.exceptionStatus = k.exceptionStatus := by
  rw [switchTerminal_eq]
  split
  · rw [execute_exceptionStatus]; rfl
  · rfl

/-- No exception is pending after a halt, nor after any other call. -/
theorem step_quiet (img : Image) {s : Sys} (h : s.kernel.exceptionStatus = 0) (op : Op) :
    (s.step img op).kernel.exceptionStatus = 0 := by
  unfold Sys.step perform
  cases op with
  | execute l command => exact (execute_exceptionStatus img _ l command).trans h
  | halt l status =>
    refine (halt_exceptionStatus img _ l status).trans ?_
    rw [h]; rfl
  | exception l vector =>
    obtain ⟨screen, he⟩ := idtHandler_eq vector img s.kernel l
    dsimp only
    rw [he]
    exact halt_exceptionStatus img _ l 0
  | openCall dentry filename =>
    exact (fileCall_exceptionStatus (openCall_actsOn img _ dentry filename).fileCall).trans h
  | close fd => exact (fileCall_exceptionStatus (close_actsOnFiles _ fd).actsOn.fileCall).trans h
  | read dentry tail fd buf nbytes =>
    dsimp only
    cases hr : read img s.kernel dentry tail fd buf nbytes with
    | none => exact h
    | some r =>
      have hcall := (read_actsOnFiles img _ dentry tail fd buf nbytes hr).actsOn.fileCall
      exact (fileCall_exceptionStatus hcall).trans h
  | write fd buf nbytes =>
    exact (fileCall_exceptionStatus
      (write_actsOnFiles _ 0 fd buf nbytes).actsOn.fileCall).trans h
  | getargs buf nbytes => exact h
  | switchTerminal saved l tid => exact (switchTerminal_exceptionStatus img _ saved l tid).trans h
  | devices screen keyboard => exact h

/-! ## Returning -/

theorem Refines.halt_resumes {k : Kernel} {a : Sessions} (h : Refines k a) {p q : Int}
    {below : List Int} (hcur : a.current = p :: q :: below) (img : Image) (l : Locals)
    (status : UInt8) : (halt img k l status).2 = .resumed (a.born p).regs.ebp (a.born p).regs.esp
      (if k.exceptionStatus = 256 then 256 else status.toNat) := by
  have hmem : p ∈ a.stack a.shown := mem_current hcur
  obtain ⟨_, _, hebp, hesp⟩ := (haltClosed_fileCall k p).sameTables.pcbs p
  rw [unlinked_pcbs] at hebp hesp
  obtain ⟨_, hebp', hesp'⟩ := h.pcbs _ p hmem
  rw [h.halt_eq hcur, decide_eq_false (List.cons_ne_nil q below), haltEnd_program]
  dsimp only
  rw [hebp, hesp, hebp', hesp']

theorem Refines.haltReturns {img : Image} {s : Sys} (h : Refines s.kernel s.sessions)
    (hquiet : s.kernel.exceptionStatus = 0) (op : Op) : HaltReturns img s op where
  returns := by
    intro value result hout p q below hcur
    rw [h.current] at hcur
    have hcaller : StartedOn s.sessions.born p (q :: below) := by
      have hs : Above (StartedOn s.sessions.born) s.sessions.current :=
        h.legal.started s.sessions.shown
      rw [hcur] at hs
      exact hs.1
    refine ⟨hcaller.1, ?_⟩
    cases op with
    | halt l status =>
      obtain ⟨rfl, rfl⟩ := Prod.mk.inj (Option.some.inj hout)
      have hres := h.halt_resumes hcur img l status
      rw [hquiet, if_neg (by decide)] at hres
      exact hres
    | exception l vector =>
      obtain ⟨rfl, rfl⟩ := Prod.mk.inj (Option.some.inj hout)
      obtain ⟨screen, he⟩ := idtHandler_eq vector img s.kernel l
      have hin : s.kernel.Entering
          { s.kernel with screen := screen, exceptionStatus := exceptionFlag } :=
        ⟨screen, exceptionFlag, rfl⟩
      rw [he]
      exact (h.same (entering_sameTables hin)).halt_resumes hcur img l 0
    | _ => cases hout
  quiet := fun _ => step_quiet img hquiet op

theorem boot_quiet {k : Kernel} (hk : k.PoweredOn) (img : Image) (saved : Regs) (l : Locals) :
    (boot img k saved l).kernel.exceptionStatus = 0 :=
  step_quiet img (s := initial k) hk.2 (.switchTerminal saved l 0)

/-- Every halt of every proper run from boot returns to its caller. -/
theorem halt_returns {img : Image} {k : Kernel} (hk : k.PoweredOn) (saved : Regs) (l : Locals)
    (ops : List Op) (hrun : Allowed (Sys.step img) Sys.Proper (boot img k saved l) ops) :
    Allowed (Sys.step img) (HaltReturns img) (boot img k saved l) ops :=
  boot_steps (fun s => s.kernel.exceptionStatus = 0) (fun _ _ hok => hok)
    (fun _ op _ h _ _ => step_quiet img h op)
    (fun _ op href h _ => href.haltReturns h op) hk (boot_quiet hk img saved l) hrun

/-- A shell that dies by an exception, and one that halts. -/
def exceptionRun : List Op :=
  [.execute (Locals.zero ⟨1, 2⟩) (some shellCommand), .exception (Locals.zero ⟨3, 4⟩) 14,
    .execute (Locals.zero ⟨5, 6⟩) (some shellCommand), .halt (Locals.zero ⟨7, 8⟩) 9]

theorem halt_returns_exceptionRun : Allowed (Sys.step shellImage) (HaltReturns shellImage)
    (boot shellImage Kernel.loaded ⟨0, 0⟩ (Locals.zero ⟨0, 0⟩)) exceptionRun :=
  halt_returns loaded_poweredOn ⟨0, 0⟩ (Locals.zero ⟨0, 0⟩) exceptionRun (by decide +kernel)

/-- `halt` of a process whose argument ran over its pid is refused. -/
theorem halt_refused : ¬ ∀ (img : Image) (k : Kernel), k.PoweredOn →
    ∀ (saved : Regs) (l : Locals) (ops : List Op),
      Allowed (Sys.step img) Sys.Issued (boot img k saved l) ops →
        Allowed (Sys.step img) (HaltReturns img) (boot img k saved l) ops := by
  intro hclaim
  have h := hclaim shellImage Kernel.loaded loaded_poweredOn ⟨0, 0⟩ (Locals.zero ⟨0, 0⟩)
    [.execute (Locals.zero ⟨1, 2⟩) (some overlongCommand), .halt (Locals.zero ⟨3, 4⟩) 0]
    (by decide +kernel)
  have hres := (h.2.1.returns _ _ rfl 1 0 [] (by decide +kernel)).2
  revert hres
  decide +kernel

end LmaOS
