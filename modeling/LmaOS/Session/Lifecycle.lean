import LmaOS.Session.Refinement

/-
  Halting, switching and whole runs against the abstract machine.

  * `Refines.unlinked`, `Refines.haltClosed`: taking the top process off the tables is `finish`.
  * `Effect`: everything a call can do to the system, one case per exit of the code.
    `Refines.effect` shows that a proper call, one issued by the running process with an argument
    that fits, does one of these things.
  * `Refines.run`, `boot_invariant`: the refinement, and every invariant the effects keep, hold
    over every proper run.
  * `StepRel img R`: what `perform` keeps whatever the call, from what each part of a call keeps.
-/
namespace LmaOS

open Util Sessions

/-! ## halt -/

theorem haltEnter_eq (k : Kernel) : haltEnter k =
    { k with
      exceptionStatus := if k.exceptionStatus = 256 then 0 else k.exceptionStatus
      terminals := Function.update k.terminals k.curTerm
        { k.term with numProc := k.term.numProc - 1 } } := by
  unfold haltEnter
  dsimp only
  split <;> rfl

theorem haltEnter_term (k : Kernel) :
    (haltEnter k).term = { k.term with numProc := k.term.numProc - 1 } := by
  rw [haltEnter_eq]
  exact Function.update_self _ _ _

/-- The displayed terminal's record after the process `p` was taken off its list. -/
def unlinkedTerm (t : Terminal) (p : Pcb) : Terminal :=
  let i := firstIdx (fun i => decide (t.processes i = p.pid)) 4
  { t with
    numProc := t.numProc - 1
    processes := if i < 4 then Function.update t.processes i (-1) else t.processes
    termProc := some p.parentPid }

theorem unlinked_terminals (k : Kernel) (p : Pcb) (u : Fin 3) :
    (haltUnlink (haltEnter k) p).terminals u =
      if u = k.curTerm then unlinkedTerm k.term p else k.terminals u := by
  unfold haltUnlink
  dsimp only [Kernel.setTerm]
  rw [haltEnter_term, haltEnter_eq]
  dsimp only
  rw [Function.update_apply, Function.update_apply]
  split <;> rfl

theorem unlinked_lastShell (k : Kernel) (p : Pcb) : (haltUnlink (haltEnter k) p).lastShell =
    if k.lastShell k.curTerm = p.pid then
      Function.update k.lastShell k.curTerm (toInt8 p.parentPid)
    else k.lastShell := by
  rw [haltEnter_eq]; rfl

theorem unlinked_processState (k : Kernel) (p : Pcb) :
    (haltUnlink (haltEnter k) p).processState = Function.update k.processState p.pid 0 := by
  rw [haltEnter_eq]; rfl

theorem unlinked_pcbs (k : Kernel) (p : Pcb) : (haltUnlink (haltEnter k) p).pcbs = k.pcbs := by
  rw [haltEnter_eq]; rfl

theorem unlinked_curTerm (k : Kernel) (p : Pcb) :
    (haltUnlink (haltEnter k) p).curTerm = k.curTerm := by
  rw [haltEnter_eq]; rfl

section Halt

variable {k : Kernel} {a : Sessions} {p : Int} {below : List Int}

/-- The top process is listed nowhere below itself. -/
theorem Refines.not_mem_below (h : Refines k a) (hcur : a.current = p :: below) : p ∉ below := by
  have hnd : a.current.Nodup := h.legal.separate.nodup a.shown
  rw [hcur] at hnd
  exact (List.nodup_cons.mp hnd).1

/-- After the top process is unlinked, the last shell is the topmost shell below it. -/
theorem Refines.unlinked_shell (h : Refines k a) (hcur : a.current = p :: below)
    (hne : below ≠ []) : topShell a.born below =
      some ((haltUnlink (haltEnter k) (k.pcbs p)).lastShell a.shown) := by
  have hmem : p ∈ a.stack a.shown := mem_current hcur
  have hlast : topShell a.born (p :: below) = some (k.lastShell a.shown) := by
    rw [← hcur]; exact h.shells a.shown (by rw [← Sessions.current, hcur]; simp)
  have hparent : topShell a.born below = some (k.pcbs p).parentPid := by
    have hab : Above (ParentOf k a.born) (p :: below) := hcur ▸ h.parents a.shown
    exact hab.1.2 hne
  have hrange : 0 ≤ (k.pcbs p).parentPid ∧ (k.pcbs p).parentPid < 6 := by
    refine h.legal.pids a.shown _ ?_
    rw [show a.stack a.shown = p :: below from hcur]
    exact List.mem_cons_of_mem p (mem_of_topShell hparent)
  rw [unlinked_lastShell, (h.pcbs _ p hmem).1, h.shown]
  cases hsh : (a.born p).shell with
  | true =>
    rw [topShell_cons_shell hsh, Option.some.injEq] at hlast
    rw [if_pos hlast.symm, Function.update_self, toInt8_of_range (by omega) (by omega), hparent]
  | false =>
    rw [topShell_cons_program hsh] at hlast
    have hne : k.lastShell a.shown ≠ p := fun he =>
      h.not_mem_below hcur (he ▸ mem_of_topShell hlast)
    rw [if_neg hne, hlast]

theorem Refines.finish_legal (hcur : a.current = p :: below) : Event.finish.Legal a := by
  unfold Event.Legal
  rw [hcur]
  exact List.cons_ne_nil p below

/-- The displayed terminal's record lists the processes below the top one. -/
theorem Refines.unlinked_term (h : Refines k a) (hcur : a.current = p :: below) :
    Holds (-1) 4 (unlinkedTerm k.term (k.pcbs p)).processes below ∧
      (unlinkedTerm k.term (k.pcbs p)).numProc = below.length ∧
      (unlinkedTerm k.term (k.pcbs p)).firstRun = false := by
  have hstack : a.stack a.shown = p :: below := hcur
  have hterm : k.term = k.terminals a.shown := congrArg k.terminals h.shown
  have hpid := (h.pcbs _ p (mem_current hcur)).1
  have hl := h.lists a.shown
  have hc := h.counts a.shown
  rw [hstack] at hl hc
  have hfit := hl.fits
  rw [List.length_cons] at hfit hc
  rw [hterm]
  refine ⟨?_, ?_, ?_⟩
  · unfold unlinkedTerm
    dsimp only
    rw [hpid, hl.findTop (h.not_mem_below hcur), if_pos (by omega)]
    exact hl.pop
  · unfold unlinkedTerm
    dsimp only
    omega
  · refine Bool.eq_false_iff.mpr fun hf => ?_
    have hnil := h.firstRun a.shown hf
    rw [hstack] at hnil
    exact List.cons_ne_nil p below hnil

theorem Refines.unlinked (h : Refines k a) (hcur : a.current = p :: below) :
    Refines (haltUnlink (haltEnter k) (k.pcbs p)) (a.apply .finish) := by
  have hstack : a.stack a.shown = p :: below := hcur
  have hterm := h.unlinked_term hcur
  have hpid := (h.pcbs _ p (mem_current hcur)).1
  have htail : a.current.tail = below := by rw [hcur]; rfl
  have hgone := h.legal.separate.not_mem_pop hstack
  have hpop : ∀ u q, q ∈ Function.update a.stack a.shown below u → q ∈ a.stack u :=
    fun u q hq => mem_update_pop hstack hq
  refine
    { legal := h.legal.apply (Refines.finish_legal hcur)
      shown := (unlinked_curTerm k _).trans h.shown
      lists := fun u => ?_, counts := fun u => ?_, firstRun := fun u => ?_, slots := fun q => ?_
      active := fun u q hq => ?_, pcbs := fun u q hq => ?_, parents := fun u => ?_
      shells := fun u hne => ?_ }
  · rw [unlinked_terminals, apply_finish_stack, htail, Function.update_apply, h.shown]
    split
    · exact hterm.1
    · exact h.lists u
  · rw [unlinked_terminals, apply_finish_stack, htail, Function.update_apply, h.shown]
    split
    · exact hterm.2.1
    · exact h.counts u
  · rw [unlinked_terminals, apply_finish_stack, htail, Function.update_apply, h.shown]
    split
    · exact fun hf => absurd (hterm.2.2.symm.trans hf) Bool.false_ne_true
    · exact h.firstRun u
  · rw [unlinked_processState, Function.update_apply]
    split
    · exact Or.inl rfl
    · exact h.slots q
  · rw [apply_finish_stack, htail] at hq
    rw [unlinked_processState, hpid, Function.update_of_ne (fun he : q = p => hgone u (he ▸ hq))]
    exact h.active u q (hpop u q hq)
  · rw [apply_finish_stack, htail] at hq
    unfold PcbOf
    rw [unlinked_pcbs]
    exact h.pcbs u q (hpop u q hq)
  · have hsame : ∀ u, Above (ParentOf (haltUnlink (haltEnter k) (k.pcbs p)) a.born) (a.stack u) :=
      fun u => (h.parents u).mono fun q _ _ _ =>
        ParentOf.congr (by rw [unlinked_pcbs]) fun _ _ => rfl
    rw [apply_finish_stack, apply_finish_born, htail, Function.update_apply]
    split
    · have hab := hsame a.shown
      rw [hstack] at hab
      exact hab.2
    · exact hsame u
  · rw [apply_finish_stack, htail, Function.update_apply] at hne
    rw [apply_finish_stack, apply_finish_born, htail, Function.update_apply]
    by_cases hu : u = a.shown
    · rw [if_pos hu] at hne ⊢
      rw [hu]
      exact h.unlinked_shell hcur hne
    · rw [if_neg hu] at hne ⊢
      rw [unlinked_lastShell, h.shown]
      split
      · rw [Function.update_of_ne hu]; exact h.shells u hne
      · exact h.shells u hne

theorem haltClosed_fileCall (k : Kernel) (p : Int) :
    FileCall (haltUnlink (haltEnter k) (k.pcbs p)) (haltClosed k p) :=
  (fileCall_closingRel p).closeSteps _ _

theorem Refines.haltClosed (h : Refines k a) (hcur : a.current = p :: below) :
    Refines (haltClosed k p) (a.apply .finish) :=
  (h.unlinked hcur).same (haltClosed_fileCall k p).sameTables

/-- Under the refinement `halt` never reports an inactive process. -/
theorem Refines.halt_eq (h : Refines k a) (hcur : a.current = p :: below) (img : Image)
    (l : Locals) (status : UInt8) : halt img k l status =
      haltEnd img (LmaOS.haltClosed k p) l p (decide (below = []))
        (if k.exceptionStatus = 256 then 256 else status.toNat) := by
  have hmem : p ∈ a.stack a.shown := mem_current hcur
  have hact : (haltEnter k).processState (k.pcbs p).pid = 1 := by
    rw [haltEnter_eq, (h.pcbs _ p hmem).1]; exact h.active _ p hmem
  have hnum : (haltEnter k).term.numProc = below.length := by
    have hc := h.counts a.shown
    rw [show a.stack a.shown = p :: below from hcur, List.length_cons] at hc
    rw [haltEnter_term]
    dsimp only
    rw [Kernel.term, h.shown, hc]
    omega
  unfold LmaOS.halt
  dsimp only
  rw [h.getPcbAddress hcur, hact, if_neg (by decide), hnum]
  congr 1
  rw [decide_eq_decide, Int.natCast_eq_zero, List.length_eq_zero_iff]

/-- Loading the parent's page and stack changes none of the tables. -/
theorem loadParent_sameTables (k : Kernel) (pid : Int) : SameTables k (loadParent k pid) :=
  ⟨rfl, fun _ => rfl, fun _ => rfl, fun _ => rfl, rfl, rfl, fun _ => ⟨rfl, rfl, rfl, rfl⟩⟩

theorem parse_shellCommand : parse shellCommand = some (shellName, []) := by decide

theorem shellCommand_fits (l : Locals) : ArgFits (.execute l (some shellCommand)) := by
  intro name arg h
  rw [parse_shellCommand, Option.some.injEq, Prod.mk.injEq] at h
  rw [← h.2]
  decide

theorem isShell_shellCommand : isShell (some shellCommand) = true := by decide

theorem ExecuteFailed.result {r : Kernel × Option Int} (h : ExecuteFailed k r) : r.2 = none := by
  obtain ⟨_, _, _, _, rfl⟩ := h
  rfl

/-- The kernel's own `execute("shell")`. -/
theorem Refines.baseShell (h : Refines k a) (img : Image) (l : Locals) :
    ExecuteFailed k (execute img k l (some shellCommand)) ∨
      ∃ pid, (execute img k l (some shellCommand)).2 = some pid ∧
        Started k (execute img k l (some shellCommand)).1 pid true l.regs := by
  rcases execute_cases img k l (some shellCommand) with hf | hs
  · exact Or.inl hf
  · exact Or.inr (isShell_shellCommand ▸ h.hasStarted hs (shellCommand_fits l))

theorem haltEnd_program (img : Image) (k : Kernel) (l : Locals) (pid : Int) (v : Nat) :
    haltEnd img k l pid false v =
      (loadParent k pid, .resumed (k.pcbs pid).parentEbp (k.pcbs pid).parentEsp v) := rfl

theorem Refines.haltEnd_base (h : Refines k a) (img : Image) (l : Locals) (pid : Int) (v : Nat) :
    (∃ new, (haltEnd img k l pid true v).2 = .restarted new ∧
      Started k (haltEnd img k l pid true v).1 new true l.regs) ∨
    (∃ r ebp esp, haltEnd img k l pid true v = (loadParent r.1 pid, .resumed ebp esp v) ∧
      ExecuteFailed k r ∧ r = execute img k l (some shellCommand)) := by
  unfold haltEnd
  rw [if_pos rfl]
  rcases h.baseShell img l with hf | ⟨new, hsome, hs⟩
  · right
    have hnone := hf.result
    generalize execute img k l (some shellCommand) = r at hnone hf
    obtain ⟨k', _⟩ := r
    obtain rfl : _ = none := hnone
    exact ⟨_, _, _, rfl, hf, rfl⟩
  · left
    generalize execute img k l (some shellCommand) = r at hsome hs
    obtain ⟨k', _⟩ := r
    obtain rfl : _ = some new := hsome
    exact ⟨new, rfl, hs⟩

end Halt

/-! ## switch_terminal -/

theorem saveTerminal_terminals (k : Kernel) (saved : Regs) (tid u : Fin 3) :
    ∃ x y b i, (saveTerminal k saved tid).terminals u =
      { k.terminals u with screenX := x, screenY := y, kbBuffer := b, kbBufferIndex := i } := by
  unfold saveTerminal
  dsimp only [Kernel.setTerm, Kernel.setPcb]
  rw [Function.update_apply]
  split
  · subst u; exact ⟨_, _, _, _, rfl⟩
  · exact ⟨_, _, _, _, rfl⟩

theorem saveTerminal_pcbs (k : Kernel) (saved : Regs) (tid : Fin 3) (p : Int) :
    ∃ ebp esp, (saveTerminal k saved tid).pcbs p =
      { k.pcbs p with ebp := ebp, esp := esp } := by
  unfold saveTerminal
  dsimp only [Kernel.setTerm, Kernel.setPcb]
  rw [Function.update_apply]
  split
  · subst p; exact ⟨_, _, rfl⟩
  · exact ⟨_, _, rfl⟩

theorem saveTerminal_sameTables (k : Kernel) (saved : Regs) (tid : Fin 3) :
    SameTables k (saveTerminal k saved tid) := by
  refine ⟨rfl, fun u => ?_, fun u => ?_, fun u => ?_, rfl, rfl, fun p => ?_⟩
  · obtain ⟨_, _, _, _, h⟩ := saveTerminal_terminals k saved tid u; rw [h]
  · obtain ⟨_, _, _, _, h⟩ := saveTerminal_terminals k saved tid u; rw [h]
  · obtain ⟨_, _, _, _, h⟩ := saveTerminal_terminals k saved tid u; rw [h]
  · obtain ⟨_, _, h⟩ := saveTerminal_pcbs k saved tid p; rw [h]; exact ⟨rfl, rfl, rfl, rfl⟩

/-- The kernel after `switch_terminal` up to its test of `first_run`. -/
def displayed (k : Kernel) (saved : Regs) (tid : Fin 3) : Kernel :=
  switchExecution (restoreTerminal (saveTerminal k saved tid) tid)

theorem switchTerminal_eq (img : Image) (k : Kernel) (saved : Regs) (l : Locals) (tid : Fin 3) :
    switchTerminal img k saved l tid =
      if (displayed k saved tid).term.firstRun then
        execute img (displayed k saved tid) l (some shellCommand)
      else (displayed k saved tid, none) := rfl

theorem Refines.displayed {k : Kernel} {a : Sessions} (h : Refines k a) (saved : Regs)
    (tid : Fin 3) : Refines (displayed k saved tid) (a.apply (.display tid)) := by
  have hsave := h.same (saveTerminal_sameTables k saved tid)
  exact
    { legal := ⟨h.legal.separate, h.legal.depth, h.legal.pids, h.legal.started⟩
      shown := rfl
      lists := hsave.lists
      counts := hsave.counts
      firstRun := hsave.firstRun
      slots := hsave.slots
      active := hsave.active
      pcbs := hsave.pcbs
      parents := hsave.parents
      shells := hsave.shells }

/-! ## What a step does -/

/-- The state in which `halt` is entered: by the system call, or by an exception handler that
    printed its message and set the flag. -/
def Kernel.Entering (k k' : Kernel) : Prop :=
  ∃ screen status, k' = { k with screen := screen, exceptionStatus := status }

/-- What `halt` does that was entered in `k₀` by the process `p` with `below` under it. -/
inductive HaltEffect (img : Image) (k₀ : Kernel) (p : Int) :
    List Int → List Event → Kernel → Prop where
  /-- The process is not alone on its terminal. -/
  | resumed {below : List Int} (hne : below ≠ []) :
      HaltEffect img k₀ p below [.finish] (loadParent (haltClosed k₀ p) p)
  /-- A base shell halts and a new one is started. -/
  | restarted {k' : Kernel} {new : Int} {regs : Regs}
      (h : Started (haltClosed k₀ p) k' new true regs) :
      HaltEffect img k₀ p [] [.finish, .start new ⟨true, regs, none⟩] k'
  /-- A base shell halts and no new one can be started. -/
  | lost {l : Locals} {r : Kernel × Option Int} (h : ExecuteFailed (haltClosed k₀ p) r)
      (hr : r = execute img (haltClosed k₀ p) l (some shellCommand)) :
      HaltEffect img k₀ p [] [.finish] (loadParent r.1 p)

/-- Everything a call can do to the system: the events it reports and the kernel it leaves. -/
inductive Effect (img : Image) (s : Sys) : List Event → Kernel → Prop where
  /-- A file system call. -/
  | call {k' : Kernel} (hcur : s.sessions.current ≠ [])
      (h : ActsOn (getPcbAddress s.kernel) s.kernel k') : Effect img s [] k'
  | devices (screen : Screen) (keyboard : Keyboard) :
      Effect img s [] { s.kernel with screen := screen, keyboard := keyboard }
  | failed {r : Kernel × Option Int} (h : ExecuteFailed s.kernel r) : Effect img s [] r.1
  | started {k' : Kernel} {pid : Int} {shell : Bool} {regs : Regs}
      (hcur : s.sessions.current ≠ []) (h : Started s.kernel k' pid shell regs) :
      Effect img s [.start pid ⟨shell, regs, s.sessions.current.head?⟩] k'
  | halted {k₀ k' : Kernel} {p : Int} {below : List Int} {es : List Event}
      (hin : s.kernel.Entering k₀) (hcur : s.sessions.current = p :: below)
      (h : HaltEffect img k₀ p below es k') : Effect img s es k'
  | displayed {saved : Regs} {tid : Fin 3} (hrun : (s.kernel.terminals tid).firstRun = false) :
      Effect img s [.display tid] (displayed s.kernel saved tid)
  /-- The terminal's first shell cannot be started. -/
  | displayedFailed {saved : Regs} {tid : Fin 3} {r : Kernel × Option Int}
      (hnil : s.sessions.stack tid = [])
      (h : ExecuteFailed (LmaOS.displayed s.kernel saved tid) r) :
      Effect img s [.display tid] r.1
  | displayedStarted {saved : Regs} {tid : Fin 3} {k' : Kernel} {pid : Int} {regs : Regs}
      (hnil : s.sessions.stack tid = [])
      (h : Started (LmaOS.displayed s.kernel saved tid) k' pid true regs) :
      Effect img s [.display tid, .start pid ⟨true, regs, none⟩] k'

theorem idtHandler_eq (vector : Nat) (img : Image) (k : Kernel) (l : Locals) :
    ∃ screen, idtHandler vector img k l =
      halt img { k with screen := screen, exceptionStatus := exceptionFlag } l 0 := by
  obtain ⟨message, h⟩ := idtHandler_raise vector
  exact ⟨k.screen.printf message, by rw [h]; rfl⟩

theorem sameTables_devices (k : Kernel) (screen : Screen) (keyboard : Keyboard) :
    SameTables k { k with screen := screen, keyboard := keyboard } :=
  ⟨rfl, fun _ => rfl, fun _ => rfl, fun _ => rfl, rfl, rfl, fun _ => ⟨rfl, rfl, rfl, rfl⟩⟩

theorem entering_sameTables {k k' : Kernel} (h : k.Entering k') : SameTables k k' := by
  obtain ⟨screen, status, rfl⟩ := h
  exact ⟨rfl, fun _ => rfl, fun _ => rfl, fun _ => rfl, rfl, rfl, fun _ => ⟨rfl, rfl, rfl, rfl⟩⟩

theorem Refines.halt_effect {img : Image} {k₀ : Kernel} {a : Sessions} (h : Refines k₀ a)
    {p : Int} {below : List Int} (hcur : a.current = p :: below) (l : Locals) (status : UInt8) :
    HaltEffect img k₀ p below (haltEvents l.regs (halt img k₀ l status).2)
      (halt img k₀ l status).1 := by
  rw [h.halt_eq hcur]
  by_cases hne : below = []
  · subst hne
    rw [decide_eq_true rfl]
    rcases (h.haltClosed hcur).haltEnd_base img l p _ with ⟨new, hr, hs⟩ | ⟨r, _, _, hr, hf, he⟩
    · rw [hr]; exact .restarted hs
    · rw [hr]; exact .lost hf he
  · rw [decide_eq_false hne, haltEnd_program]
    exact .resumed hne

/-- The calls that end a process. -/
def Op.isHalt : Op → Bool
  | .halt _ _ | .exception _ _ => true
  | _ => false

/-- Both ways of halting, with the state in which `halt` is entered. -/
theorem Refines.halt_op {s : Sys} (h : Refines s.kernel s.sessions) (img : Image) (op : Op)
    (hop : op.isHalt = true) {p : Int} {below : List Int}
    (hcur : s.sessions.current = p :: below) : ∃ k₀, s.kernel.Entering k₀ ∧
      HaltEffect img k₀ p below (perform img s.kernel op).2 (perform img s.kernel op).1 := by
  cases op with
  | halt l status =>
    exact ⟨s.kernel, ⟨s.kernel.screen, s.kernel.exceptionStatus, rfl⟩,
      h.halt_effect hcur l status⟩
  | exception l vector =>
    obtain ⟨screen, he⟩ := idtHandler_eq vector img s.kernel l
    have hin : s.kernel.Entering
        { s.kernel with screen := screen, exceptionStatus := exceptionFlag } :=
      ⟨screen, exceptionFlag, rfl⟩
    refine ⟨_, hin, ?_⟩
    unfold perform
    dsimp only
    rw [he]
    exact (h.same (entering_sameTables hin)).halt_effect hcur l 0
  | _ => exact absurd hop Bool.false_ne_true

theorem Refines.switch_effect {s : Sys} (h : Refines s.kernel s.sessions) (img : Image)
    (saved : Regs) (l : Locals) (tid : Fin 3) :
    Effect img s (perform img s.kernel (.switchTerminal saved l tid)).2
      (perform img s.kernel (.switchTerminal saved l tid)).1 := by
  have hd := h.displayed saved tid
  unfold perform
  dsimp only
  rw [switchTerminal_eq]
  by_cases hf : (LmaOS.displayed s.kernel saved tid).term.firstRun = true
  · have hnil : s.sessions.stack tid = [] := hd.firstRun tid hf
    rw [if_pos hf]
    rcases hd.baseShell img l with hfail | ⟨pid, hsome, hs⟩
    · rw [hfail.result]; exact .displayedFailed hnil hfail
    · rw [hsome]; exact .displayedStarted hnil hs
  · have hrun : (s.kernel.terminals tid).firstRun = false := by
      rw [← (saveTerminal_sameTables s.kernel saved tid).firstRun, ← Bool.not_eq_true]
      exact hf
    rw [if_neg hf]
    exact .displayed hrun

/-- Every proper step has one of these effects. -/
theorem Refines.effect {img : Image} {s : Sys} (h : Refines s.kernel s.sessions) {op : Op}
    (hok : s.Proper op) : Effect img s (perform img s.kernel op).2 (perform img s.kernel op).1 := by
  obtain ⟨hi, hfits⟩ := hok
  have hcur : s.kernel.procs s.kernel.curTerm ≠ [] → s.sessions.current ≠ [] := by
    rw [h.current]; exact id
  unfold perform
  cases op with
  | execute l command =>
    rcases execute_cases img s.kernel l command with hf | hs
    · dsimp only
      rw [hf.result]
      exact .failed hf
    · obtain ⟨pid, hsome, hst⟩ := h.hasStarted hs hfits
      dsimp only
      rw [hsome, h.current]
      exact .started (hcur hi) hst
  | halt l status =>
    obtain ⟨p, below, hp⟩ := List.exists_cons_of_ne_nil (hcur hi)
    obtain ⟨k₀, hin, he⟩ := h.halt_op img (.halt l status) rfl hp
    exact .halted hin hp he
  | exception l vector =>
    obtain ⟨p, below, hp⟩ := List.exists_cons_of_ne_nil (hcur hi)
    obtain ⟨k₀, hin, he⟩ := h.halt_op img (.exception l vector) rfl hp
    exact .halted hin hp he
  | openCall dentry filename => exact .call (hcur hi) (openCall_actsOn img s.kernel dentry filename)
  | close fd => exact .call (hcur hi) (close_actsOnFiles s.kernel fd).actsOn
  | read dentry tail fd buf nbytes =>
    dsimp only
    cases hr : read img s.kernel dentry tail fd buf nbytes with
    | none => exact .call (hcur hi) (ActsOn.refl _ _)
    | some r =>
      exact .call (hcur hi) (read_actsOnFiles img s.kernel dentry tail fd buf nbytes hr).actsOn
  | write fd buf nbytes =>
    exact .call (hcur hi) (write_actsOnFiles s.kernel _ fd buf nbytes).actsOn
  | getargs buf nbytes => exact .call (hcur hi) (ActsOn.refl _ _)
  | switchTerminal saved l tid => exact h.switch_effect img saved l tid
  | devices screen keyboard => exact .devices screen keyboard

/-! ## Steps and runs -/

theorem current_finish {a : Sessions} {p : Int} {below : List Int} (hcur : a.current = p :: below) :
    (a.apply .finish).current = below := by
  rw [current, apply_finish_stack, apply_finish_shown, Function.update_self, hcur]
  rfl

theorem mem_finish {a : Sessions} {p q : Int} {below : List Int} {u : Fin 3}
    (hcur : a.current = p :: below) (hq : q ∈ a.stack u) (hne : q ≠ p) :
    q ∈ (a.apply .finish).stack u := by
  rw [apply_finish_stack, Function.update_apply, hcur]
  split
  · subst u
    rw [show a.stack a.shown = p :: below from hcur] at hq
    exact (List.mem_cons.mp hq).resolve_left hne
  · exact hq

theorem Effect.refines {img : Image} {s : Sys} {es : List Event} {k' : Kernel}
    (h : Refines s.kernel s.sessions) (he : Effect img s es k') :
    Refines k' (es.foldl Sessions.apply s.sessions) := by
  cases he with
  | call _ hact => exact h.same hact.fileCall.sameTables
  | devices screen keyboard =>
    exact h.same (sameTables_devices s.kernel screen keyboard)
  | failed hf => exact h.failed hf
  | started hcur hs => exact h.started hs (fun hnil => absurd hnil hcur) rfl
  | halted hin hcur he =>
    have hclosed := (h.same (entering_sameTables hin)).haltClosed hcur
    cases he with
    | resumed hne => exact hclosed.same (loadParent_sameTables _ _)
    | restarted hs =>
      refine hclosed.started hs (fun _ => rfl) ?_
      rw [current_finish hcur]
      rfl
    | lost hf hr => exact (hclosed.failed hf).same (loadParent_sameTables _ _)
  | displayed hrun => exact h.displayed _ _
  | displayedFailed hnil hf => exact (h.displayed _ _).failed hf
  | displayedStarted hnil hs =>
    refine (h.displayed _ _).started hs (fun _ => rfl) ?_
    rw [current, apply_display_stack, apply_display_shown, hnil]
    rfl

/-- One step of the kernel is matched by its events. -/
theorem Refines.step {img : Image} {s : Sys} (h : Refines s.kernel s.sessions) {op : Op}
    (hok : s.Proper op) : Refines (s.step img op).kernel (s.step img op).sessions :=
  (h.effect hok).refines h

/-- The refinement holds over every proper run. -/
theorem Refines.run {img : Image} {s : Sys} (h : Refines s.kernel s.sessions) {ops : List Op}
    (hrun : Allowed (Sys.step img) Sys.Proper s ops) :
    Refines (runFrom (Sys.step img) s ops).kernel (runFrom (Sys.step img) s ops).sessions :=
  hrun.invariant (fun s => Refines s.kernel s.sessions) (fun _ _ hs hok => hs.step hok) h

/-! ## What every call keeps -/

/-- A relation between kernels that the parts of all calls stay in, whoever calls. -/
structure StepRel (img : Image) (R : Kernel → Kernel → Prop) : Prop where
  trans : ∀ {k k' k''}, R k k' → R k' k'' → R k k''
  devices : ∀ k screen keyboard status,
    R k { k with screen := screen, keyboard := keyboard, exceptionStatus := status }
  opens : ∀ k dentry filename, R k (openCall img k dentry filename).2
  closes : ∀ k fd, R k (close k fd).2
  reads : ∀ k dentry tail fd buf nbytes r,
    read img k dentry tail fd buf nbytes = some r → R k r.kernel
  writes : ∀ k fd buf nbytes, R k (write k fd buf nbytes).2
  executes : ∀ k l command, R k (execute img k l command).1
  enters : ∀ k, R k (haltEnter k)
  unloads : ∀ k pid, R k (haltClosed k pid)
  resumes : ∀ k pid, R k (loadParent k pid)
  displays : ∀ k saved tid, R k (LmaOS.displayed k saved tid)

namespace StepRel

variable {img : Image} {R : Kernel → Kernel → Prop}

theorem refl (h : StepRel img R) (k : Kernel) : R k k :=
  h.devices k k.screen k.keyboard k.exceptionStatus

theorem halt (h : StepRel img R) (k : Kernel) (l : Locals) (status : UInt8) :
    R k (LmaOS.halt img k l status).1 := by
  unfold LmaOS.halt
  dsimp only
  split
  · exact h.trans (h.enters k) (h.devices _ _ _ _)
  · refine h.trans (h.unloads k (getPcbAddress k)) ?_
    generalize haltClosed k (getPcbAddress k) = k'
    have hshell := h.executes k' l (some shellCommand)
    unfold haltEnd
    split <;> rename_i heq
    all_goals split at heq
    · rw [heq] at hshell
      exact hshell
    · cases heq
    · rw [heq] at hshell
      exact h.trans hshell (h.resumes _ _)
    · cases heq
      exact h.resumes _ _

/-- Every call, by whatever process. -/
theorem perform (h : StepRel img R) (k : Kernel) (op : Op) : R k (LmaOS.perform img k op).1 := by
  cases op with
  | execute l command => exact h.executes k l command
  | halt l status => exact h.halt k l status
  | exception l vector =>
    obtain ⟨screen, he⟩ := idtHandler_eq vector img k l
    rw [LmaOS.perform, he]
    exact h.trans (h.devices k screen k.keyboard exceptionFlag) (h.halt _ l 0)
  | openCall dentry filename => exact h.opens k dentry filename
  | close fd => exact h.closes k fd
  | read dentry tail fd buf nbytes =>
    rw [LmaOS.perform]
    split
    · rename_i hr
      exact h.reads k dentry tail fd buf nbytes _ hr
    · exact h.refl k
  | write fd buf nbytes => exact h.writes k fd buf nbytes
  | getargs buf nbytes => exact h.refl k
  | switchTerminal saved l tid =>
    rw [LmaOS.perform, switchTerminal_eq]
    split
    · exact h.trans (h.displays k saved tid) (h.executes _ l _)
    · exact h.displays k saved tid
  | devices screen keyboard => exact h.devices k screen keyboard k.exceptionStatus

end StepRel

/-! ## Boot -/

/-- The system when `terminal_init` is done and the screen is cleared. -/
def initial (k : Kernel) : Sys where
  kernel :=
    { terminalInit k with
      screen := ((terminalInit k).screen.clear.setScreenX 0).setScreenY 0 }
  sessions := Sessions.empty

/-- The last step of the boot sequence displays terminal 0. -/
theorem boot_eq (img : Image) (k : Kernel) (saved : Regs) (l : Locals) :
    boot img k saved l = (initial k).step img (.switchTerminal saved l 0) := rfl

theorem initial_refines {k : Kernel} (hk : k.PoweredOn) :
    Refines (initial k).kernel (initial k).sessions where
  legal := legal_empty
  shown := rfl
  lists := fun u => holds_nil fun i hi => by
    show (if i < 4 then (-1 : Int) else _) = -1
    rw [if_pos hi]
  counts := fun _ => rfl
  firstRun := fun _ _ => rfl
  slots := fun p => Or.inl (hk.1 p)
  active := fun _ _ hp => absurd hp List.not_mem_nil
  pcbs := fun _ _ hp => absurd hp List.not_mem_nil
  parents := fun _ => trivial
  shells := fun _ hne => absurd rfl hne

theorem boot_refines {k : Kernel} (hk : k.PoweredOn) (img : Image) (saved : Regs) (l : Locals) :
    Refines (boot img k saved l).kernel (boot img k saved l).sessions := by
  rw [boot_eq]
  exact ((initial_refines hk).switch_effect img saved l 0).refines (initial_refines hk)

section Boot

variable {img : Image} {ok : Sys → Op → Prop} {k : Kernel} {saved : Regs}
  {l : Locals} {ops : List Op}

/-- An invariant that the effects of the steps allowed by `ok` keep holds over every such run from
    boot. -/
theorem boot_invariant (Inv : Sys → Prop) (hproper : ∀ s op, ok s op → s.Proper op)
    (hkeep : ∀ s op, Refines s.kernel s.sessions → Inv s → ok s op →
      Effect img s (perform img s.kernel op).2 (perform img s.kernel op).1 → Inv (s.step img op))
    (hk : k.PoweredOn) (h : Inv (boot img k saved l))
    (hrun : Allowed (Sys.step img) ok (boot img k saved l) ops) :
    Refines (runFrom (Sys.step img) (boot img k saved l) ops).kernel
        (runFrom (Sys.step img) (boot img k saved l) ops).sessions ∧
      Inv (runFrom (Sys.step img) (boot img k saved l) ops) :=
  hrun.invariant (fun s => Refines s.kernel s.sessions ∧ Inv s)
    (fun s op hs hok => ⟨hs.1.step (hproper s op hok),
      hkeep s op hs.1 hs.2 hok (hs.1.effect (hproper s op hok))⟩)
    ⟨boot_refines hk img saved l, h⟩

/-- Likewise for what every step does. -/
theorem boot_steps (Inv : Sys → Prop) {P : Sys → Op → Prop}
    (hproper : ∀ s op, ok s op → s.Proper op)
    (hkeep : ∀ s op, Refines s.kernel s.sessions → Inv s → ok s op →
      Effect img s (perform img s.kernel op).2 (perform img s.kernel op).1 → Inv (s.step img op))
    (hP : ∀ s op, Refines s.kernel s.sessions → Inv s → ok s op → P s op)
    (hk : k.PoweredOn) (h : Inv (boot img k saved l))
    (hrun : Allowed (Sys.step img) ok (boot img k saved l) ops) :
    Allowed (Sys.step img) P (boot img k saved l) ops :=
  hrun.steps (fun s => Refines s.kernel s.sessions ∧ Inv s)
    (fun s op hs hok => ⟨hs.1.step (hproper s op hok),
      hkeep s op hs.1 hs.2 hok (hs.1.effect (hproper s op hok))⟩)
    (fun s op hs hok => hP s op hs.1 hs.2 hok) ⟨boot_refines hk img saved l, h⟩

end Boot

end LmaOS
