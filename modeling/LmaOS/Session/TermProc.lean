import LmaOS.Session.AddressSpace
import LmaOS.Session.Tables

/-
  The process pointer `term_proc` of each terminal.

  `execute` stores the new PCB under two terminals, the displayed one and `running_term`, and
  `halt` stores the PCB of `parent_pid` under the displayed one.

  * `Pointers`: the stacks and pointers of the terminals for themselves; which stores keep every
    pointer at the top of its own stack (`Pointers.start_iff`, `Pointers.finish_iff`).
  * `Traced`: the system and the terminals a process was ever started on, which no kernel variable
    records once a terminal has lost its processes.
  * `term_proc_owned_iff`: from a state in which every pointer is right, all states of a run have
    that property if and only if every step stores under one terminal only (`Sys.OwnTerminal`).
    The boot sequence displays terminal 0 and runs terminal 1, so its first shell breaks it
    (`term_proc_stray`).
-/
namespace LmaOS

open Util Sessions

/-! ## Stacks and pointers -/

/-- Per terminal: whether a process was ever started there, the stack, and the pointer. -/
structure Pointers where
  ran : Fin 3 → Bool
  stack : Fin 3 → List Int
  proc : Fin 3 → Option Int

namespace Pointers

/-- The pointer is `NULL` if nothing ever ran, else the top process. -/
def OwnsAt (t : Pointers) (u : Fin 3) : Prop :=
  (t.ran u = false → t.proc u = none) ∧
    (t.ran u = true → t.stack u ≠ [] ∧ t.proc u = (t.stack u).head?)

instance (t : Pointers) (u : Fin 3) : Decidable (t.OwnsAt u) :=
  inferInstanceAs (Decidable ((_ → _) ∧ (_ → _)))

def Owned (t : Pointers) : Prop := ∀ u, t.OwnsAt u

instance (t : Pointers) : Decidable t.Owned := inferInstanceAs (Decidable (∀ u, t.OwnsAt u))

/-- `t'` has every pointer right, and only the one of `d` is not the one of `t`. -/
def OwnedStep (t t' : Pointers) (d : Fin 3) : Prop :=
  t'.Owned ∧ ∀ u, u ≠ d → t'.proc u = t.proc u

instance (t t' : Pointers) (d : Fin 3) : Decidable (t.OwnedStep t' d) :=
  inferInstanceAs (Decidable (_ ∧ _))

/-- `pid` is pushed on `d` and stored under `d` and `r`. -/
def start (t : Pointers) (d r : Fin 3) (pid : Int) : Pointers where
  ran := Function.update t.ran d true
  stack := Function.update t.stack d (pid :: t.stack d)
  proc := Function.update (Function.update t.proc d (some pid)) r (some pid)

/-- The top of `d` is popped and `parent` stored under `d`. -/
def finish (t : Pointers) (d : Fin 3) (parent : Int) : Pointers where
  ran := t.ran
  stack := Function.update t.stack d (t.stack d).tail
  proc := Function.update t.proc d (some parent)

theorem OwnsAt.congr {t t' : Pointers} {u : Fin 3} (h : t.OwnsAt u) (hran : t'.ran u = t.ran u)
    (hstack : t'.stack u = t.stack u) (hproc : t'.proc u = t.proc u) : t'.OwnsAt u := by
  unfold OwnsAt
  rw [hran, hstack, hproc]
  exact h

/-- A pointer that is right does not name a process outside its stack. -/
theorem OwnsAt.ne_some {t : Pointers} {u : Fin 3} (h : t.OwnsAt u) {pid : Int}
    (hpid : pid ∉ t.stack u) : t.proc u ≠ some pid := by
  intro hp
  cases hran : t.ran u with
  | false => exact Option.some_ne_none pid (hp.symm.trans (h.1 hran))
  | true => exact hpid (List.mem_of_mem_head? ((h.2 hran).2.symm.trans hp))

/-- A process started on `d` leaves the pointers right exactly if it is stored under `d` only. -/
theorem start_iff {t : Pointers} {d r : Fin 3} {pid : Int} (h : ∀ u, u ≠ d → t.OwnsAt u)
    (hfresh : ∀ u, pid ∉ t.stack u) : t.OwnedStep (t.start d r pid) d ↔ d = r := by
  constructor
  · rintro ⟨_, hothers⟩
    by_contra hne
    have hr : (t.start d r pid).proc r = some pid := Function.update_self _ _ _
    rw [hothers r (Ne.symm hne)] at hr
    exact (h r (Ne.symm hne)).ne_some (hfresh r) hr
  · rintro rfl
    have hproc : ∀ u, u ≠ d → (t.start d d pid).proc u = t.proc u := fun u hu => by
      unfold start
      dsimp only
      rw [Function.update_of_ne hu, Function.update_of_ne hu]
    refine ⟨fun u => ?_, hproc⟩
    by_cases hu : u = d
    · subst hu
      have hran : (t.start u u pid).ran u = true := Function.update_self _ _ _
      have hstack : (t.start u u pid).stack u = pid :: t.stack u := Function.update_self _ _ _
      have hself : (t.start u u pid).proc u = some pid := Function.update_self _ _ _
      refine ⟨fun hf => absurd (hran.symm.trans hf) (by decide), fun _ => ?_⟩
      rw [hstack, hself]
      exact ⟨List.cons_ne_nil _ _, rfl⟩
    · exact (h u hu).congr (Function.update_of_ne hu _ _) (Function.update_of_ne hu _ _)
        (hproc u hu)

/-- The top process of `d` ends: right exactly if the process below is stored. -/
theorem finish_iff {t : Pointers} {d : Fin 3} (h : ∀ u, u ≠ d → t.OwnsAt u)
    (hran : t.ran d = true) (parent : Int) :
    t.OwnedStep (t.finish d parent) d ↔ (t.stack d).tail.head? = some parent := by
  have hproc : ∀ u, u ≠ d → (t.finish d parent).proc u = t.proc u :=
    fun u hu => Function.update_of_ne hu _ _
  have hstack : (t.finish d parent).stack d = (t.stack d).tail := Function.update_self _ _ _
  have hparent : (t.finish d parent).proc d = some parent := Function.update_self _ _ _
  have hself : (t.finish d parent).OwnsAt d ↔ (t.stack d).tail.head? = some parent := by
    unfold OwnsAt
    rw [hstack, hparent, show (t.finish d parent).ran d = true from hran]
    constructor
    · exact fun hd => (hd.2 rfl).2.symm
    · refine fun hd => ⟨fun hf => absurd hf (by decide), fun _ => ⟨fun hnil => ?_, hd.symm⟩⟩
      rw [hnil] at hd
      cases hd
  constructor
  · exact fun hs => hself.mp (hs.1 d)
  · intro hd
    refine ⟨fun u => ?_, hproc⟩
    by_cases hu : u = d
    · exact hu ▸ hself.mpr hd
    · exact (h u hu).congr rfl (Function.update_of_ne hu _ _) (hproc u hu)

end Pointers

/-! ## The pointers of the kernel -/

def Event.isStart : Event → Bool
  | .start _ _ => true
  | .finish | .display _ => false

/-- The terminals a process was ever started on, after events on the displayed terminal `d`. -/
def ranAfter (ran : Fin 3 → Bool) (d : Fin 3) (es : List Event) : Fin 3 → Bool :=
  fun u => ran u || decide (u = d) && es.any Event.isStart

theorem ranAfter_of_start {es : List Event} (h : es.any Event.isStart = true) (ran : Fin 3 → Bool)
    (d : Fin 3) : ranAfter ran d es = Function.update ran d true := by
  funext u
  unfold ranAfter
  rw [h, Function.update_apply]
  by_cases hu : u = d
  · rw [if_pos hu, decide_eq_true hu, Bool.and_self, Bool.or_true]
  · rw [if_neg hu, decide_eq_false hu, Bool.false_and, Bool.or_false]

theorem ranAfter_of_no_start {es : List Event} (h : es.any Event.isStart = false)
    (ran : Fin 3 → Bool) (d : Fin 3) : ranAfter ran d es = ran := by
  funext u
  unfold ranAfter
  rw [h, Bool.and_false, Bool.or_false]

/-- What the kernel's tables say. -/
def Kernel.pointers (k : Kernel) (ran : Fin 3 → Bool) : Pointers where
  ran := ran
  stack := k.procs
  proc := fun u => (k.terminals u).termProc

theorem newTerminals_termProc (k : Kernel) (pid : Int) :
    (fun u => (k.newTerminals pid u).termProc) =
    Function.update (Function.update (fun u => (k.terminals u).termProc) k.curTerm (some pid))
      k.runningTerm (some pid) := by
  funext u
  unfold Kernel.newTerminals
  simp only [Function.update_apply]
  split
  · rfl
  · split <;> rfl

theorem execute_curTerm {img : Image} {k : Kernel} {l : Locals} {command : Option CString} :
    (execute img k l command).1.curTerm = k.curTerm := by
  rcases execute_cases img k l command with ⟨_, _, _, _, hr⟩ | ⟨_, _, _, _, _, _, _, _, _, hr⟩
  · rw [hr]
  · rw [hr]; rfl

theorem executeFailed_of_none {img : Image} {k : Kernel} {l : Locals} {command : Option CString}
    (h : (execute img k l command).2 = none) : ExecuteFailed k (execute img k l command) := by
  rcases execute_cases img k l command with hf | ⟨_, _, _, _, _, _, _, _, _, hr⟩
  · exact hf
  · rw [hr] at h
    cases h

/-- The kernel's own `execute("shell")` starts a process if a slot is free and the image has an
    executable "shell". -/
theorem starts_shell_iff {img : Image} {k : Kernel} {l : Locals} (hfree : k.allActive = false)
    (hroom : k.term.numProc ≤ 3) :
    Starts img k l (some shellCommand) ↔ Loadable img l shellName := by
  have hparsed : ∀ parsed, parsed ∈ (some shellCommand).bind parse ↔ parsed = (shellName, []) := by
    intro parsed
    rw [Option.bind_some, parse_shellCommand, Option.mem_def, Option.some.injEq, eq_comm]
  constructor
  · rintro ⟨_, _, _, parsed, hparse, hload⟩
    rw [(hparsed parsed).mp hparse] at hload
    exact hload
  · intro hload
    exact ⟨⟨shellCommand, rfl, by decide⟩, hfree, hroom, _, (hparsed _).mpr rfl, hload⟩

section Start

variable {img : Image} {k : Kernel} {a : Sessions} {l : Locals} {command : Option CString}

theorem execute_termProc {pid : Int} (hpid : (execute img k l command).2 = some pid) :
    (fun u => ((execute img k l command).1.terminals u).termProc) =
      Function.update (Function.update (fun u => (k.terminals u).termProc) k.curTerm (some pid))
        k.runningTerm (some pid) := by
  obtain ⟨cmd, name, arg, _, _, _, _, rfl, _, _, hk⟩ := execute_started hpid
  rw [hk]
  exact newTerminals_termProc k.claimed k.freePid

/-- The new process is pushed on the displayed terminal's stack. -/
theorem Refines.start_procs (h : Refines k a) (hfits : ArgFits (.execute l command))
    (hbase : a.current = [] → isShell command = true) {pid : Int}
    (hpid : (execute img k l command).2 = some pid) : (∀ u, pid ∉ k.procs u) ∧
      (execute img k l command).1.procs =
        Function.update k.procs k.curTerm (pid :: k.procs k.curTerm) := by
  have hprocs : k.procs = a.stack := funext h.procs
  rcases execute_cases img k l command with hf | hs
  · rw [hf.result] at hpid
    cases hpid
  · obtain ⟨new, hnew, hst⟩ := h.hasStarted hs hfits
    obtain rfl : new = pid := Option.some.inj (hnew.symm.trans hpid)
    refine ⟨fun u hm => h.fresh hst.free.2.2 (h.procs u ▸ hm) rfl, funext fun u => ?_⟩
    rw [(h.started hst hbase rfl).procs, apply_start_stack, hprocs, h.shown]

/-- A started process leaves the pointers right exactly on the running terminal. -/
theorem Refines.start_ownedStep (h : Refines k a) (hfits : ArgFits (.execute l command))
    (hbase : a.current = [] → isShell command = true) {pid : Int}
    (hpid : (execute img k l command).2 = some pid) {t : Pointers}
    (howns : ∀ u, u ≠ k.curTerm → t.OwnsAt u)
    (hsame : ∀ u, u ≠ k.curTerm →
      k.procs u = t.stack u ∧ (k.terminals u).termProc = t.proc u) :
    t.OwnedStep ((execute img k l command).1.pointers (Function.update t.ran k.curTerm true))
      k.curTerm ↔ k.curTerm = k.runningTerm := by
  obtain ⟨hfresh, hprocs⟩ := h.start_procs hfits hbase hpid
  have hstart : (execute img k l command).1.pointers (Function.update t.ran k.curTerm true) =
      (k.pointers t.ran).start k.curTerm k.runningTerm pid := by
    unfold Kernel.pointers Pointers.start
    rw [hprocs, execute_termProc hpid]
  have howns' : ∀ u, u ≠ k.curTerm → (k.pointers t.ran).OwnsAt u :=
    fun u hu => (howns u hu).congr rfl (hsame u hu).1 (hsame u hu).2
  rw [hstart, ← Pointers.start_iff howns' hfresh]
  refine and_congr_right fun _ => forall₂_congr fun u hu => ?_
  rw [show (k.pointers t.ran).proc u = t.proc u from (hsame u hu).2]

end Start

section Halt

variable {img : Image} {k : Kernel} {a : Sessions} {p : Int} {below : List Int}

/-- The pointers after the top process is off the tables. -/
theorem Refines.finish_pointers (h : Refines k a) (hcur : a.current = p :: below)
    (ran : Fin 3 → Bool) : (LmaOS.haltClosed k p).pointers ran =
      (k.pointers ran).finish k.curTerm (k.pcbs p).parentPid := by
  have hprocs : (LmaOS.haltClosed k p).procs =
      Function.update k.procs k.curTerm (k.procs k.curTerm).tail := by
    funext u
    rw [(h.haltClosed hcur).procs, apply_finish_stack, show k.procs = a.stack from funext h.procs,
      h.shown]
  have hproc : (fun u => ((LmaOS.haltClosed k p).terminals u).termProc) =
      Function.update (fun u => (k.terminals u).termProc) k.curTerm
        (some (k.pcbs p).parentPid) := by
    obtain ⟨_, _, _, _, hk, _⟩ := haltClosed_fileCall k p
    funext u
    rw [hk, Function.update_apply]
    dsimp only
    rw [unlinked_terminals]
    split <;> rfl
  unfold Kernel.pointers Pointers.finish
  rw [hprocs, hproc]

/-- `halt` stores the PCB of the process below: that is the parent, or the shell that replaces the
    base shell, which has to be started on the running terminal. -/
def HaltOwns (img : Image) (k : Kernel) (l : Locals) : Prop :=
  match k.procs k.curTerm with
  | [] => True
  | [_] => Loadable img l shellName ∧ k.curTerm = k.runningTerm
  | p :: q :: _ => (k.pcbs p).parentPid = q

theorem haltOwns_base {l : Locals} (hp : k.procs k.curTerm = [p]) :
    HaltOwns img k l ↔ Loadable img l shellName ∧ k.curTerm = k.runningTerm := by
  unfold HaltOwns
  rw [hp]

theorem haltOwns_program {l : Locals} {q : Int} {rest : List Int}
    (hp : k.procs k.curTerm = p :: q :: rest) :
    HaltOwns img k l ↔ (k.pcbs p).parentPid = q := by
  unfold HaltOwns
  rw [hp]

instance (img : Image) (k : Kernel) (l : Locals) : Decidable (HaltOwns img k l) :=
  match h : k.procs k.curTerm with
  | [] => isTrue (by unfold HaltOwns; rw [h]; trivial)
  | [_] => decidable_of_iff _ (haltOwns_base h).symm
  | _ :: _ :: _ => decidable_of_iff _ (haltOwns_program h).symm

theorem haltClosed_terms (k : Kernel) (p : Int) : (haltClosed k p).curTerm = k.curTerm ∧
    (haltClosed k p).runningTerm = k.runningTerm := by
  obtain ⟨_, _, _, _, hk, _⟩ := haltClosed_fileCall k p
  rw [hk, haltEnter_eq]
  exact ⟨rfl, rfl⟩

theorem ExecuteFailed.pointers {r : Kernel × Option Int} (h : ExecuteFailed k r)
    (ran : Fin 3 → Bool) : r.1.pointers ran = k.pointers ran := by
  obtain ⟨_, _, _, _, rfl⟩ := h
  rfl

/-- A base shell halts. -/
theorem Refines.haltBase_ownedStep (h : Refines k a) (hcur : a.current = [p]) (l : Locals)
    (v : Nat) {ran : Fin 3 → Bool} (hran : ran k.curTerm = true)
    (howned : (k.pointers ran).Owned) : (k.pointers ran).OwnedStep
      ((haltEnd img (LmaOS.haltClosed k p) l p true v).1.pointers (ranAfter ran k.curTerm
        (haltEvents l.regs (haltEnd img (LmaOS.haltClosed k p) l p true v).2))) k.curTerm ↔
      Loadable img l shellName ∧ k.curTerm = k.runningTerm := by
  have hclosed := h.haltClosed hcur
  have hpop := h.finish_pointers hcur ran
  obtain ⟨hfree, hroom⟩ := h.room_after_halt hcur
  obtain ⟨hterm, hrunning⟩ := haltClosed_terms k p
  rw [← starts_shell_iff hfree hroom, ← execute_starts_iff]
  unfold haltEnd
  rw [if_pos rfl]
  cases hr : (execute img (LmaOS.haltClosed k p) l (some shellCommand)).2 with
  | some new =>
    have hsame : ∀ u, u ≠ (LmaOS.haltClosed k p).curTerm →
        (LmaOS.haltClosed k p).procs u = k.procs u ∧
          ((LmaOS.haltClosed k p).terminals u).termProc = (k.terminals u).termProc := by
      rw [hterm]
      refine fun u hu => ⟨?_, ?_⟩
      · exact (congrFun (congrArg Pointers.stack hpop) u).trans (Function.update_of_ne hu _ _)
      · exact (congrFun (congrArg Pointers.proc hpop) u).trans (Function.update_of_ne hu _ _)
    have hstart := hclosed.start_ownedStep (t := k.pointers ran) (shellCommand_fits l)
      (fun _ => isShell_shellCommand) hr (fun u _ => howned u) hsame
    rw [hterm, hrunning] at hstart
    generalize execute img (LmaOS.haltClosed k p) l (some shellCommand) = r at hr hstart
    obtain ⟨k', _⟩ := r
    obtain rfl : _ = some new := hr
    rw [ranAfter_of_start rfl]
    exact hstart.trans (iff_and_self.mpr fun _ => Option.some_ne_none new)
  | none =>
    have hfail := executeFailed_of_none hr
    have hfinish := Pointers.finish_iff (t := k.pointers ran) (fun u _ => howned u) hran
      (k.pcbs p).parentPid
    rw [← hpop, ← hfail.pointers] at hfinish
    generalize execute img (LmaOS.haltClosed k p) l (some shellCommand) = r at hr hfinish
    obtain ⟨k', _⟩ := r
    obtain rfl : _ = none := hr
    rw [ranAfter_of_no_start rfl]
    refine hfinish.trans (iff_of_false (fun hd => ?_) fun hd => hd.1 rfl)
    have hstack : (k.pointers ran).stack k.curTerm = [p] := h.current.trans hcur
    rw [hstack] at hd
    cases hd

/-- `halt` keeps the pointers right exactly under `HaltOwns`. -/
theorem Refines.halt_ownedStep (h : Refines k a) (hcur : a.current = p :: below) (l : Locals)
    (status : UInt8) {ran : Fin 3 → Bool} (hran : ran k.curTerm = true)
    (howned : (k.pointers ran).Owned) : (k.pointers ran).OwnedStep
      ((halt img k l status).1.pointers (ranAfter ran k.curTerm
        (haltEvents l.regs (halt img k l status).2))) k.curTerm ↔ HaltOwns img k l := by
  have hprocs : k.procs k.curTerm = p :: below := h.current.trans hcur
  rw [h.halt_eq hcur]
  cases below with
  | nil =>
    rw [decide_eq_true rfl, haltOwns_base hprocs]
    exact h.haltBase_ownedStep hcur l _ hran howned
  | cons q rest =>
    have hfinish := Pointers.finish_iff (t := k.pointers ran) (fun u _ => howned u) hran
      (k.pcbs p).parentPid
    have hstack : (k.pointers ran).stack k.curTerm = p :: q :: rest := hprocs
    rw [← h.finish_pointers hcur, hstack, List.tail_cons, List.head?_cons, Option.some.injEq,
      eq_comm] at hfinish
    rw [decide_eq_false (List.cons_ne_nil q rest), haltEnd_program, haltOwns_program hprocs,
      ranAfter_of_no_start rfl]
    exact hfinish

end Halt

section Switch

variable {img : Image} {k : Kernel} {a : Sessions}

/-- `switch_terminal` starts a terminal's first shell only if it is the running terminal. -/
def SwitchOwns (img : Image) (k : Kernel) (l : Locals) (tid : Fin 3) : Prop :=
  (k.terminals tid).firstRun = true → k.allActive = false → Loadable img l shellName →
    tid = k.runningTerm

instance (img : Image) (k : Kernel) (l : Locals) (tid : Fin 3) :
    Decidable (SwitchOwns img k l tid) := inferInstanceAs (Decidable (_ → _ → _ → _))

theorem displayed_pointers (k : Kernel) (saved : Regs) (tid : Fin 3) (ran : Fin 3 → Bool) :
    (displayed k saved tid).pointers ran = k.pointers ran := by
  have hterm : ∀ u, ((displayed k saved tid).terminals u).processes = (k.terminals u).processes ∧
      ((displayed k saved tid).terminals u).termProc = (k.terminals u).termProc := by
    intro u
    obtain ⟨_, _, _, _, hu⟩ := saveTerminal_terminals k saved tid u
    rw [show (displayed k saved tid).terminals u = (saveTerminal k saved tid).terminals u from rfl,
      hu]
    exact ⟨rfl, rfl⟩
  unfold Kernel.pointers Kernel.procs
  simp only [(hterm _).1, (hterm _).2]

theorem Pointers.OwnedStep.refl {t : Pointers} (h : t.Owned) (d : Fin 3) : t.OwnedStep t d :=
  ⟨h, fun _ _ => rfl⟩

theorem Refines.switch_ownedStep (h : Refines k a) (saved : Regs) (l : Locals) (tid : Fin 3)
    {ran : Fin 3 → Bool} (howned : (k.pointers ran).Owned) : (k.pointers ran).OwnedStep
      ((switchTerminal img k saved l tid).1.pointers (ranAfter ran tid
        (.display tid :: startEvents ⟨true, l.regs, none⟩ (switchTerminal img k saved l tid).2)))
      tid ↔ SwitchOwns img k l tid := by
  have hd := h.displayed saved tid
  have hkept := displayed_pointers k saved tid ran
  have hfirst : (LmaOS.displayed k saved tid).term.firstRun = (k.terminals tid).firstRun :=
    (saveTerminal_sameTables k saved tid).firstRun tid
  unfold SwitchOwns
  rw [switchTerminal_eq, hfirst]
  by_cases hf : (k.terminals tid).firstRun = true
  · rw [if_pos hf]
    have hnum : (LmaOS.displayed k saved tid).term.numProc ≤ 3 := by
      have hcount := hd.counts tid
      rw [hd.firstRun tid (hfirst.trans hf)] at hcount
      exact le_of_eq_of_le hcount (by decide)
    have hstarts : k.allActive = false → ((execute img (LmaOS.displayed k saved tid) l
        (some shellCommand)).2 ≠ none ↔ Loadable img l shellName) :=
      fun hfree => execute_starts_iff.trans (starts_shell_iff hfree hnum)
    cases hr : (execute img (LmaOS.displayed k saved tid) l (some shellCommand)).2 with
    | some pid =>
      obtain ⟨_, _, _, _, _, hfree, _⟩ := execute_started hr
      have hload := (hstarts hfree).mp (hr ▸ Option.some_ne_none pid)
      have hstart := hd.start_ownedStep (t := k.pointers ran) (shellCommand_fits l)
        (fun _ => isShell_shellCommand) hr (fun u _ => howned u) fun u _ =>
          ⟨congrFun (congrArg Pointers.stack hkept) u, congrFun (congrArg Pointers.proc hkept) u⟩
      rw [ranAfter_of_start rfl]
      refine hstart.trans ⟨fun ht _ _ _ => ht, fun ht => ht hf hfree hload⟩
    | none =>
      have hfail := executeFailed_of_none hr
      rw [ranAfter_of_no_start rfl, hfail.pointers, hkept]
      refine iff_of_true (.refl howned tid) fun _ hfree hload => ?_
      exact absurd hr ((hstarts hfree).mpr hload)
  · rw [if_neg hf, ranAfter_of_no_start rfl, hkept]
    exact iff_of_true (.refl howned tid) fun hrun => absurd hrun hf

end Switch

/-! ## The system with its history -/

/-- The system and the terminals a process was ever started on. -/
structure Traced where
  sys : Sys
  ran : Fin 3 → Bool

namespace Traced

/-- A process is started on the terminal that is displayed then. -/
def step (img : Image) (t : Traced) (op : Op) : Traced where
  sys := t.sys.step img op
  ran := ranAfter t.ran (t.sys.step img op).kernel.curTerm (perform img t.sys.kernel op).2

/-- The system before the boot sequence's switch: nothing was ever started. -/
def initial (k : Kernel) : Traced := ⟨LmaOS.initial k, fun _ => false⟩

/-- The system after the boot sequence. -/
def boot (img : Image) (k : Kernel) (saved : Regs) (l : Locals) : Traced :=
  (initial k).step img (.switchTerminal saved l terminalA)

abbrev pointers (t : Traced) : Pointers := t.sys.kernel.pointers t.ran

/-- Every `term_proc` is `NULL` or the PCB of its terminal's top process. -/
def TermProcOwned (t : Traced) : Prop := t.pointers.Owned

/-- So they are after the step, and it stored under the displayed terminal only. -/
def StepOwned (img : Image) (t : Traced) (op : Op) : Prop :=
  t.pointers.OwnedStep (t.step img op).pointers (t.step img op).sys.kernel.curTerm

def Proper (t : Traced) (op : Op) : Prop := t.sys.Proper op

instance (t : Traced) : Decidable t.TermProcOwned := inferInstanceAs (Decidable t.pointers.Owned)

instance (img : Image) (t : Traced) (op : Op) : Decidable (t.StepOwned img op) :=
  inferInstanceAs (Decidable (Pointers.OwnedStep _ _ _))

instance (t : Traced) (op : Op) : Decidable (t.Proper op) :=
  inferInstanceAs (Decidable (t.sys.Proper op))

end Traced

/-- The step stores the new `term_proc` under one terminal only, and it is the terminal's top
    process. -/
def Sys.OwnTerminal (img : Image) (s : Sys) : Op → Prop
  | .execute l command =>
    Starts img s.kernel l command → s.kernel.curTerm = s.kernel.runningTerm
  | .halt l _ | .exception l _ => HaltOwns img s.kernel l
  | .switchTerminal _ l tid => SwitchOwns img s.kernel l tid
  | _ => True

instance (img : Image) (s : Sys) (op : Op) : Decidable (s.OwnTerminal img op) :=
  match op with
  | .execute _ _ => inferInstanceAs (Decidable (_ → _))
  | .halt l _ | .exception l _ => inferInstanceAs (Decidable (HaltOwns img s.kernel l))
  | .switchTerminal _ l tid => inferInstanceAs (Decidable (SwitchOwns img s.kernel l tid))
  | .openCall _ _ | .close _ | .read _ _ _ _ _ | .write _ _ _ | .getargs _ _ | .devices _ _ =>
    isTrue trivial

/-- The history is right about the terminals that list a process. -/
structure Traced.Follows (t : Traced) : Prop where
  refines : Refines t.sys.kernel t.sys.sessions
  ran : ∀ u, t.sys.sessions.stack u ≠ [] → t.ran u = true

/-- Events without a start push nothing. -/
theorem stack_of_no_start {es : List Event} (h : es.any Event.isStart = false) {a : Sessions}
    {u : Fin 3} (hne : (es.foldl Sessions.apply a).stack u ≠ []) : a.stack u ≠ [] := by
  induction es generalizing a with
  | nil => exact hne
  | cons e es ih =>
    rw [List.any_cons, Bool.or_eq_false_iff] at h
    have hnext := ih h.2 hne
    cases e with
    | start pid birth => exact absurd h.1.symm Bool.false_ne_true
    | finish =>
      intro hnil
      rw [apply_finish_stack, Function.update_apply] at hnext
      split at hnext
      · subst u
        exact hnext (by rw [current, hnil]; rfl)
      · exact hnext hnil
    | display tid => exact hnext

theorem ranAfter_of_ran {ran : Fin 3 → Bool} {u : Fin 3} (h : ran u = true) (d : Fin 3)
    (es : List Event) : ranAfter ran d es u = true := by
  unfold ranAfter
  rw [h, Bool.true_or]

/-- A start is recorded under the terminal that is displayed at the end. -/
theorem ranAfter_start {ran : Fin 3 → Bool} {a : Sessions}
    (h : ∀ u, a.stack u ≠ [] → ran u = true) (es : List Event)
    (hes : es.any Event.isStart = false) (pid : Int) (birth : Birth) {u : Fin 3}
    (hne : ((es ++ [Event.start pid birth]).foldl Sessions.apply a).stack u ≠ []) :
    ranAfter ran ((es ++ [Event.start pid birth]).foldl Sessions.apply a).shown
      (es ++ [Event.start pid birth]) u = true := by
  rw [ranAfter_of_start (by rw [List.any_append]; exact Bool.or_true _), Function.update_apply]
  simp only [List.foldl_append, List.foldl_cons, List.foldl_nil, apply_start_stack,
    apply_start_shown] at hne ⊢
  split
  · rfl
  · rename_i hu
    rw [Function.update_of_ne hu] at hne
    exact h u (stack_of_no_start hes hne)

/-- Every effect keeps the history right. -/
theorem Effect.follows {img : Image} {s : Sys} {ran : Fin 3 → Bool}
    (href : Refines s.kernel s.sessions) (h : ∀ u, s.sessions.stack u ≠ [] → ran u = true)
    {es : List Event} {k' : Kernel} (he : Effect img s es k') (u : Fin 3)
    (hne : (es.foldl Sessions.apply s.sessions).stack u ≠ []) :
    ranAfter ran k'.curTerm es u = true := by
  have hold : es.any Event.isStart = false → ranAfter ran k'.curTerm es u = true :=
    fun hes => ranAfter_of_ran (h u (stack_of_no_start hes hne)) _ _
  rw [(he.refines href).shown] at hold ⊢
  cases he with
  | call _ _ => exact hold rfl
  | devices _ _ => exact hold rfl
  | failed _ => exact hold rfl
  | started _ _ => exact ranAfter_start h [] rfl _ _ hne
  | halted _ _ he =>
    cases he with
    | resumed _ => exact hold rfl
    | restarted _ => exact ranAfter_start h [.finish] rfl _ _ hne
    | lost _ _ => exact hold rfl
  | displayed _ => exact hold rfl
  | displayedFailed _ _ => exact hold rfl
  | displayedStarted _ _ => exact ranAfter_start h [.display _] rfl _ _ hne

section Steps

variable {img : Image} {t : Traced} {op : Op}

theorem Traced.Follows.step (h : t.Follows)
    (he : Effect img t.sys (perform img t.sys.kernel op).2 (perform img t.sys.kernel op).1) :
    (t.step img op).Follows :=
  ⟨he.refines h.refines, he.follows h.refines h.ran⟩

/-- A call that changes no list and no `term_proc` and starts nothing. -/
theorem Traced.stepOwned_of_kept (howned : t.TermProcOwned)
    (hes : (perform img t.sys.kernel op).2 = [])
    (hkept : (perform img t.sys.kernel op).1.terminals = t.sys.kernel.terminals) :
    t.StepOwned img op := by
  have hsame : (t.step img op).pointers = t.pointers := by
    unfold Traced.pointers Traced.step Sys.step Kernel.pointers Kernel.procs
    dsimp only
    rw [hes, ranAfter_of_no_start rfl, hkept]
  unfold Traced.StepOwned
  rw [hsame]
  exact .refl howned _

theorem ActsOn.terminals {pid : Int} {k k' : Kernel} (h : ActsOn pid k k') :
    k'.terminals = k.terminals := by
  obtain ⟨_, _, _, _, _, rfl⟩ := h
  rfl

theorem startEvents_shown (a : Sessions) (birth : Birth) (result : Option Int) :
    ((startEvents birth result).foldl Sessions.apply a).shown = a.shown := by
  cases result <;> rfl

theorem haltEvents_shown (a : Sessions) (regs : Regs) (result : HaltResult) :
    ((haltEvents regs result).foldl Sessions.apply a).shown = a.shown := by
  cases result <;> rfl

/-- The terminal displayed after a switch. -/
theorem Refines.switch_curTerm {s : Sys} (h : Refines s.kernel s.sessions) (img : Image)
    (saved : Regs) (l : Locals) (tid : Fin 3) :
    (s.step img (.switchTerminal saved l tid)).kernel.curTerm = tid :=
  (((h.switch_effect img saved l tid).refines h).shown).trans (startEvents_shown _ _ _)

theorem Traced.Follows.switch_iff (h : t.Follows) (howned : t.TermProcOwned) (saved : Regs)
    (l : Locals) (tid : Fin 3) : t.StepOwned img (.switchTerminal saved l tid) ↔
      SwitchOwns img t.sys.kernel l tid := by
  have hterm : (t.step img (.switchTerminal saved l tid)).sys.kernel.curTerm = tid :=
    h.refines.switch_curTerm img saved l tid
  unfold Traced.StepOwned
  rw [hterm, ← h.refines.switch_ownedStep saved l tid howned]
  unfold Traced.step
  rw [h.refines.switch_curTerm]
  exact Iff.rfl

/-- `halt` by the running process, called or entered from an exception handler in `k₀`. -/
theorem Traced.Follows.halt_iff (h : t.Follows) (howned : t.TermProcOwned)
    (hproper : t.Proper op) {k₀ : Kernel} (hin : t.sys.kernel.Entering k₀) {l : Locals}
    {status : UInt8} (hop : perform img t.sys.kernel op =
      ((halt img k₀ l status).1, haltEvents l.regs (halt img k₀ l status).2))
    (hissued : t.sys.kernel.procs t.sys.kernel.curTerm ≠ []) :
    t.StepOwned img op ↔ HaltOwns img t.sys.kernel l := by
  obtain ⟨p, below, hcur⟩ := List.exists_cons_of_ne_nil (h.refines.current ▸ hissued)
  have href₀ := h.refines.same (entering_sameTables hin)
  have hterm : (t.step img op).sys.kernel.curTerm = t.sys.kernel.curTerm := by
    have hshown : (t.sys.step img op).kernel.curTerm = (t.sys.step img op).sessions.shown :=
      (h.refines.step hproper).shown
    rw [show (t.step img op).sys = t.sys.step img op from rfl, hshown]
    unfold Sys.step
    rw [hop, haltEvents_shown, h.refines.shown]
  have hran : t.ran t.sys.kernel.curTerm = true := by
    refine h.ran _ ?_
    rw [h.refines.shown, show t.sys.sessions.stack t.sys.sessions.shown = p :: below from hcur]
    exact List.cons_ne_nil p below
  obtain ⟨screen, value, rfl⟩ := hin
  have hsame : HaltOwns img { t.sys.kernel with screen := screen, exceptionStatus := value } l ↔
      HaltOwns img t.sys.kernel l := Iff.rfl
  unfold Traced.StepOwned
  rw [hterm, ← hsame, ← href₀.halt_ownedStep hcur l status hran howned]
  unfold Traced.step
  rw [show (t.sys.step img op).kernel.curTerm = t.sys.kernel.curTerm from hterm]
  unfold Sys.step
  rw [hop]
  exact Iff.rfl

theorem Traced.Follows.execute_iff (h : t.Follows) (howned : t.TermProcOwned) {l : Locals}
    {command : Option CString} (hproper : t.Proper (.execute l command)) :
    t.StepOwned img (.execute l command) ↔
      (Starts img t.sys.kernel l command → t.sys.kernel.curTerm = t.sys.kernel.runningTerm) := by
  have hterm : (t.step img (.execute l command)).sys.kernel.curTerm = t.sys.kernel.curTerm :=
    execute_curTerm
  have hrun : t.sys.sessions.current ≠ [] := h.refines.current ▸ hproper.1
  rw [← execute_starts_iff]
  cases hr : (execute img t.sys.kernel l command).2 with
  | none =>
    obtain ⟨_, _, _, _, hk⟩ := executeFailed_of_none hr
    refine iff_of_true (stepOwned_of_kept howned ?_ ?_) fun hne => absurd rfl hne
    · rw [perform, hr]; rfl
    · rw [perform, hk]
  | some pid =>
    have hstart := h.refines.start_ownedStep (t := t.pointers) hproper.2
      (fun hnil => absurd hnil hrun) hr (fun u _ => howned u) fun _ _ => ⟨rfl, rfl⟩
    have hes : (perform img t.sys.kernel (.execute l command)).2.any Event.isStart = true := by
      rw [perform, hr]; rfl
    unfold Traced.StepOwned
    rw [hterm]
    unfold Traced.step
    rw [ranAfter_of_start hes, show (t.sys.step img (.execute l command)).kernel.curTerm =
      t.sys.kernel.curTerm from hterm]
    exact hstart.trans ⟨fun heq _ => heq, fun himp => himp (Option.some_ne_none pid)⟩

/-- A proper step from a state with all pointers right keeps them right exactly if it stores under
    one terminal only. -/
theorem Traced.Follows.stepOwned_iff (h : t.Follows) (howned : t.TermProcOwned)
    (hok : t.Proper op) : t.StepOwned img op ↔ t.sys.OwnTerminal img op := by
  cases op with
  | execute l command => exact h.execute_iff howned hok
  | halt l status =>
    exact h.halt_iff howned hok ⟨t.sys.kernel.screen, t.sys.kernel.exceptionStatus, rfl⟩ rfl hok.1
  | exception l vector =>
    obtain ⟨screen, he⟩ := idtHandler_eq vector img t.sys.kernel l
    have hin : t.sys.kernel.Entering
        { t.sys.kernel with screen := screen, exceptionStatus := exceptionFlag } :=
      ⟨screen, exceptionFlag, rfl⟩
    exact h.halt_iff howned hok hin (by rw [perform, he]) hok.1
  | switchTerminal saved l tid => exact h.switch_iff howned saved l tid
  | openCall dentry filename =>
    exact iff_of_true (stepOwned_of_kept howned rfl (openCall_actsOn _ _ _ _).terminals) trivial
  | close fd =>
    refine iff_of_true (stepOwned_of_kept howned rfl ?_) trivial
    exact (close_actsOnFiles _ _).actsOn.terminals
  | read dentry tail fd buf nbytes =>
    refine iff_of_true (stepOwned_of_kept howned ?_ ?_) trivial
    · rw [perform]
      split <;> rfl
    · rw [perform]
      split
      · rename_i hr
        exact (read_actsOnFiles _ _ _ _ _ _ _ hr).actsOn.terminals
      · rfl
  | write fd buf nbytes =>
    refine iff_of_true (stepOwned_of_kept howned rfl ?_) trivial
    exact (write_actsOnFiles _ 0 _ _ _).actsOn.terminals
  | getargs buf nbytes => exact iff_of_true (stepOwned_of_kept howned rfl rfl) trivial
  | devices screen keyboard => exact iff_of_true (stepOwned_of_kept howned rfl rfl) trivial

end Steps

/-! ## Runs -/

/-- The traced run is the run of the system. -/
theorem Traced.run_sys (img : Image) (t : Traced) (ops : List Op) :
    (runFrom (Traced.step img) t ops).sys = runFrom (Sys.step img) t.sys ops := by
  induction ops generalizing t with
  | nil => rfl
  | cons op ops ih => exact ih (t.step img op)

theorem Traced.initial_follows {k : Kernel} (hk : k.PoweredOn) : (Traced.initial k).Follows :=
  ⟨initial_refines hk, fun _ hne => absurd rfl hne⟩

theorem Traced.initial_owned (k : Kernel) : (Traced.initial k).TermProcOwned :=
  fun _ => ⟨fun _ => rfl, fun hran => absurd hran Bool.false_ne_true⟩

theorem Traced.boot_follows {k : Kernel} (hk : k.PoweredOn) (img : Image) (saved : Regs)
    (l : Locals) : (Traced.boot img k saved l).Follows :=
  (initial_follows hk).step ((initial_refines hk).switch_effect img saved l 0)

/-- Before the boot sequence's switch all pointers are `NULL`, and that switch displays terminal 0
    while `running_term` is 1. -/
theorem Traced.boot_owned_iff {k : Kernel} (hk : k.PoweredOn) (img : Image) (saved : Regs)
    (l : Locals) : (Traced.boot img k saved l).TermProcOwned ↔ ¬ Loadable img l shellName := by
  have hstep : (Traced.initial k).StepOwned img (.switchTerminal saved l terminalA) ↔
      SwitchOwns img (Traced.initial k).sys.kernel l terminalA :=
    (initial_follows hk).switch_iff (initial_owned k) saved l terminalA
  have hfree : (LmaOS.initial k).kernel.allActive = false := by
    unfold Kernel.allActive
    rw [List.all_eq_false]
    refine ⟨0, List.mem_range.mpr (by decide), ?_⟩
    rw [show (LmaOS.initial k).kernel.processState = k.processState from rfl, hk.1]
    decide
  have howns : SwitchOwns img (LmaOS.initial k).kernel l terminalA ↔ ¬ Loadable img l shellName :=
    ⟨fun h hload => absurd (show terminalA = terminalB from h rfl hfree hload) (by decide),
      fun h _ _ hload => absurd hload h⟩
  refine Iff.trans ⟨fun howned => ⟨howned, fun u hu => ?_⟩, fun h => h.1⟩ (hstep.trans howns)
  -- nothing was ever started on another terminal
  refine (howned u).1 ?_
  unfold Traced.pointers Kernel.pointers Traced.boot Traced.step ranAfter
  dsimp only
  rw [decide_eq_false (by exact hu), Bool.false_and, Bool.or_false]
  rfl

/-- The pointers after boot, and over the rest of every run from a state in which they are right:
    they stay right exactly as long as every step stores under one terminal only. -/
theorem term_proc_owned_iff {img : Image} {k : Kernel} (hk : k.PoweredOn) (saved : Regs)
    (l : Locals) (before ops : List Op)
    (hrun : Allowed (Traced.step img) Traced.Proper (Traced.boot img k saved l) (before ++ ops)) :
    ((Traced.boot img k saved l).TermProcOwned ↔ ¬ Loadable img l shellName) ∧
      ((runFrom (Traced.step img) (Traced.boot img k saved l) before).TermProcOwned →
        (Allowed (Traced.step img) (Traced.StepOwned img)
            (runFrom (Traced.step img) (Traced.boot img k saved l) before) ops ↔
          Allowed (Traced.step img) (fun t op => t.sys.OwnTerminal img op)
            (runFrom (Traced.step img) (Traced.boot img k saved l) before) ops)) := by
  refine ⟨Traced.boot_owned_iff hk img saved l, fun howned => ?_⟩
  obtain ⟨hbefore, hops⟩ := allowed_append.mp hrun
  have hfollows := hbefore.invariant Traced.Follows
    (fun _ _ h hok => h.step (h.refines.effect hok)) (Traced.boot_follows hk img saved l)
  exact hops.congr_steps (fun t => t.Follows ∧ t.TermProcOwned)
    (fun _ _ h hok hstep => ⟨h.1.step (h.1.refines.effect hok), hstep.1⟩)
    (fun _ _ h hok => h.1.stepOwned_iff h.2 hok) ⟨hfollows, howned⟩

/-- After the boot sequence, terminal 1 gets its own shell, which starts another and gets it back;
    then terminal 0 is displayed again. -/
def runningTerminalRun : List Op :=
  [.execute (Locals.zero ⟨1, 2⟩) (some shellCommand), .halt (Locals.zero ⟨3, 4⟩) 0,
    .switchTerminal ⟨5, 6⟩ (Locals.zero ⟨7, 8⟩) terminalA]

theorem term_proc_owned_iff_runningTerminal : Allowed (Traced.step shellImage)
    (Traced.StepOwned shellImage) (runFrom (Traced.step shellImage)
      (Traced.boot shellImage Kernel.loaded ⟨0, 0⟩ (Locals.zero ⟨0, 0⟩))
      [.switchTerminal ⟨9, 10⟩ (Locals.zero ⟨11, 12⟩) terminalB]) runningTerminalRun :=
  ((term_proc_owned_iff loaded_poweredOn ⟨0, 0⟩ (Locals.zero ⟨0, 0⟩)
    [.switchTerminal ⟨9, 10⟩ (Locals.zero ⟨11, 12⟩) terminalB] runningTerminalRun
    (by decide)).2 (by decide)).mpr (by decide)

/-- The boot sequence stores its shell under terminal 1, where nothing was started. -/
theorem term_proc_stray : ¬ ∀ (img : Image) (k : Kernel), k.PoweredOn → ∀ (saved : Regs)
    (l : Locals) (ops : List Op),
      Allowed (Traced.step img) Traced.Proper (Traced.boot img k saved l) ops →
        (runFrom (Traced.step img) (Traced.boot img k saved l) ops).TermProcOwned := by
  intro hclaim
  have h := hclaim shellImage Kernel.loaded loaded_poweredOn ⟨0, 0⟩ (Locals.zero ⟨0, 0⟩) []
    trivial terminalB
  have hnone := h.1 (by decide)
  revert hnone
  decide

end LmaOS
