import LmaOS.Scheduling
import LmaOS.Session.TermProc

/-
  PIT ticks after a run of calls.

  * `scheduling_rotates`, `ticks_never_fault_iff`: the ticks visit the terminals in turn, and none
    dereferences `NULL` exactly if every terminal has a `term_proc`.
  * `scheduling_switched`: a tick that switches maps the right page, but its `esp0` is 4 above the
    one `execute` and `switch_terminal` install.
  * `EmptyIfNull`: a terminal with `term_proc == NULL` lists no process. A tick that does not
    switch makes such a terminal the running one, so `running_term` names no loaded process.
  * `scheduling_unsound`: hence no tick is sound in any reachable state (`SoundTicks`).
-/
namespace LmaOS

open Util Sessions

/-! ## One tick -/

/-- The state after a tick, if there is one. -/
def tick (link : Link) (m : PagedKernel) (saved : Regs) : Option PagedKernel :=
  (scheduling link m saved).state

/-- The terminal has a `term_proc`. -/
def PagedKernel.HasProc (m : PagedKernel) (u : Fin 3) : Prop :=
  (m.kernel.terminals u).termProc ≠ none

/-- A tick that returns has moved `running_term` on and changed no terminal. -/
theorem tick_some {link : Link} {m m' : PagedKernel} {saved : Regs}
    (h : tick link m saved = some m') :
    m'.kernel.runningTerm = slotAfter m.kernel.runningTerm 1 ∧
      m'.kernel.terminals = m.kernel.terminals := by
  unfold tick at h
  rcases scheduling_cases link m saved with ⟨_, hr⟩ | ⟨cur, _, ⟨_, hr⟩ | ⟨next, _, hr⟩⟩
  · rw [hr] at h
    cases h
  · rw [hr] at h
    cases h
    exact ⟨rfl, rfl⟩
  · rw [hr] at h
    cases h
    exact ⟨rfl, rfl⟩

theorem tick_eq_none_iff {link : Link} {m : PagedKernel} {saved : Regs} :
    tick link m saved = none ↔ ¬ m.HasProc m.kernel.runningTerm := by
  unfold tick PagedKernel.HasProc
  rw [not_not]
  rcases scheduling_cases link m saved with ⟨hn, hr⟩ | ⟨cur, hc, ⟨_, hr⟩ | ⟨next, _, hr⟩⟩
  · exact iff_of_true (by rw [hr]; rfl) hn
  all_goals
    rw [hr]
    exact iff_of_false (Option.some_ne_none _) fun hn => Option.some_ne_none cur (hc.symm.trans hn)

/-- Ticks visit the terminals in turn. -/
theorem scheduling_rotates (link : Link) :
    Rotates (tick link) (fun m => m.kernel.runningTerm) PagedKernel.HasProc where
  stops := fun _ _ => tick_eq_none_iff
  moves := fun _ _ _ h => (tick_some h).1
  keeps := fun _ _ _ h u => by unfold PagedKernel.HasProc; rw [(tick_some h).2]

/-- A tick that switches maps the page of the process it loads and gives it a kernel stack that
    no process is given elsewhere. -/
theorem scheduling_switched {link : Link} {m m' : PagedKernel} {saved : Regs} {p : Int}
    (h : scheduling link m saved = .switched m' p) :
    m'.kernel.pageDirectory 32 =
        word32 (size8MB + (m'.kernel.pcbs p).pid * size4MB) ||| 0x87 ∧
      m'.kernel.tssEsp0 = word32 (size8MB - (m'.kernel.pcbs p).pid * size8KB) ∧
      ∀ q, ¬ m'.kernel.Installed q := by
  rcases scheduling_cases link m saved with ⟨_, hr⟩ | ⟨cur, _, ⟨_, hr⟩ | ⟨next, _, hr⟩⟩
  · rw [hr] at h
    cases h
  · rw [hr] at h
    cases h
  · rw [hr] at h
    cases h
    refine ⟨loadProcess_page _ _ _, loadProcess_esp0 _ _ _, fun q hq => ?_⟩
    have hesp := hq.2
    rw [loadProcess_esp0] at hesp
    -- kernel stacks start at multiples of 8 KB, less 4
    unfold word32 at hesp
    dsimp only [size8MB, size8KB] at hesp
    omega

/-! ## Terminals without a `term_proc` -/

/-- A terminal whose `term_proc` is `NULL` lists no process. -/
def Kernel.EmptyIfNull (k : Kernel) : Prop :=
  ∀ u, (k.terminals u).termProc = none → ∀ i, i < 4 → (k.terminals u).processes i = -1

/-- A terminal with `term_proc == NULL` had none before, and lists what it listed. -/
def KeepsNull (k k' : Kernel) : Prop :=
  ∀ u, (k'.terminals u).termProc = none → (k.terminals u).termProc = none ∧
    (k'.terminals u).processes = (k.terminals u).processes

theorem KeepsNull.of_terminals {k k' : Kernel} (h : k'.terminals = k.terminals) :
    KeepsNull k k' := fun u hu => by
  rw [h] at hu ⊢
  exact ⟨hu, rfl⟩

theorem KeepsNull.trans {k k' k'' : Kernel} (h : KeepsNull k k') (h' : KeepsNull k' k'') :
    KeepsNull k k'' := fun u hu => by
  obtain ⟨hu', he'⟩ := h' u hu
  obtain ⟨hu, he⟩ := h u hu'
  exact ⟨hu, he'.trans he⟩

theorem Kernel.EmptyIfNull.step {k k' : Kernel} (h : k.EmptyIfNull) (hk : KeepsNull k k') :
    k'.EmptyIfNull := fun u hu i hi => by
  obtain ⟨hu, he⟩ := hk u hu
  rw [he]
  exact h u hu i hi

theorem execute_keepsNull (img : Image) (k : Kernel) (l : Locals) (command : Option CString) :
    KeepsNull k (execute img k l command).1 := by
  rcases execute_cases img k l command with ⟨_, _, _, _, hr⟩ | ⟨_, _, _, _, _, _, _, _, _, hr⟩
  · rw [hr]
    exact KeepsNull.of_terminals rfl
  · rw [hr]
    intro u hu
    have hproc := congrFun (newTerminals_termProc k.claimed k.freePid) u
    rw [show (k.claimed.newTerminals k.freePid u).termProc = none from hu,
      Function.update_apply, Function.update_apply] at hproc
    split at hproc
    · cases hproc
    · split at hproc
      · cases hproc
      · rename_i hcur
        refine ⟨hproc.symm, ?_⟩
        exact (newTerminals_processes k.claimed k.freePid u).trans (if_neg hcur)

theorem haltClosed_keepsNull (k : Kernel) (p : Int) : KeepsNull k (haltClosed k p) := by
  obtain ⟨_, _, _, _, hk, _⟩ := haltClosed_fileCall k p
  intro u hu
  rw [hk] at hu ⊢
  dsimp only at hu ⊢
  rw [unlinked_terminals] at hu ⊢
  split at hu
  · cases hu
  · rename_i hne
    rw [if_neg hne]
    exact ⟨hu, rfl⟩

theorem haltEnter_keepsNull (k : Kernel) : KeepsNull k (haltEnter k) := by
  intro u hu
  rw [haltEnter_eq] at hu ⊢
  dsimp only at hu ⊢
  rw [Function.update_apply] at hu ⊢
  split at hu
  · rename_i hcur
    rw [if_pos hcur, hcur]
    exact ⟨hu, rfl⟩
  · rename_i hcur
    rw [if_neg hcur]
    exact ⟨hu, rfl⟩

theorem displayed_keepsNull (k : Kernel) (saved : Regs) (tid : Fin 3) :
    KeepsNull k (displayed k saved tid) := by
  intro u hu
  obtain ⟨_, _, _, _, he⟩ := saveTerminal_terminals k saved tid u
  rw [show (displayed k saved tid).terminals u = (saveTerminal k saved tid).terminals u from rfl,
    he] at hu ⊢
  exact ⟨hu, rfl⟩

theorem keepsNull_stepRel (img : Image) : StepRel img KeepsNull where
  trans := KeepsNull.trans
  devices := fun _ _ _ _ => KeepsNull.of_terminals rfl
  opens := fun k _ _ => KeepsNull.of_terminals (openCall_actsOn img k _ _).terminals
  closes := fun k fd => KeepsNull.of_terminals (close_actsOnFiles k fd).actsOn.terminals
  reads := fun k _ _ _ _ _ _ hr =>
    KeepsNull.of_terminals (read_actsOnFiles img k _ _ _ _ _ hr).actsOn.terminals
  writes := fun k _ _ _ => KeepsNull.of_terminals (write_actsOnFiles k 0 _ _ _).actsOn.terminals
  executes := execute_keepsNull img
  enters := haltEnter_keepsNull
  unloads := haltClosed_keepsNull
  resumes := fun _ _ => KeepsNull.of_terminals rfl
  displays := displayed_keepsNull

theorem initial_emptyIfNull (k : Kernel) : (initial k).kernel.EmptyIfNull := fun u _ i hi => by
  show (if i < 4 then (-1 : Int) else _) = -1
  rw [if_pos hi]

/-- No hypothesis on the calls: it holds after every one. -/
theorem run_emptyIfNull (img : Image) (k : Kernel) (saved : Regs) (l : Locals) (ops : List Op) :
    (runFrom (Sys.step img) (boot img k saved l) ops).kernel.EmptyIfNull := by
  have hboot : (boot img k saved l).kernel.EmptyIfNull :=
    (initial_emptyIfNull k).step
      ((keepsNull_stepRel img).perform (initial k).kernel (.switchTerminal saved l 0))
  have hall : Allowed (Sys.step img) (fun _ _ => True) (boot img k saved l) ops :=
    allowed_true _ _
  exact hall.invariant (fun s => s.kernel.EmptyIfNull)
    (fun s op h _ => h.step ((keepsNull_stepRel img).perform s.kernel op)) hboot

/-! ## Soundness -/

/-- `running_term` names the terminal whose process is loaded. -/
def Kernel.RunningLoaded (k : Kernel) : Prop :=
  ∃ p ∈ k.procs k.runningTerm, k.pageDirectory 32 = word32 (size8MB + p * size4MB) ||| 0x87

instance (k : Kernel) : Decidable k.RunningLoaded := inferInstanceAs (Decidable (∃ _ ∈ _, _))

/-- Round robin is sound over the ticks: none dereferences `NULL`, `running_term` is right before
    and after each, and a tick that switches to `p` installs `p` as `execute` and
    `switch_terminal` do. -/
def SoundTicks (link : Link) : PagedKernel → List Regs → Prop
  | m, [] => m.kernel.RunningLoaded
  | m, saved :: rest => m.kernel.RunningLoaded ∧
    match scheduling link m saved with
    | .fault => False
    | .stayed m' => SoundTicks link m' rest
    | .switched m' p => m'.kernel.Installed p ∧ SoundTicks link m' rest

theorem SoundTicks.runningLoaded {link : Link} {m : PagedKernel} {ticks : List Regs}
    (h : SoundTicks link m ticks) : m.kernel.RunningLoaded := by
  cases ticks with
  | nil => exact h
  | cons saved rest => exact h.1

/-- Sound ticks dereference no `NULL`. -/
theorem SoundTicks.no_fault {link : Link} {m : PagedKernel} {ticks : List Regs}
    (h : SoundTicks link m ticks) : ticks.foldlM (tick link) m ≠ none := by
  induction ticks generalizing m with
  | nil => exact Option.some_ne_none m
  | cons saved rest ih =>
    have hstep := h.2
    rw [List.foldlM_cons, tick]
    cases hr : scheduling link m saved with
    | fault => rw [hr] at hstep; exact hstep.elim
    | stayed m' => rw [hr] at hstep; exact ih hstep
    | switched m' p => rw [hr] at hstep; exact ih hstep.2

theorem procs_of_free {k : Kernel} {u : Fin 3}
    (h : ∀ i, i < 4 → (k.terminals u).processes i = -1) : k.procs u = [] :=
  (holds_nil h).stackOf_eq

/-- A terminal that lists no process names none that is loaded. -/
theorem not_runningLoaded {k : Kernel} (h : k.procs k.runningTerm = []) : ¬ k.RunningLoaded := by
  rintro ⟨p, hp, _⟩
  rw [h] at hp
  exact List.not_mem_nil hp

/-- No tick is sound: it dereferences `NULL`, or makes a terminal without processes the running
    one, or installs a wrong kernel stack. -/
theorem not_soundTicks {m : PagedKernel} (h : m.kernel.EmptyIfNull) (link : Link) (saved : Regs)
    (rest : List Regs) : ¬ SoundTicks link m (saved :: rest) := by
  rintro ⟨_, hstep⟩
  rcases scheduling_cases link m saved with ⟨_, hr⟩ | ⟨cur, _, ⟨hnext, hr⟩ | ⟨next, _, hr⟩⟩
  · rw [hr] at hstep
    exact hstep
  · rw [hr] at hstep
    have hempty : (saveProcess { m with kernel := m.kernel.printf "success!\n" } saved
        cur).kernel.EmptyIfNull := h.step (KeepsNull.of_terminals rfl)
    exact not_runningLoaded (procs_of_free (hempty _ hnext)) hstep.runningLoaded
  · rw [hr] at hstep
    exact (scheduling_switched hr).2.2 next hstep.1

/-- The boot sequence starts a process on terminal 0, and `running_term` is 1. -/
theorem boot_not_runningLoaded (img : Image) (k : Kernel) (saved : Regs) (l : Locals) :
    ¬ (boot img k saved l).kernel.RunningLoaded := by
  have hfree : ∀ i, i < 4 → ((displayed (initial k).kernel saved terminalA).terminals
      terminalB).processes i = -1 := fun i hi => by
    show (if i < 4 then (-1 : Int) else _) = -1
    rw [if_pos hi]
  rw [boot_eq]
  show ¬ (switchTerminal img (initial k).kernel saved l terminalA).1.RunningLoaded
  rw [switchTerminal_eq]
  split
  · rcases execute_cases img (displayed (initial k).kernel saved terminalA) l (some shellCommand)
      with ⟨_, _, _, _, hr⟩ | ⟨_, _, _, _, _, _, _, _, _, hr⟩
    · rw [hr]
      exact not_runningLoaded (procs_of_free hfree)
    · rw [hr]
      refine not_runningLoaded (procs_of_free fun i hi => ?_)
      refine Eq.trans (congrFun ?_ i) (hfree i hi)
      exact (newTerminals_processes _ _ terminalB).trans
        (if_neg (Fin.ne_of_val_ne Nat.one_ne_zero))
  · exact not_runningLoaded (procs_of_free hfree)

/-! ## Every reachable state -/

/-- In no state reached from boot is a tick sound. None of any number of ticks dereferences `NULL`
    exactly if all three terminals have a `term_proc`; every tick that switches installs the right
    page and a kernel stack that is no process's. -/
theorem scheduling_unsound (img : Image) (k : Kernel) (saved : Regs) (l : Locals) (ops : List Op)
    (link : Link) (pageTable vidmemPagetable : Nat → Nat) :
    let m : PagedKernel := ⟨(runFrom (Sys.step img) (boot img k saved l) ops).kernel, pageTable,
      vidmemPagetable⟩
    ¬ (boot img k saved l).kernel.RunningLoaded ∧
      (∀ ticks, ticks ≠ [] → ¬ SoundTicks link m ticks) ∧
      ((∀ ticks : List Regs, ticks.foldlM (tick link) m ≠ none) ↔
        ∀ u, (m.kernel.terminals u).termProc ≠ none) ∧
      ∀ (m₁ m₂ : PagedKernel) (regs : Regs) (p : Int), scheduling link m₁ regs = .switched m₂ p →
        m₂.kernel.pageDirectory 32 =
            word32 (size8MB + (m₂.kernel.pcbs p).pid * size4MB) ||| 0x87 ∧
          ∀ q, ¬ m₂.kernel.Installed q := by
  intro m
  refine ⟨boot_not_runningLoaded img k saved l, fun ticks hne => ?_, ?_,
    fun _ _ _ _ hs => ⟨(scheduling_switched hs).1, (scheduling_switched hs).2.2⟩⟩
  · obtain ⟨regs, rest, rfl⟩ := List.exists_cons_of_ne_nil hne
    exact not_soundTicks (run_emptyIfNull img k saved l ops) link regs rest
  · have : Inhabited Regs := ⟨saved⟩
    exact (scheduling_rotates link).never_stops_iff m

/-- Two ticks after boot `NULL` is dereferenced: terminal 2 has no `term_proc`. -/
theorem second_tick_faults : ¬ ∀ (img : Image) (k : Kernel), k.PoweredOn → ∀ (saved : Regs)
    (l : Locals) (ops : List Op), Allowed (Sys.step img) Sys.Proper (boot img k saved l) ops →
      ∀ (link : Link) (g : Paging) (ticks : List Regs), SoundTicks link
        ⟨(runFrom (Sys.step img) (boot img k saved l) ops).kernel, g.pageTable,
          g.vidmemPagetable⟩ ticks := by
  intro hclaim
  have hsound := hclaim shellImage Kernel.loaded loaded_poweredOn ⟨0, 0⟩ (Locals.zero ⟨0, 0⟩) []
    trivial Link.bootimg (initPaging Link.bootimg Paging.loaded) [⟨1, 2⟩, ⟨3, 4⟩]
  refine hsound.no_fault (Option.isNone_iff_eq_none.mp ?_)
  decide

end LmaOS
