import LmaOS.Session.Shell
import LmaOS.Exec.Executable

/-
  Parents, address spaces and kernel stacks.

  `execute` records the terminal's last shell as the parent of a new process, and `halt` goes back
  to that parent. In the runs in which only last shells start processes every process with another
  on top of it is a shell (`ShellsBelow`), so the recorded parent is the caller, and after every
  call the page and the kernel stack installed are those of the displayed terminal's top process
  (`parents_installed`). A program that starts a program breaks both (`parent_not_caller`).
-/
namespace LmaOS

open Util Sessions

/-- The program page of `p` is mapped and the TSS points to its kernel stack. -/
def Kernel.Installed (k : Kernel) (p : Int) : Prop :=
  k.pageDirectory 32 = word32 (size8MB + p * size4MB) ||| 0x87 ∧
    k.tssEsp0 = word32 (size8MB - p * size8KB - 4)

/-- Every process that is not a base process has its caller, the one below it, as parent, and the
    displayed terminal's top process is installed. -/
structure ParentsInstalled (s : Sys) : Prop where
  parent : ∀ u above p q below, s.kernel.procs u = above ++ p :: q :: below →
    (s.sessions.born p).caller = some q ∧ (s.kernel.pcbs p).parentPid = q
  installed : ∀ p below, s.kernel.procs s.kernel.curTerm = p :: below → s.kernel.Installed p

/-- Processes are started by the last shell of their terminal. -/
def Sys.ShellCalls (img : Image) (s : Sys) : Op → Prop
  | .execute l command => Startable img s.kernel l command →
    getPcbAddress s.kernel = s.kernel.lastShell s.kernel.curTerm
  | _ => True

/-- A proper call, and processes are started by last shells only. -/
def Sys.ProperShells (img : Image) (s : Sys) (op : Op) : Prop := s.Proper op ∧ s.ShellCalls img op

instance (img : Image) (s : Sys) (op : Op) : Decidable (s.ShellCalls img op) :=
  match op with
  | .execute l command => inferInstanceAs (Decidable (Startable img s.kernel l command →
      getPcbAddress s.kernel = s.kernel.lastShell s.kernel.curTerm))
  | .halt _ _ | .exception _ _ | .openCall _ _ | .close _ | .read _ _ _ _ _ | .write _ _ _
  | .getargs _ _ | .switchTerminal _ _ _ | .devices _ _ => isTrue trivial

instance (img : Image) (s : Sys) (op : Op) : Decidable (s.ProperShells img op) :=
  inferInstanceAs (Decidable (_ ∧ _))

/-! ## Only shells have processes on top of them -/

def ShellsBelow (a : Sessions) : Prop :=
  ∀ u, Above (fun _ below => ∀ q, below.head? = some q → (a.born q).shell = true) (a.stack u)

theorem shellsBelow_start {a : Sessions} (h : ShellsBelow a) {pid : Int} {birth : Birth}
    (hfresh : ∀ u, pid ∉ a.stack u)
    (htop : ∀ q, a.current.head? = some q → (a.born q).shell = true) :
    ShellsBelow (a.apply (.start pid birth)) := by
  have hborn : ∀ u, ∀ q ∈ a.stack u, Function.update a.born pid birth q = a.born q :=
    fun u q hq => Function.update_of_ne (fun he : q = pid => hfresh u (he ▸ hq)) _ _
  have hold : ∀ u, Above (fun _ below => ∀ q, below.head? = some q →
      (Function.update a.born pid birth q).shell = true) (a.stack u) := by
    intro u
    refine (h u).mono fun p below _ hsub hb q hq => ?_
    rw [hborn u q (hsub (List.mem_of_mem_head? hq))]
    exact hb q hq
  intro u
  rw [apply_start_stack, apply_start_born, Function.update_apply]
  split
  · refine ⟨fun q hq => ?_, hold a.shown⟩
    rw [hborn a.shown q (List.mem_of_mem_head? hq)]
    exact htop q hq
  · exact hold u

theorem shellsBelow_finish {a : Sessions} (h : ShellsBelow a) {p : Int} {below : List Int}
    (hcur : a.current = p :: below) : ShellsBelow (a.apply .finish) := by
  intro u
  rw [apply_finish_stack, apply_finish_born, Function.update_apply, hcur]
  split
  · have hs := h a.shown
    rw [show a.stack a.shown = p :: below from hcur] at hs
    exact hs.2
  · exact h u

/-- The parent of a process with a shell directly below it is that shell. -/
theorem Refines.parent_eq {k : Kernel} {a : Sessions} (h : Refines k a) (hs : ShellsBelow a)
    {u : Fin 3} {above below : List Int} {p q : Int}
    (hstack : a.stack u = above ++ p :: q :: below) :
    (a.born p).caller = some q ∧ (k.pcbs p).parentPid = q := by
  have hcaller : StartedOn a.born p (q :: below) := Above.of_append (hstack ▸ h.legal.started u)
  have hparent : ParentOf k a.born p (q :: below) := Above.of_append (hstack ▸ h.parents u)
  have hshell : ∀ q', (q :: below).head? = some q' → (a.born q').shell = true :=
    Above.of_append (hstack ▸ hs u)
  refine ⟨hcaller.1, ?_⟩
  have := hparent.2 (List.cons_ne_nil q below)
  rw [topShell_cons_shell (hshell q rfl), Option.some.injEq] at this
  exact this.symm

/-! ## Steps -/

/-- The invariant: only shells have processes on top, and the top process is installed. -/
structure ShellsInstalled (k : Kernel) (a : Sessions) : Prop where
  below : ShellsBelow a
  installed : ∀ p rest, a.current = p :: rest → k.Installed p

theorem Started.shellsInstalled {k k' : Kernel} {a : Sessions} {pid : Int} {shell : Bool}
    {regs : Regs} {birth : Birth} (href : Refines k a) (hs : Started k k' pid shell regs)
    (h : ShellsBelow a) (htop : ∀ q, a.current.head? = some q → (a.born q).shell = true) :
    ShellsInstalled k' (a.apply (.start pid birth)) where
  below := shellsBelow_start h (fun _ hm => href.fresh hs.free.2.2 hm rfl) htop
  installed := by
    intro p rest hcur
    rw [current, apply_start_stack, apply_start_shown, Function.update_self] at hcur
    obtain ⟨rfl, _⟩ := List.cons_eq_cons.mp hcur
    exact ⟨hs.page, hs.stack⟩

theorem ExecuteFailed.installed {k : Kernel} {r : Kernel × Option Int} (h : ExecuteFailed k r)
    {p : Int} (hp : k.Installed p) : r.1.Installed p := by
  obtain ⟨_, _, _, _, rfl⟩ := h
  exact hp

theorem HaltEffect.shellsInstalled {img : Image} {k₀ k' : Kernel} {a : Sessions} {p : Int}
    {below : List Int} {es : List Event} (href : Refines k₀ a) (hb : ShellsBelow a)
    (hcur : a.current = p :: below) (he : HaltEffect img k₀ p below es k') :
    ShellsInstalled k' (es.foldl Sessions.apply a) := by
  have hpop := shellsBelow_finish hb hcur
  cases he with
  | resumed hne =>
    refine ⟨hpop, fun q rest hq => ?_⟩
    have hcur' : a.current = [] ++ p :: q :: rest := by
      rw [hcur, ← current_finish hcur]; exact congrArg (p :: ·) hq
    have hparent : ((haltClosed k₀ p).pcbs p).parentPid = q := by
      rw [((haltClosed_fileCall k₀ p).sameTables.pcbs p).2.1, unlinked_pcbs]
      exact (href.parent_eq hb hcur').2
    unfold Kernel.Installed loadParent
    dsimp only [Kernel.setProcessPage]
    rw [Function.update_self, hparent]
    exact ⟨rfl, rfl⟩
  | restarted hs =>
    refine hs.shellsInstalled (href.haltClosed hcur) hpop fun q hq => ?_
    rw [current_finish hcur] at hq
    cases hq
  | lost hf hr =>
    refine ⟨hpop, fun q rest hq => absurd ?_ (List.cons_ne_nil q rest)⟩
    exact hq.symm.trans (current_finish hcur)

/-- Every step in which only a last shell starts a process keeps the invariant. -/
theorem Effect.shellsInstalled {img : Image} {s : Sys} {es : List Event} {k' : Kernel}
    (href : Refines s.kernel s.sessions) (h : ShellsInstalled s.kernel s.sessions)
    (hcalls : ∀ pid birth q, es = [.start pid birth] → s.sessions.current.head? = some q →
      q = s.kernel.lastShell s.kernel.curTerm)
    (he : Effect img s es k') : ShellsInstalled k' (es.foldl Sessions.apply s.sessions) := by
  cases he with
  | call hcur hact =>
    obtain ⟨_, _, _, _, _, rfl⟩ := hact
    exact ⟨h.below, h.installed⟩
  | devices _ _ => exact ⟨h.below, h.installed⟩
  | failed hf => exact ⟨h.below, fun p rest hp => hf.installed (h.installed p rest hp)⟩
  | started hcur hs =>
    refine hs.shellsInstalled href h.below fun q hq => ?_
    have hlast := hcalls _ _ q rfl hq
    have htop := href.shells s.sessions.shown hcur
    rw [← href.shown, ← hlast] at htop
    exact shell_of_topShell htop
  | halted hin hcur he =>
    exact he.shellsInstalled (href.same (entering_sameTables hin)) h.below hcur
  | @displayed saved tid hrun =>
    refine ⟨h.below, fun p rest hp => ?_⟩
    have hsave := (href.displayed saved tid).getPcbAddress hp
    have hmem : p ∈ s.sessions.stack tid := by
      rw [show s.sessions.stack tid = p :: rest from hp]; exact List.mem_cons_self
    have hpid : ((LmaOS.displayed s.kernel saved tid).pcbs p).pid = p :=
      ((href.displayed saved tid).pcbs tid p hmem).1
    have hfound : getPcbAddress (restoreTerminal (saveTerminal s.kernel saved tid) tid) = p := hsave
    show (switchExecution (restoreTerminal (saveTerminal s.kernel saved tid) tid)).Installed p
    unfold Kernel.Installed switchExecution
    dsimp only [Kernel.setProcessPage]
    rw [Function.update_self, hfound,
      show ((restoreTerminal (saveTerminal s.kernel saved tid) tid).pcbs p).pid = p from hpid]
    exact ⟨rfl, rfl⟩
  | displayedFailed hnil hf =>
    refine ⟨h.below, fun p rest hp => absurd ?_ (List.cons_ne_nil p rest)⟩
    exact hp.symm.trans hnil
  | displayedStarted hnil hs =>
    refine hs.shellsInstalled (href.displayed _ _) h.below fun q hq => ?_
    rw [current, apply_display_stack, apply_display_shown, hnil] at hq
    cases hq

theorem Refines.parentsInstalled {s : Sys} (href : Refines s.kernel s.sessions)
    (h : ShellsInstalled s.kernel s.sessions) : ParentsInstalled s where
  parent := fun u _ _ _ _ hp => href.parent_eq h.below ((href.procs u).symm.trans hp)
  installed := fun p below hp => h.installed p below (href.current.symm.trans hp)

/-- A single `start` is reported by `execute` only, after it passed its checks. -/
theorem shellCalls_of_start {img : Image} {s : Sys} {op : Op} {pid q : Int} {birth : Birth}
    (href : Refines s.kernel s.sessions) (h : s.ShellCalls img op)
    (hes : (perform img s.kernel op).2 = [.start pid birth])
    (hq : s.sessions.current.head? = some q) : q = s.kernel.lastShell s.kernel.curTerm := by
  cases op with
  | execute l command =>
    have hsome : (execute img s.kernel l command).2 ≠ none := by
      intro hnone
      simp only [perform, hnone, startEvents] at hes
      cases hes
    rw [← h (startable_of_started hsome)]
    obtain ⟨below, hcur⟩ := List.head?_eq_some_iff.mp hq
    exact (href.getPcbAddress hcur).symm
  | halt l status =>
    simp only [perform, haltEvents] at hes
    split at hes <;> simp at hes
  | exception l vector =>
    simp only [perform, haltEvents] at hes
    split at hes <;> simp at hes
  | read dentry tail fd buf nbytes =>
    simp only [perform] at hes
    split at hes <;> simp at hes
  | switchTerminal saved l tid => simp [perform] at hes
  | _ => simp [perform] at hes

/-- In every run from boot in which only last shells start processes, parents are callers and the
    displayed terminal's top process is installed. -/
theorem parents_installed {img : Image} {k : Kernel} (hk : k.PoweredOn) (saved : Regs)
    (l : Locals) (ops : List Op)
    (hrun : Allowed (Sys.step img) (Sys.ProperShells img) (boot img k saved l) ops) :
    ParentsInstalled (runFrom (Sys.step img) (boot img k saved l) ops) := by
  have hinit := initial_refines hk
  have hinv : ShellsInstalled (initial k).kernel (initial k).sessions :=
    ⟨fun _ => trivial, fun p rest hp => absurd hp.symm (List.cons_ne_nil p rest)⟩
  have hboot : ShellsInstalled (boot img k saved l).kernel (boot img k saved l).sessions :=
    (hinit.switch_effect img saved l 0).shellsInstalled hinit hinv
      (fun _ _ _ _ hq => absurd hq.symm (Option.some_ne_none _))
  obtain ⟨href, h⟩ := boot_invariant (fun s => ShellsInstalled s.kernel s.sessions)
    (fun _ _ hok => hok.1)
    (fun s op href h hok he => he.shellsInstalled href h
      fun _ _ _ hes hq => shellCalls_of_start href hok.2 hes hq) hk hboot hrun
  exact href.parentsInstalled h

/-- Two shells on terminal 0, one on terminal 1, back, and the end of the second shell. -/
def nestedShells : List Op :=
  [.execute (Locals.zero ⟨1, 2⟩) (some shellCommand),
    .switchTerminal ⟨3, 4⟩ (Locals.zero ⟨5, 6⟩) terminalB,
    .switchTerminal ⟨7, 8⟩ (Locals.zero ⟨9, 10⟩) terminalA, .halt (Locals.zero ⟨11, 12⟩) 0]

theorem parents_installed_nestedShells : ParentsInstalled (runFrom (Sys.step shellImage)
    (boot shellImage Kernel.loaded ⟨0, 0⟩ (Locals.zero ⟨0, 0⟩)) nestedShells) :=
  parents_installed loaded_poweredOn ⟨0, 0⟩ (Locals.zero ⟨0, 0⟩) nestedShells (by decide)

/-! ## A program that starts a program -/

/-- Two entries, "shell" and "prog", for one executable. -/
def programImage : Image where
  mem := fun o => (List.lookup o [(0, 2), (4, 1), (8, 1),
    (64, 0x73), (65, 0x68), (66, 0x65), (67, 0x6c), (68, 0x6c), (96, 2),
    (128, 0x70), (129, 0x72), (130, 0x6f), (131, 0x67), (160, 2),
    (4096, 4), (8192, 0x7f), (8193, 0x45), (8194, 0x4c), (8195, 0x46)]).getD 0

def progCommand : CString := ⟨[0x70, 0x72, 0x6f, 0x67], by decide⟩

/-- The process that "prog" started has the shell below "prog" as parent. -/
theorem parent_not_caller : ¬ ∀ (img : Image) (k : Kernel), k.PoweredOn →
    ∀ (saved : Regs) (l : Locals) (ops : List Op),
      Allowed (Sys.step img) Sys.Proper (boot img k saved l) ops →
        ParentsInstalled (runFrom (Sys.step img) (boot img k saved l) ops) := by
  intro hclaim
  have h := hclaim programImage Kernel.loaded loaded_poweredOn ⟨0, 0⟩ (Locals.zero ⟨0, 0⟩)
    [.execute (Locals.zero ⟨0, 0⟩) (some progCommand),
      .execute (Locals.zero ⟨0, 0⟩) (some progCommand)] (by decide)
  have hparent := (h.parent 0 [] 2 1 [0] (by decide)).2
  revert hparent
  decide

end LmaOS
