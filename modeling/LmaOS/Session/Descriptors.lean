import LmaOS.Session.Shell

/-
  Descriptors over the lifetimes of processes.

  A slot that no terminal lists has descriptors 2 to 7 closed (`Sys.UnlistedClosed`), so a process
  started in it begins with 0 and 1 only. `halt` closes its files after the process is off the
  list, through `close`, which by then finds the PCB of the process below. So the invariant, and
  with it `DescriptorsKept`, holds in the runs in which every process closes its files itself
  before it halts (`descriptors_kept`), and fails in others (`descriptors_leak`).
-/
namespace LmaOS

open Util Sessions

/-- Descriptors 2 to 7 of `pid` are closed. -/
def Kernel.FilesClosed (k : Kernel) (pid : Int) : Prop :=
  ∀ i, i < 8 → 2 ≤ i → ((k.pcbs pid).file i).flags = 0

instance (k : Kernel) (pid : Int) : Decidable (k.FilesClosed pid) :=
  inferInstanceAs (Decidable (∀ i, i < 8 → 2 ≤ i → ((k.pcbs pid).file i).flags = 0))

/-- Descriptors 0 and 1 of `pid` are open, and no other. -/
def Kernel.OnlyStdOpen (k : Kernel) (pid : Int) : Prop :=
  ((k.pcbs pid).file 0).flags = 1 ∧ ((k.pcbs pid).file 1).flags = 1 ∧ k.FilesClosed pid

/-- What a step does to the descriptors: a process it starts has 0 and 1 open only, and a process
    that halts leaves none open and touches no other's. -/
structure DescriptorsKept (img : Image) (s : Sys) (op : Op) : Prop where
  started : ∀ pid birth, Event.start pid birth ∈ (perform img s.kernel op).2 →
    (s.step img op).kernel.OnlyStdOpen pid
  halted : op.isHalt = true → ∀ p below, s.kernel.procs s.kernel.curTerm = p :: below →
    (s.step img op).kernel.FilesClosed p ∧
      ∀ u q, q ∈ s.kernel.procs u → q ≠ p →
        ((s.step img op).kernel.pcbs q).file = (s.kernel.pcbs q).file

/-- A process that halts has closed its files. -/
def Sys.HaltsClosed (s : Sys) (op : Op) : Prop :=
  op.isHalt = true → s.kernel.FilesClosed (getPcbAddress s.kernel)

/-- A proper call, and no halt with open files. -/
def Sys.ProperClosed (s : Sys) (op : Op) : Prop := s.Proper op ∧ s.HaltsClosed op

instance (s : Sys) (op : Op) : Decidable (s.ProperClosed op) :=
  inferInstanceAs (Decidable (s.Proper op ∧
    (op.isHalt = true → s.kernel.FilesClosed (getPcbAddress s.kernel))))

/-- A slot that no terminal lists has its files closed. -/
def Sys.UnlistedClosed (s : Sys) : Prop :=
  ∀ p, (∀ u, p ∉ s.sessions.stack u) → s.kernel.FilesClosed p

/-! ## The closing loop -/

/-- Only the table of `pid` changed, and there only operation tables and no flag. -/
def FlagsKept (pid : Int) (k k' : Kernel) : Prop :=
  (∀ q, q ≠ pid → k'.pcbs q = k.pcbs q) ∧
    ∀ i, ((k'.pcbs pid).file i).flags = ((k.pcbs pid).file i).flags

theorem FlagsKept.filesClosed {pid : Int} {k k' : Kernel} (h : FlagsKept pid k k') {q : Int}
    (hq : k.FilesClosed q) : k'.FilesClosed q := by
  intro i hi hi'
  by_cases hp : q = pid
  · subst hp; rw [h.2 i]; exact hq i hi hi'
  · rw [h.1 q hp]; exact hq i hi hi'

theorem closeStep_flagsKept {pid : Int} {k : Kernel} (hclosed : k.FilesClosed pid) {i : Nat}
    (hi : i < 8) : FlagsKept pid k (closeStep pid k i) := by
  have hskip : ¬ (i > 1 ∧ ((k.pcbs pid).file i).flags = 1) := by
    rintro ⟨hgt, hopen⟩
    rw [hclosed i hi hgt] at hopen
    exact absurd hopen (by decide)
  unfold closeStep
  dsimp only
  rw [if_neg hskip]
  refine ⟨fun q hq => Function.update_of_ne hq _ _, fun j => ?_⟩
  dsimp only [Kernel.setPcb]
  rw [Function.update_self]
  dsimp only
  rw [Function.update_apply]
  split
  · subst j; rfl
  · rfl

theorem closeSteps_flagsKept {pid : Int} (is : List Nat) (his : ∀ i ∈ is, i < 8) {k : Kernel}
    (hclosed : k.FilesClosed pid) : FlagsKept pid k (is.foldl (closeStep pid) k) := by
  induction is generalizing k with
  | nil => exact ⟨fun _ _ => rfl, fun _ => rfl⟩
  | cons i is ih =>
      have hone := closeStep_flagsKept hclosed (his i List.mem_cons_self)
      have hrest := ih (fun j hj => his j (List.mem_cons_of_mem i hj)) (hone.filesClosed hclosed)
      exact ⟨fun q hq => (hrest.1 q hq).trans (hone.1 q hq),
        fun j => (hrest.2 j).trans (hone.2 j)⟩

/-- A process without open files is closed without a call of `close`. -/
theorem haltClosed_flagsKept {pid : Int} {k : Kernel} (hclosed : k.FilesClosed pid) :
    FlagsKept pid k (haltClosed k pid) := by
  have hentered : (haltUnlink (haltEnter k) (k.pcbs pid)).FilesClosed pid := by
    intro i hi hi'
    rw [unlinked_pcbs]
    exact hclosed i hi hi'
  have h := closeSteps_flagsKept (List.range 8) (fun i hi => List.mem_range.mp hi) hentered
  unfold FlagsKept at h
  rw [unlinked_pcbs] at h
  exact h

/-! ## Started processes -/

theorem ExecuteFailed.pcbs {k : Kernel} {r : Kernel × Option Int} (h : ExecuteFailed k r) :
    r.1.pcbs = k.pcbs := by
  obtain ⟨_, _, _, _, rfl⟩ := h
  rfl

section Started

variable {k k' : Kernel} {pid : Int} {shell : Bool} {regs : Regs}

theorem Started.onlyStdOpen (h : Started k k' pid shell regs) (hclosed : k.FilesClosed pid) :
    k'.OnlyStdOpen pid := by
  unfold Kernel.OnlyStdOpen Kernel.FilesClosed
  rw [h.ownFile]
  unfold newFiles
  dsimp only
  refine ⟨?_, ?_, fun i hi hi' => ?_⟩
  · rw [Function.update_of_ne (by decide), Function.update_self]
  · rw [Function.update_self]
  · rw [Function.update_of_ne (by omega), Function.update_of_ne (by omega)]
    exact hclosed i hi hi'

theorem Started.filesClosed (h : Started k k' pid shell regs) {q : Int} (hq : k.FilesClosed q) :
    k'.FilesClosed q := by
  by_cases hp : q = pid
  · subst hp; exact (h.onlyStdOpen hq).2.2
  · intro i hi hi'
    rw [h.others q hp]
    exact hq i hi hi'

end Started

/-! ## Steps -/

theorem displayed_file (k : Kernel) (saved : Regs) (tid : Fin 3) (p : Int) :
    ((displayed k saved tid).pcbs p).file = (k.pcbs p).file := by
  obtain ⟨_, _, h⟩ := saveTerminal_pcbs k saved tid p
  show ((saveTerminal k saved tid).pcbs p).file = _
  rw [h]

theorem displayed_filesClosed {k : Kernel} {saved : Regs} {tid : Fin 3} {p : Int}
    (h : k.FilesClosed p) : (displayed k saved tid).FilesClosed p := by
  intro i hi hi'
  rw [displayed_file]
  exact h i hi hi'

section Halt

variable {img : Image} {k₀ k' : Kernel} {p : Int} {below : List Int} {es : List Event}

/-- `halt` with closed files leaves the files of every process closed that had them closed. -/
theorem HaltEffect.filesClosed (he : HaltEffect img k₀ p below es k')
    (hclosed : k₀.FilesClosed p) {q : Int} (hq : k₀.FilesClosed q) : k'.FilesClosed q := by
  have hkept := (haltClosed_flagsKept hclosed).filesClosed hq
  cases he with
  | resumed hne => exact hkept
  | restarted hs => exact hs.filesClosed hkept
  | @lost _ r hf _ =>
    intro i hi hi'
    show ((r.1.pcbs q).file i).flags = 0
    rw [hf.pcbs]
    exact hkept i hi hi'

/-- `halt` with closed files leaves every other listed process alone. -/
theorem HaltEffect.others (he : HaltEffect img k₀ p below es k') {a : Sessions}
    (href : Refines k₀ a) (hcur : a.current = p :: below) (hclosed : k₀.FilesClosed p) {u : Fin 3}
    {q : Int} (hq : q ∈ a.stack u) (hne : q ≠ p) : (k'.pcbs q).file = (k₀.pcbs q).file := by
  have hkept := (haltClosed_flagsKept hclosed).1 q hne
  cases he with
  | resumed _ => exact congrArg Pcb.file hkept
  | @restarted _ new _ hs =>
    -- the new process is in a free slot, `q` is not
    have hqnew : q ≠ new :=
      (href.haltClosed hcur).fresh hs.free.2.2 (mem_finish hcur hq hne)
    rw [hs.others q hqnew, hkept]
  | @lost _ r hf _ =>
    show (r.1.pcbs q).file = _
    rw [hf.pcbs, hkept]

end Halt

theorem entering_pcbs {k k₀ : Kernel} (h : k.Entering k₀) : k₀.pcbs = k.pcbs := by
  obtain ⟨_, _, rfl⟩ := h
  rfl

theorem entering_filesClosed {k k₀ : Kernel} (h : k.Entering k₀) {p : Int}
    (hp : k.FilesClosed p) : k₀.FilesClosed p := by
  intro i hi hi'
  rw [entering_pcbs h]
  exact hp i hi hi'

/-- Every step that halts no process with open files keeps the unlisted slots closed. -/
theorem Effect.unlistedClosed {img : Image} {s : Sys} {es : List Event} {k' : Kernel}
    (href : Refines s.kernel s.sessions) (h : s.UnlistedClosed)
    (hhalt : ∀ p below, s.sessions.current = p :: below → es.head? = some .finish →
      s.kernel.FilesClosed p) (he : Effect img s es k') :
    Sys.UnlistedClosed ⟨k', es.foldl Sessions.apply s.sessions⟩ := by
  intro q hq
  cases he with
  | call hcur hact =>
    obtain ⟨p, below, hp⟩ := List.exists_cons_of_ne_nil hcur
    obtain ⟨file, arg, screen, keyboard, rtcA, rfl⟩ := hact
    have hqp : q ≠ getPcbAddress s.kernel := by
      rw [href.getPcbAddress hp]
      rintro rfl
      have hm : q ∈ s.sessions.current := by rw [hp]; exact List.mem_cons_self
      exact hq s.sessions.shown hm
    intro i hi hi'
    dsimp only
    rw [Function.update_of_ne hqp]
    exact h q hq i hi hi'
  | devices screen keyboard => exact h q hq
  | failed hf =>
    intro i hi hi'
    dsimp only
    rw [hf.pcbs]
    exact h q hq i hi hi'
  | started hcur hs =>
    refine hs.filesClosed (h q fun u hm => hq u ?_)
    exact (mem_update_push rfl).mpr (Or.inr hm)
  | @halted k₀ _ p below _ hin hcur he =>
    have hclosed : s.kernel.FilesClosed p := hhalt p below hcur (by cases he <;> rfl)
    have hunlisted : s.kernel.FilesClosed q := by
      by_cases hqp : q = p
      · subst hqp; exact hclosed
      · refine h q fun u hm => hq u ?_
        have hstay := mem_finish hcur hm hqp
        cases he with
        | resumed _ => exact hstay
        | restarted _ => exact (mem_update_push rfl).mpr (Or.inr hstay)
        | lost _ _ => exact hstay
    exact he.filesClosed (entering_filesClosed hin hclosed) (entering_filesClosed hin hunlisted)
  | displayed _ => exact displayed_filesClosed (h q hq)
  | displayedFailed _ hf =>
    intro i hi hi'
    dsimp only
    rw [hf.pcbs]
    exact displayed_filesClosed (h q hq) i hi hi'
  | displayedStarted _ hs =>
    refine hs.filesClosed (displayed_filesClosed (h q fun u hm => hq u ?_))
    exact (mem_update_push rfl).mpr (Or.inr hm)

/-- A started process begins in a slot whose files are closed. -/
theorem Effect.onlyStdOpen {img : Image} {s : Sys} {es : List Event} {k' : Kernel}
    (href : Refines s.kernel s.sessions) (h : s.UnlistedClosed)
    (hhalt : ∀ p below, s.sessions.current = p :: below → es.head? = some .finish →
      s.kernel.FilesClosed p) (he : Effect img s es k') {pid : Int} {birth : Birth}
    (hmem : Event.start pid birth ∈ es) : k'.OnlyStdOpen pid := by
  cases he with
  | started hcur hs =>
    simp only [List.mem_singleton, Event.start.injEq] at hmem
    obtain ⟨rfl, _⟩ := hmem
    exact hs.onlyStdOpen (h pid fun u hm => href.fresh hs.free.2.2 hm rfl)
  | @halted k₀ _ p below _ hin hcur he =>
    have hclosed := hhalt p below hcur (by cases he <;> rfl)
    have href₀ := href.same (entering_sameTables hin)
    cases he with
    | @restarted _ new _ hs =>
      simp only [List.mem_cons, List.not_mem_nil, or_false, Event.start.injEq, reduceCtorEq,
        false_or] at hmem
      obtain ⟨rfl, _⟩ := hmem
      refine hs.onlyStdOpen ((haltClosed_flagsKept (entering_filesClosed hin hclosed)).filesClosed
        (entering_filesClosed hin ?_))
      by_cases hpid : pid = p
      · rw [hpid]; exact hclosed
      · exact h pid fun u hm =>
          (href₀.haltClosed hcur).fresh hs.free.2.2 (mem_finish hcur hm hpid) rfl
    | resumed _ => simp at hmem
    | lost _ _ => simp at hmem
  | displayedStarted hnil hs =>
    simp only [List.mem_cons, List.not_mem_nil, or_false, Event.start.injEq, reduceCtorEq,
      false_or] at hmem
    obtain ⟨rfl, _⟩ := hmem
    exact hs.onlyStdOpen (displayed_filesClosed
      (h pid fun u hm => (href.displayed _ _).fresh hs.free.2.2 hm rfl))
  | _ => simp at hmem

/-- Only calls of `halt` report that a process ended. -/
theorem isHalt_of_finish {img : Image} {k : Kernel} {op : Op}
    (h : (perform img k op).2.head? = some .finish) : op.isHalt = true := by
  cases op with
  | halt l status => rfl
  | exception l vector => rfl
  | execute l command =>
    simp only [perform, startEvents] at h
    split at h <;> simp at h
  | read dentry tail fd buf nbytes =>
    simp only [perform] at h
    split at h <;> simp at h
  | _ => simp [perform] at h

section Steps

variable {img : Image} {s : Sys} {op : Op}

/-- The condition in the terms of the effects. -/
theorem Sys.HaltsClosed.effect (h : s.HaltsClosed op) (href : Refines s.kernel s.sessions)
    (p : Int) (below : List Int) (hcur : s.sessions.current = p :: below)
    (hfin : (perform img s.kernel op).2.head? = some .finish) : s.kernel.FilesClosed p :=
  href.getPcbAddress hcur ▸ h (isHalt_of_finish hfin)

theorem Refines.descriptorsKept (href : Refines s.kernel s.sessions) (h : s.UnlistedClosed)
    (hok : s.ProperClosed op) : DescriptorsKept img s op where
  started := fun _ _ hmem =>
    (href.effect hok.1).onlyStdOpen href h (hok.2.effect href) hmem
  halted := by
    intro hop p below hcur
    rw [href.current] at hcur
    have hclosed : s.kernel.FilesClosed p := href.getPcbAddress hcur ▸ hok.2 hop
    obtain ⟨k₀, hin, he⟩ := href.halt_op img op hop hcur
    have hin' := entering_filesClosed hin hclosed
    refine ⟨he.filesClosed hin' hin', fun u q hq hne => ?_⟩
    rw [href.procs] at hq
    exact (he.others (href.same (entering_sameTables hin)) hcur hin' hq hne).trans
      (congrArg (fun pcbs => (pcbs q).file) (entering_pcbs hin))

end Steps

/-- In every run from boot in which no process halts with open files, every step keeps the
    descriptors: a started process has 0 and 1 open, a halted one none. -/
theorem descriptors_kept {img : Image} {k : Kernel} (hk : k.PoweredOn)
    (hzero : ∀ p, k.FilesClosed p) (saved : Regs) (l : Locals) (ops : List Op)
    (hrun : Allowed (Sys.step img) Sys.ProperClosed (boot img k saved l) ops) :
    DescriptorsKept img (initial k) (.switchTerminal saved l 0) ∧
      Allowed (Sys.step img) (DescriptorsKept img) (boot img k saved l) ops := by
  have hinit := initial_refines hk
  have hshell := hinit.switch_effect img saved l 0
  have hnone : ∀ p below, (initial k).sessions.current = p :: below → (perform img
      (initial k).kernel (.switchTerminal saved l 0)).2.head? = some .finish →
      (initial k).kernel.FilesClosed p :=
    fun p below hcur _ => absurd hcur.symm (List.cons_ne_nil p below)
  have hzero' : (initial k).UnlistedClosed := fun p _ => hzero p
  constructor
  · exact ⟨fun _ _ hmem => hshell.onlyStdOpen hinit hzero' hnone hmem,
      fun hop => absurd hop Bool.false_ne_true⟩
  · exact boot_steps _ (fun _ _ hok => hok.1)
      (fun s op href h hok he => he.unlistedClosed href h (hok.2.effect href))
      (fun s op href h hok => href.descriptorsKept h hok) hk
      (hshell.unlistedClosed hinit hzero' hnone) hrun

/-- A program opens a file, closes it and halts. -/
def closingRun : List Op :=
  [.execute (Locals.zero ⟨1, 2⟩) (some shellCommand), .openCall ⟨fun _ => 0, 0, 0⟩ shellCommand,
    .close 2, .halt (Locals.zero ⟨3, 4⟩) 0]

theorem loaded_filesClosed (p : Int) : Kernel.loaded.FilesClosed p := fun _ _ _ => rfl

theorem descriptors_kept_closingRun : DescriptorsKept shellImage (initial Kernel.loaded)
      (.switchTerminal ⟨0, 0⟩ (Locals.zero ⟨0, 0⟩) 0) ∧
    Allowed (Sys.step shellImage) (DescriptorsKept shellImage)
      (boot shellImage Kernel.loaded ⟨0, 0⟩ (Locals.zero ⟨0, 0⟩)) closingRun :=
  descriptors_kept loaded_poweredOn loaded_filesClosed ⟨0, 0⟩ (Locals.zero ⟨0, 0⟩) closingRun
    (by decide)

/-- A program that halts with descriptor 2 open leaves it open. -/
theorem descriptors_leak : ¬ ∀ (img : Image) (k : Kernel), k.PoweredOn →
    (∀ p, k.FilesClosed p) → ∀ (saved : Regs) (l : Locals) (ops : List Op),
      Allowed (Sys.step img) Sys.Proper (boot img k saved l) ops →
        Allowed (Sys.step img) (DescriptorsKept img) (boot img k saved l) ops := by
  intro hclaim
  have h := hclaim shellImage Kernel.loaded loaded_poweredOn loaded_filesClosed ⟨0, 0⟩
    (Locals.zero ⟨0, 0⟩) [.execute (Locals.zero ⟨1, 2⟩) (some shellCommand),
      .openCall ⟨fun _ => 0, 0, 0⟩ shellCommand, .halt (Locals.zero ⟨3, 4⟩) 0]
    (by decide)
  have hclosed := (h.2.2.1.halted rfl 1 [0] (by decide)).1 2 (by decide) (by decide)
  revert hclosed
  decide

end LmaOS
