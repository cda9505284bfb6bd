import LmaOS.Session.Shell

/-
  The four tables of process management agree.

  `TablesAgree` compares `processes[]`, `num_proc`, `first_run`, `process_state`, the PCBs and
  `last_shell` with each other, on the arrays as they are. `tables_agree`: they agree after every
  run from boot whose calls come from the running process and whose arguments fit, if the image
  has a shell. With an argument of more than 128 characters they do not: it runs over the new
  PCB's pid (`tables_disagree`).
-/
namespace LmaOS

open Util Sessions

/-- The tables say the same about terminal `u`, which lists `n` processes. -/
structure TermAgrees (s : Sys) (u : Fin 3) (n : Nat) : Prop where
  size : n ≤ 4
  used : ∀ i, i < n → (s.kernel.terminals u).processes i ≠ -1
  free : ∀ i, n ≤ i → i < 4 → (s.kernel.terminals u).processes i = -1
  numProc : (s.kernel.terminals u).numProc = n
  active : ∀ i, i < n → s.kernel.processState ((s.kernel.terminals u).processes i) = 1
  pid : ∀ i, i < n → (s.kernel.pcbs ((s.kernel.terminals u).processes i)).pid =
    (s.kernel.terminals u).processes i
  firstRun : (s.kernel.terminals u).firstRun = false ↔ 0 < n
  lastShell : 0 < n → ∃ i, i < n ∧
    s.kernel.lastShell u = (s.kernel.terminals u).processes i ∧
    (s.sessions.born ((s.kernel.terminals u).processes i)).shell = true ∧
    ∀ j, i < j → j < n → (s.sessions.born ((s.kernel.terminals u).processes j)).shell = false

structure TablesAgree (s : Sys) : Prop where
  terms : ∀ u, ∃ n, TermAgrees s u n
  distinct : ∀ u v i j, i < 4 → j < 4 → (s.kernel.terminals u).processes i ≠ -1 →
    (s.kernel.terminals u).processes i = (s.kernel.terminals v).processes j → u = v ∧ i = j

/-! ## Terminals that ran have processes -/

/-- A terminal without processes never had any. -/
def Sys.NoneLost (s : Sys) : Prop :=
  ∀ u, s.sessions.stack u = [] → (s.kernel.terminals u).firstRun = true

theorem NoneLost.same {k k' : Kernel} {a : Sessions} (h : Sys.NoneLost ⟨k, a⟩)
    (hs : SameTables k k') : Sys.NoneLost ⟨k', a⟩ := fun u hu => by
  dsimp only
  rw [hs.firstRun]
  exact h u hu

theorem NoneLost.failed {k : Kernel} {a : Sessions} {r : Kernel × Option Int}
    (h : Sys.NoneLost ⟨k, a⟩) (hf : ExecuteFailed k r) : Sys.NoneLost ⟨r.1, a⟩ := by
  obtain ⟨_, _, _, _, rfl⟩ := hf
  exact h

/-- Only the displayed terminal may lack a process for `start` to keep the others. -/
theorem NoneLost.started {k k' : Kernel} {a : Sessions} {pid : Int} {shell : Bool} {regs : Regs}
    (href : Refines k a) (h : ∀ u, u ≠ a.shown → a.stack u = [] → (k.terminals u).firstRun = true)
    (hs : Started k k' pid shell regs) (birth : Birth) :
    Sys.NoneLost ⟨k', a.apply (.start pid birth)⟩ := by
  intro u hu
  dsimp only at hu ⊢
  rw [apply_start_stack, Function.update_apply] at hu
  rw [hs.firstRun, href.shown]
  split at hu
  · exact absurd hu (List.cons_ne_nil _ _)
  · rename_i hne
    rw [if_neg hne]
    exact h u hne hu

theorem NoneLost.displayed {k : Kernel} {a : Sessions} (h : Sys.NoneLost ⟨k, a⟩) (saved : Regs)
    (tid : Fin 3) : Sys.NoneLost ⟨displayed k saved tid, a.apply (.display tid)⟩ :=
  fun u hu => NoneLost.same h (saveTerminal_sameTables k saved tid) u hu

section Halt

variable {k : Kernel} {a : Sessions} {p : Int} {below : List Int}

theorem haltClosed_firstRun (k : Kernel) (p : Int) (u : Fin 3) :
    ((haltClosed k p).terminals u).firstRun = (k.terminals u).firstRun := by
  rw [(haltClosed_fileCall k p).sameTables.firstRun, unlinked_terminals]
  split
  · subst u; rfl
  · rfl

/-- After the only process of a terminal is unlinked there is room for a base shell. -/
theorem Refines.room_after_halt (h : Refines k a) (hcur : a.current = [p]) :
    (LmaOS.haltClosed k p).allActive = false ∧ (LmaOS.haltClosed k p).term.numProc ≤ 3 := by
  have hclosed := h.haltClosed hcur
  have hmem : p ∈ a.stack a.shown := mem_current hcur
  constructor
  · obtain ⟨hlo, hhi⟩ := h.legal.pids _ p hmem
    have hfree : (LmaOS.haltClosed k p).processState p = 0 := by
      rw [(haltClosed_fileCall k p).sameTables.processState, unlinked_processState,
        (h.pcbs _ p hmem).1, Function.update_self]
    unfold Kernel.allActive
    rw [List.all_eq_false]
    refine ⟨p.toNat, List.mem_range.mpr (by omega), ?_⟩
    rw [Int.toNat_of_nonneg hlo, hfree]
    decide
  · have hnil : (a.apply .finish).current = [] := current_finish hcur
    have hc := hclosed.counts (LmaOS.haltClosed k p).curTerm
    rw [hclosed.shown, show (a.apply .finish).stack (a.apply .finish).shown = [] from hnil] at hc
    rw [show (LmaOS.haltClosed k p).term =
      (LmaOS.haltClosed k p).terminals (LmaOS.haltClosed k p).curTerm from rfl, hclosed.shown, hc]
    decide

theorem haltClosed_noneLost (h : Sys.NoneLost ⟨k, a⟩) (u : Fin 3)
    (hu : u ≠ a.shown) (hnil : (a.apply .finish).stack u = []) :
    ((haltClosed k p).terminals u).firstRun = true := by
  rw [apply_finish_stack, Function.update_of_ne hu] at hnil
  rw [haltClosed_firstRun]
  exact h u hnil

end Halt

/-- With a shell in the image no call leaves a terminal behind without a process. -/
theorem Effect.noneLost {img : Image} {index : Nat} (hshell : HasShell img index) {s : Sys}
    {es : List Event} {k' : Kernel} (href : Refines s.kernel s.sessions) (h : s.NoneLost)
    (he : Effect img s es k') : Sys.NoneLost ⟨k', es.foldl Sessions.apply s.sessions⟩ := by
  cases he with
  | call _ hact => exact NoneLost.same h hact.fileCall.sameTables
  | devices screen keyboard => exact h
  | failed hf => exact NoneLost.failed h hf
  | started hcur hs => exact NoneLost.started href (fun u _ hu => h u hu) hs _
  | @halted k₀ _ p below _ hin hcur he =>
    have h₀ : Sys.NoneLost ⟨k₀, s.sessions⟩ := NoneLost.same h (entering_sameTables hin)
    have href₀ := href.same (entering_sameTables hin)
    cases he with
    | resumed hne =>
      refine NoneLost.same (k := haltClosed k₀ p) (fun u hu => ?_) (loadParent_sameTables _ _)
      by_cases hus : u = s.sessions.shown
      · have hbelow := current_finish hcur
        rw [hus] at hu
        exact absurd (hbelow.symm.trans hu) hne
      · exact haltClosed_noneLost h₀ u hus hu
    | restarted hs =>
      exact NoneLost.started (href₀.haltClosed hcur) (haltClosed_noneLost h₀) hs _
    | @lost l _ hf hr =>
      obtain ⟨hfree, hroom⟩ := href₀.room_after_halt hcur
      exact absurd (hr ▸ hf.result) (execute_shell hshell l hfree hroom)
  | @displayed saved tid hrun => exact NoneLost.displayed h saved tid
  | @displayedFailed saved tid r hnil hf =>
    exact NoneLost.failed (NoneLost.displayed h saved tid) hf
  | @displayedStarted saved tid k' pid regs hnil hs =>
    exact NoneLost.started (href.displayed saved tid)
      (fun u _ hu => NoneLost.displayed h saved tid u hu) hs _

/-! ## The tables agree -/

theorem Refines.termAgrees {s : Sys} (h : Refines s.kernel s.sessions) (hlost : s.NoneLost)
    (u : Fin 3) : TermAgrees s u (s.sessions.stack u).length where
  size := (h.lists u).fits
  used := fun i hi => (h.lists u).used_ne hi
  free := fun i hn hi => (h.lists u).free hi hn
  numProc := h.counts u
  active := fun i hi => h.active u _ ((h.lists u).used hi)
  pid := fun i hi => (h.pcbs u _ ((h.lists u).used hi)).1
  firstRun := by
    rw [List.length_pos_iff]
    constructor
    · intro hf hnil
      rw [hlost u hnil] at hf
      exact absurd hf (by decide)
    · intro hne
      rw [← Bool.not_eq_true]
      exact fun hf => hne (h.firstRun u hf)
  lastShell := by
    intro hpos
    have hshell := h.shells u (List.length_pos_iff.mp hpos)
    unfold topShell at hshell
    obtain ⟨htrue, above, below, hstack, habove⟩ := List.find?_eq_some_iff_append.mp hshell
    have hlist := h.lists u
    rw [hstack] at hlist
    refine ⟨below.length, by rw [hstack]; simp; omega, hlist.at_top.symm, ?_, fun j hj hlt => ?_⟩
    · rw [hlist.at_top]; exact htrue
    · -- a slot above the last shell holds one of the programs above it
      have hmem := hlist.mem_above hj (by rw [hstack] at hlt; exact hlt)
      simpa using habove _ hmem

theorem Refines.tablesAgree {s : Sys} (h : Refines s.kernel s.sessions) (hlost : s.NoneLost) :
    TablesAgree s where
  terms := fun u => ⟨_, h.termAgrees hlost u⟩
  distinct := by
    intro u v i j hi hj hne heq
    have hiu := ((h.lists u).ne_iff hi).mp hne
    have hjv := ((h.lists v).ne_iff hj).mp (heq ▸ hne)
    obtain rfl := h.legal.separate.apart u v _ ((h.lists u).used hiu)
      (heq ▸ (h.lists v).used hjv)
    exact ⟨rfl, (h.lists u).slot_inj (h.legal.separate.nodup u) hiu hjv heq⟩

/-- The tables agree after every proper run from boot. -/
theorem tables_agree {img : Image} {index : Nat} (hshell : HasShell img index) {k : Kernel}
    (hk : k.PoweredOn) (saved : Regs) (l : Locals) (ops : List Op)
    (hrun : Allowed (Sys.step img) Sys.Proper (boot img k saved l) ops) :
    TablesAgree (runFrom (Sys.step img) (boot img k saved l) ops) :=
  let hinit := initial_refines hk
  let hboot := (hinit.switch_effect img saved l 0).noneLost hshell hinit (fun _ _ => rfl)
  let h := boot_invariant _ (fun _ _ hok => hok)
    (fun _ _ href hlost _ he => he.noneLost hshell href hlost) hk hboot hrun
  h.1.tablesAgree h.2

/-- A second shell on terminal 0, then terminal 1 and its base shell's end. -/
def shellRun : List Op :=
  [.execute (Locals.zero ⟨1, 2⟩) (some shellCommand),
    .switchTerminal ⟨3, 4⟩ (Locals.zero ⟨5, 6⟩) terminalB, .halt (Locals.zero ⟨7, 8⟩) 0]

theorem tables_agree_shellRun : TablesAgree (runFrom (Sys.step shellImage)
    (boot shellImage Kernel.loaded ⟨0, 0⟩ (Locals.zero ⟨0, 0⟩)) shellRun) :=
  tables_agree shellImage_hasShell loaded_poweredOn ⟨0, 0⟩ (Locals.zero ⟨0, 0⟩) shellRun
    (by decide)

/-- "shell" with an argument of 134 characters. The five that overrun `arg` on the stack fall on
    `fname` and are what it holds. -/
def overlongCommand : CString where
  chars := shellName ++ [0x20] ++ List.replicate 129 0x61 ++ shellName
  noNul := by simp [shellName]

/-- After that command pid 1 is listed and its PCB says 27756. -/
theorem tables_disagree : ¬ ∀ (img : Image) (index : Nat), HasShell img index → ∀ k : Kernel,
    k.PoweredOn → ∀ (saved : Regs) (l : Locals) (ops : List Op),
      Allowed (Sys.step img) Sys.Issued (boot img k saved l) ops →
        TablesAgree (runFrom (Sys.step img) (boot img k saved l) ops) := by
  intro hclaim
  obtain ⟨n, h⟩ := (hclaim shellImage 0 shellImage_hasShell Kernel.loaded loaded_poweredOn ⟨0, 0⟩
    (Locals.zero ⟨0, 0⟩) [.execute (Locals.zero ⟨0, 0⟩) (some overlongCommand)]
    (by decide)).terms 0
  have hnum := h.numProc
  rw [show ((runFrom (Sys.step shellImage) (boot shellImage Kernel.loaded ⟨0, 0⟩
    (Locals.zero ⟨0, 0⟩)) [.execute (Locals.zero ⟨0, 0⟩) (some overlongCommand)]).kernel.terminals
      0).numProc = 2 by decide] at hnum
  have hpid := h.pid 1 (by omega)
  revert hpid
  decide +kernel

end LmaOS
