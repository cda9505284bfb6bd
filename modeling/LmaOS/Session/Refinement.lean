import LmaOS.Session.System

/-
  The kernel's tables refine the abstract machine of processes.

  `Refines k a`: the kernel's `processes` arrays, counters, slots, PCBs and `last_shell` entries
  say what the stacks of `a` say. One lemma per call (`Refines.started`, `Refines.haltClosed`,
  `Refines.switched`, ...) shows that the kernel's step is matched by the reported events, and
  `Refines.run` that this holds over every run whose arguments fit.
-/
namespace LmaOS

open Util Sessions

/-- A base process is its own parent; any other has the topmost shell below it as parent. -/
def ParentOf (k : Kernel) (born : Int → Birth) (p : Int) (below : List Int) : Prop :=
  (below = [] → (k.pcbs p).parentPid = p) ∧
    (below ≠ [] → topShell born below = some (k.pcbs p).parentPid)

/-- The PCB of a listed process: its pid and the registers it was started with. -/
def PcbOf (k : Kernel) (born : Int → Birth) (p : Int) : Prop :=
  (k.pcbs p).pid = p ∧ (k.pcbs p).parentEbp = (born p).regs.ebp ∧
    (k.pcbs p).parentEsp = (born p).regs.esp

structure Refines (k : Kernel) (a : Sessions) : Prop where
  legal : a.Legal
  shown : k.curTerm = a.shown
  lists : ∀ u, Holds (-1) 4 (k.terminals u).processes (a.stack u)
  counts : ∀ u, (k.terminals u).numProc = (a.stack u).length
  firstRun : ∀ u, (k.terminals u).firstRun = true → a.stack u = []
  slots : k.SlotsMarked
  active : ∀ u p, p ∈ a.stack u → k.processState p = 1
  pcbs : ∀ u p, p ∈ a.stack u → PcbOf k a.born p
  parents : ∀ u, Above (ParentOf k a.born) (a.stack u)
  shells : ∀ u, a.stack u ≠ [] → topShell a.born (a.stack u) = some (k.lastShell u)

/-! ## Reading the tables -/

theorem Refines.procs {k : Kernel} {a : Sessions} (h : Refines k a) (u : Fin 3) :
    k.procs u = a.stack u := (h.lists u).stackOf_eq

theorem Refines.current {k : Kernel} {a : Sessions} (h : Refines k a) :
    k.procs k.curTerm = a.current := by rw [h.procs, h.shown]

/-- `get_pcb_address` finds the top process. -/
theorem Refines.getPcbAddress {k : Kernel} {a : Sessions} (h : Refines k a) {p : Int}
    {below : List Int} (hcur : a.current = p :: below) : getPcbAddress k = p := by
  have hl := h.lists k.curTerm
  rw [h.shown, show a.stack a.shown = p :: below from hcur] at hl
  have htop := Holds.at_top (t := []) hl
  unfold LmaOS.getPcbAddress Kernel.term
  rw [h.shown, hl.firstFree, List.length_cons]
  dsimp only
  rw [if_neg (by omega), Nat.add_sub_cancel]
  exact htop

/-! ## Changes outside the tables -/

/-- Everything `Refines` reads is the same. -/
structure SameTables (k k' : Kernel) : Prop where
  curTerm : k'.curTerm = k.curTerm
  lists : ∀ u, (k'.terminals u).processes = (k.terminals u).processes
  counts : ∀ u, (k'.terminals u).numProc = (k.terminals u).numProc
  firstRun : ∀ u, (k'.terminals u).firstRun = (k.terminals u).firstRun
  processState : k'.processState = k.processState
  lastShell : k'.lastShell = k.lastShell
  pcbs : ∀ p, (k'.pcbs p).pid = (k.pcbs p).pid ∧ (k'.pcbs p).parentPid = (k.pcbs p).parentPid ∧
    (k'.pcbs p).parentEbp = (k.pcbs p).parentEbp ∧ (k'.pcbs p).parentEsp = (k.pcbs p).parentEsp

theorem FileCall.sameTables {k k' : Kernel} (h : FileCall k k') : SameTables k k' := by
  obtain ⟨pcbs, screen, keyboard, rtcA, rfl, hp⟩ := h
  refine ⟨rfl, fun _ => rfl, fun _ => rfl, fun _ => rfl, rfl, rfl, fun p => ?_⟩
  obtain ⟨file, arg, he⟩ := hp p
  dsimp only
  rw [he]
  exact ⟨rfl, rfl, rfl, rfl⟩

theorem ParentOf.congr {k k' : Kernel} {born born' : Int → Birth} {p : Int} {below : List Int}
    (hp : (k'.pcbs p).parentPid = (k.pcbs p).parentPid) (hb : ∀ q ∈ below, born' q = born q)
    (h : ParentOf k born p below) : ParentOf k' born' p below := by
  unfold ParentOf at h ⊢
  rw [hp, topShell_congr hb]
  exact h

theorem Refines.same {k k' : Kernel} {a : Sessions} (h : Refines k a) (hs : SameTables k k') :
    Refines k' a where
  legal := h.legal
  shown := hs.curTerm.trans h.shown
  lists := fun u => by rw [hs.lists]; exact h.lists u
  counts := fun u => by rw [hs.counts]; exact h.counts u
  firstRun := fun u => by rw [hs.firstRun]; exact h.firstRun u
  slots := fun p => by rw [hs.processState]; exact h.slots p
  active := fun u p hp => by rw [hs.processState]; exact h.active u p hp
  pcbs := by
    intro u p hp
    obtain ⟨h1, _, h3, h4⟩ := hs.pcbs p
    unfold PcbOf
    rw [h1, h3, h4]
    exact h.pcbs u p hp
  parents := fun u => (h.parents u).mono fun p _ _ _ =>
    ParentOf.congr (hs.pcbs p).2.1 fun _ _ => rfl
  shells := fun u hne => by rw [hs.lastShell]; exact h.shells u hne

/-! ## execute -/

/-- A failed `execute` may keep a slot, but none of a listed process. -/
theorem Refines.failed {k : Kernel} {a : Sessions} (h : Refines k a) {r : Kernel × Option Int}
    (hf : ExecuteFailed k r) : Refines r.1 a := by
  obtain ⟨message, _, states, hstates, rfl⟩ := hf
  have hstate : ∀ p, states p = k.processState p ∨
      (k.processState p = 0 ∧ (states p = 0 ∨ states p = 1)) := by
    intro p
    rcases hstates with rfl | ⟨hfree, hstates⟩
    · exact Or.inl rfl
    · obtain ⟨_, hzero⟩ := freePid_spec h.slots hfree
      by_cases hp : p = (k.freePid : Int)
      · right
        refine ⟨hp ▸ hzero, ?_⟩
        rcases hstates with rfl | rfl
        · right; rw [hp, Function.update_self]
        · left; rw [hp, Function.update_self]
      · left
        rcases hstates with rfl | rfl
        · rw [Function.update_of_ne hp]
        · rw [Function.update_of_ne hp, Function.update_of_ne hp]
  refine ⟨h.legal, h.shown, h.lists, h.counts, h.firstRun, fun p => ?_, fun u p hp => ?_,
    h.pcbs, h.parents, h.shells⟩
  · rcases hstate p with he | ⟨_, he⟩
    · dsimp only; rw [he]; exact h.slots p
    · exact he
  · rcases hstate p with he | ⟨hz, _⟩
    · dsimp only; rw [he]; exact h.active u p hp
    · have := h.active u p hp
      omega

theorem enlist_eq {t : Terminal} {l : List Int} {pid : Int}
    (hl : Holds (-1) 4 t.processes l) (hfirst : t.firstRun = true → l = [])
    (hroom : l.length < 4) : t.enlist pid = Function.update t.processes l.length pid := by
  unfold Terminal.enlist
  split
  · rename_i hf
    rw [hfirst hf]; rfl
  · dsimp only
    rw [hl.firstFree, if_pos hroom]

theorem firstRunShell_of_ne {k : Kernel} {u : Fin 3} (hu : u ≠ k.curTerm) :
    k.firstRunShell u = k.lastShell u := by
  unfold Kernel.firstRunShell
  split
  · rename_i h
    rw [Function.update_of_ne (by rw [← h.2]; exact hu)]
  · rfl

theorem firstRunShell_of_run {k : Kernel} (hf : k.term.firstRun = false) :
    k.firstRunShell = k.lastShell := by
  unfold Kernel.firstRunShell
  rw [if_neg (by rw [hf]; simp)]

/-- The parent a new process gets. -/
theorem Refines.newParent {k : Kernel} {a : Sessions} (h : Refines k a) (pid : Int)
    (hroom : a.current.length < 4) :
    (a.current = [] → k.newParent pid = pid) ∧
      (a.current ≠ [] → topShell a.born a.current = some (k.newParent pid)) := by
  have hl : Holds (-1) 4 k.term.processes a.current := by
    rw [Kernel.term, h.shown]; exact h.lists a.shown
  have hcount : k.term.numProc = a.current.length := by
    rw [Kernel.term, h.shown]; exact h.counts a.shown
  have hfirst : k.term.firstRun = true → a.current = [] := by
    rw [Kernel.term, h.shown]; exact h.firstRun a.shown
  unfold Kernel.newParent
  constructor
  · intro hnil
    rw [if_pos (by rw [hcount, hnil]; rfl), enlist_eq hl hfirst hroom, hnil, List.length_nil,
      Function.update_self]
  · intro hne
    have hpos := List.length_pos_of_ne_nil hne
    have hf : k.term.firstRun = false := by
      rw [← Bool.not_eq_true]
      exact fun hf => hne (hfirst hf)
    rw [if_neg (by rw [hcount]; omega), firstRunShell_of_run hf, h.shown]
    exact h.shells a.shown hne

theorem Refines.newParent_range {k : Kernel} {a : Sessions} (h : Refines k a) {pid : Int}
    (hroom : a.current.length < 4) (hpid : 0 ≤ pid ∧ pid < 6) :
    0 ≤ k.newParent pid ∧ k.newParent pid < 6 := by
  obtain ⟨hbase, htop⟩ := h.newParent pid hroom
  by_cases hnil : a.current = []
  · rw [hbase hnil]; exact hpid
  · exact h.legal.pids a.shown _ (mem_of_topShell (htop hnil))

/-- What a successful `execute` makes of the tables. -/
structure Started (k k' : Kernel) (pid : Int) (shell : Bool) (regs : Regs) : Prop where
  curTerm : k'.curTerm = k.curTerm
  free : 0 ≤ pid ∧ pid < 6 ∧ k.processState pid = 0
  room : k.term.numProc ≤ 3
  lists : ∀ u, (k'.terminals u).processes =
    if u = k.curTerm then k.term.enlist pid else (k.terminals u).processes
  counts : ∀ u, (k'.terminals u).numProc =
    if u = k.curTerm then k.term.numProc + 1 else (k.terminals u).numProc
  firstRun : ∀ u, (k'.terminals u).firstRun =
    if u = k.curTerm then false else (k.terminals u).firstRun
  processState : k'.processState = Function.update k.processState pid 1
  lastShell : k'.lastShell =
    if shell = true then Function.update k.firstRunShell k.curTerm pid else k.firstRunShell
  others : ∀ q, q ≠ pid → k'.pcbs q = k.pcbs q
  ownFile : (k'.pcbs pid).file = newFiles (k.pcbs pid).file
  ownPid : (k'.pcbs pid).pid = pid
  ownParent : (k'.pcbs pid).parentPid = k.newParent pid
  ownRegs : (k'.pcbs pid).parentEbp = regs.ebp ∧ (k'.pcbs pid).parentEsp = regs.esp
  page : k'.pageDirectory 32 = word32 (size8MB + pid * size4MB) ||| 0x87
  stack : k'.tssEsp0 = word32 (size8MB - pid * size8KB - 4)

theorem isShell_of_parse {cmd : CString} {name arg : List UInt8}
    (h : parse cmd = some (name, arg)) : isShell (some cmd) = decide (name = shellName) := by
  simp [isShell, h]

theorem Refines.hasStarted {k : Kernel} {a : Sessions} (h : Refines k a) {l : Locals}
    {command : Option CString} {r : Kernel × Option Int} (hs : ExecuteStarted k l command r)
    (hfits : ArgFits (.execute l command)) :
    ∃ pid : Int, r.2 = some pid ∧ Started k r.1 pid (isShell command) l.regs := by
  obtain ⟨cmd, name, arg, fileData, nbytes, rfl, hparse, hfree, hnum, rfl⟩ := hs
  obtain ⟨hlt, hzero⟩ := freePid_spec h.slots hfree
  have hcount : k.term.numProc = a.current.length := by
    rw [Kernel.term, h.shown]; exact h.counts a.shown
  have hrange : 0 ≤ (k.freePid : Int) ∧ (k.freePid : Int) < 6 := by omega
  have hprange := h.newParent_range (by omega) hrange
  obtain ⟨hpid, hparent⟩ := newPcb_of_fits k.claimed l.regs (hfits name arg hparse)
    (show 0 ≤ (k.freePid : Int) ∧ (k.freePid : Int) < 2147483648 by omega)
    (show 0 ≤ k.newParent k.freePid ∧ k.newParent k.freePid < 2147483648 by omega)
  have hnew : (startProcess k.claimed l.regs k.freePid name arg fileData nbytes).pcbs k.freePid =
      k.claimed.newPcb l.regs k.freePid arg := Function.update_self _ _ _
  refine ⟨k.freePid, rfl, ?_⟩
  exact
    { curTerm := rfl
      free := ⟨hrange.1, hrange.2, hzero⟩
      room := hnum
      lists := newTerminals_processes k.claimed k.freePid
      counts := newTerminals_numProc k.claimed k.freePid
      firstRun := newTerminals_firstRun k.claimed k.freePid
      processState := rfl
      lastShell := by rw [isShell_of_parse hparse]; simp only [decide_eq_true_eq]; rfl
      others := fun q hq => Function.update_of_ne hq _ _
      ownFile := by rw [hnew, newPcb_file]; rfl
      ownPid := by rw [hnew, hpid]
      ownParent := by rw [hnew, hparent]; rfl
      ownRegs := by rw [hnew]; exact newPcb_regs _ _ _ _
      page := by
        show Function.update k.pageDirectory 32
          (word32 (size8MB + (k.freePid : Int) * size4MB) ||| 0x87) 32 = _
        rw [Function.update_self]
      stack := rfl }

section Started

variable {k k' : Kernel} {a : Sessions} {pid : Int} {birth : Birth}

theorem Refines.fresh (h : Refines k a) (hfree : k.processState pid = 0) {u : Fin 3} {q : Int}
    (hq : q ∈ a.stack u) : q ≠ pid := by
  rintro rfl
  have := h.active u q hq
  omega

/-- The `start` event is legal. -/
theorem Refines.start_legal (h : Refines k a) {regs : Regs} {shell : Bool}
    (hs : Started k k' pid shell regs) (hbase : a.current = [] → shell = true)
    (hbirth : birth = ⟨shell, regs, a.current.head?⟩) : (Event.start pid birth).Legal a := by
  have hroom := hs.room
  rw [Kernel.term, h.shown, h.counts a.shown] at hroom
  refine ⟨fun u hm => h.fresh hs.free.2.2 hm rfl, hs.free.1, hs.free.2.1, ?_, by rw [hbirth], ?_⟩
  · rw [Sessions.current]; omega
  · intro hnil; rw [hbirth]; exact hbase hnil

/-- The last shell after a start: the new process if it is a shell, else the one before. -/
theorem Refines.start_shells (h : Refines k a) {regs : Regs} {shell : Bool}
    (hs : Started k k' pid shell regs) (hbase : a.current = [] → shell = true)
    (hbirth : birth = ⟨shell, regs, a.current.head?⟩) (u : Fin 3)
    (hne : (a.apply (.start pid birth)).stack u ≠ []) :
    topShell (a.apply (.start pid birth)).born ((a.apply (.start pid birth)).stack u) =
      some (k'.lastShell u) := by
  have hborn : ∀ v, ∀ q ∈ a.stack v, Function.update a.born pid birth q = a.born q :=
    fun v q hq => Function.update_of_ne (h.fresh hs.free.2.2 hq) _ _
  have hself : Function.update a.born pid birth pid = birth := Function.update_self _ _ _
  have hlast := hs.lastShell
  rw [apply_start_stack, Function.update_apply] at hne ⊢
  rw [apply_start_born]
  rw [h.shown] at hlast
  rw [hlast]
  by_cases hu : u = a.shown
  · rw [if_pos hu]
    cases hsh : shell with
    | true =>
      rw [topShell_cons_shell (by rw [hself, hbirth, hsh]), if_pos rfl, hu, Function.update_self]
    | false =>
      -- not a base process, so the terminal has run before
      have hcne : a.current ≠ [] := fun hnil => by
        rw [hbase hnil] at hsh
        exact absurd hsh (by decide)
      have hf : k.term.firstRun = false := by
        rw [← Bool.not_eq_true, Kernel.term, h.shown]
        exact fun hf => hcne (h.firstRun a.shown hf)
      rw [topShell_cons_program (by rw [hself, hbirth, hsh]), if_neg (by decide),
        topShell_congr (hborn a.shown), firstRunShell_of_run hf, hu]
      exact h.shells a.shown hcne
  · rw [if_neg hu] at hne ⊢
    have hsame : k.firstRunShell u = k.lastShell u :=
      firstRunShell_of_ne (by rw [h.shown]; exact hu)
    have hkept : (if shell = true then Function.update k.firstRunShell a.shown pid
        else k.firstRunShell) u = k.lastShell u := by
      split
      · rw [Function.update_of_ne hu, hsame]
      · exact hsame
    rw [hkept, topShell_congr (hborn u)]
    exact h.shells u hne

/-- A started process is matched by a `start` event. -/
theorem Refines.started (h : Refines k a) {regs : Regs} {shell : Bool}
    (hs : Started k k' pid shell regs) (hbase : a.current = [] → shell = true)
    (hbirth : birth = ⟨shell, regs, a.current.head?⟩) :
    Refines k' (a.apply (.start pid birth)) := by
  have hroom := (h.start_legal hs hbase hbirth).2.2.2.1
  have hborn : ∀ u, ∀ q ∈ a.stack u, Function.update a.born pid birth q = a.born q :=
    fun u q hq => Function.update_of_ne (h.fresh hs.free.2.2 hq) _ _
  have hold : ∀ u, ∀ q ∈ a.stack u, k'.pcbs q = k.pcbs q :=
    fun u q hq => hs.others q (h.fresh hs.free.2.2 hq)
  have hparents : ∀ u, Above (ParentOf k' (Function.update a.born pid birth)) (a.stack u) :=
    fun u => (h.parents u).mono fun p below hp hb =>
      ParentOf.congr (by rw [hold u p hp]) fun q hq => hborn u q (hb hq)
  refine
    { legal := h.legal.apply (h.start_legal hs hbase hbirth)
      shown := hs.curTerm.trans h.shown
      shells := h.start_shells hs hbase hbirth
      lists := fun u => ?_, counts := fun u => ?_, firstRun := fun u => ?_, slots := fun q => ?_
      active := fun u q hq => ?_, pcbs := fun u q hq => ?_, parents := fun u => ?_ }
  · rw [hs.lists, apply_start_stack, Function.update_apply, h.shown]
    split
    · have hl := h.lists a.shown
      rw [Kernel.term, h.shown, enlist_eq hl (h.firstRun a.shown) hroom]
      exact hl.push hroom (by have := hs.free.1; omega)
    · exact h.lists u
  · rw [hs.counts, apply_start_stack, Function.update_apply, h.shown]
    split
    · rw [Kernel.term, h.shown, h.counts a.shown, List.length_cons]; rfl
    · exact h.counts u
  · rw [hs.firstRun, apply_start_stack, Function.update_apply, h.shown]
    split
    · exact fun hf => absurd hf (by decide)
    · exact h.firstRun u
  · rw [hs.processState, Function.update_apply]
    split
    · exact Or.inr rfl
    · exact h.slots q
  · rw [hs.processState]
    rcases (mem_update_push rfl).mp hq with ⟨_, rfl⟩ | hq
    · rw [Function.update_self]
    · rw [Function.update_of_ne (h.fresh hs.free.2.2 hq)]
      exact h.active u q hq
  · rw [apply_start_born]
    unfold PcbOf
    rcases (mem_update_push rfl).mp hq with ⟨_, rfl⟩ | hq
    · rw [Function.update_self, hbirth]
      exact ⟨hs.ownPid, hs.ownRegs⟩
    · rw [hold u q hq, hborn u q hq]
      exact h.pcbs u q hq
  · rw [apply_start_stack, apply_start_born, Function.update_apply]
    split
    · refine ⟨?_, hparents a.shown⟩
      unfold ParentOf
      rw [hs.ownParent, topShell_congr (hborn a.shown)]
      exact h.newParent pid hroom
    · exact hparents u

end Started

end LmaOS
