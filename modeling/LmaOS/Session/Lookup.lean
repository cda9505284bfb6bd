import LmaOS.Session.Shell

/-
  The calls of `get_pcb_address`.

  `lookups img k op` lists the states in which the call `op` looks up the current PCB; a lookup is
  fine if the displayed terminal lists a process (`LookupFound`). `execute` makes none, the file
  calls make theirs at their start, `halt` one at its start and one for every file it closes, by
  then without the halting process, and `switch_terminal` one before and one after the displayed
  terminal changes.

  `lookups_found_iff`: the lookup of the boot sequence always fails. In a run after boot all
  lookups are fine exactly if terminals are only switched between when both list a process and no
  base shell halts with an open file.
-/
namespace LmaOS

open Util Sessions

/-- The states in which the closing loop calls `close`. -/
def closeLookups (pid : Int) : List Nat → Kernel → List Kernel
  | [], _ => []
  | i :: is, k =>
    (if i > 1 ∧ ((k.pcbs pid).file i).flags = 1 then [k] else [])
      ++ closeLookups pid is (closeStep pid k i)

def haltLookups (k : Kernel) : List Kernel :=
  let pid := getPcbAddress k
  if (haltEnter k).processState (k.pcbs pid).pid = 0 then [k]
  else k :: closeLookups pid (List.range 8) (haltUnlink (haltEnter k) (k.pcbs pid))

def lookups (k : Kernel) : Op → List Kernel
  | .execute _ _ => []
  | .halt _ _ => haltLookups k
  -- the handler's message changes the screen only
  | .exception _ _ => haltLookups { k with exceptionStatus := exceptionFlag }
  -- `open_file` and `open_dir` look up a second time, in the same state
  | .openCall _ _ => [k, k]
  | .close fd => if fd < 2 ∨ fd > 7 then [] else [k]
  -- `read_file` and `read_dir` likewise
  | .read _ _ fd buf nbytes => if buf.isNone ∨ fd < 0 ∨ fd > 7 ∨ nbytes < 0 then [] else [k, k]
  | .write fd buf nbytes => if buf.isNone ∨ fd < 0 ∨ fd > 7 ∨ nbytes < 0 then [] else [k]
  | .getargs buf _ => if buf.isNone then [] else [k]
  | .switchTerminal saved _ tid => [k, restoreTerminal (saveTerminal k saved tid) tid]
  | .devices _ _ => []

/-- `get_pcb_address` does not leave the array, and what it finds is a live process listed in the
    displayed terminal. -/
def Kernel.LookupFound (k : Kernel) : Prop :=
  k.term.processes 0 ≠ -1 ∧ k.processState (getPcbAddress k) = 1 ∧
    ∃ i, i < 4 ∧ k.term.processes i = getPcbAddress k ∧ getPcbAddress k ≠ -1

def LookupsFound (s : Sys) (op : Op) : Prop := ∀ k ∈ lookups s.kernel op, k.LookupFound

/-- Switches are between terminals that list a process, and no base shell halts with one of the
    descriptors 2 to 7 open. -/
def Sys.ListsStay (s : Sys) : Op → Prop
  | .switchTerminal _ _ tid => s.kernel.procs s.kernel.curTerm ≠ [] ∧ s.kernel.procs tid ≠ []
  | .halt _ _ | .exception _ _ => (s.kernel.procs s.kernel.curTerm).length = 1 →
    ∀ i, i < 8 → 2 ≤ i → ((s.kernel.pcbs (getPcbAddress s.kernel)).file i).flags ≠ 1
  | _ => True

/-! ## The lookups of one state -/

theorem Refines.lookupFound_iff {k : Kernel} {a : Sessions} (h : Refines k a) :
    k.LookupFound ↔ a.current ≠ [] := by
  have hl : Holds (-1) 4 k.term.processes a.current := by
    rw [Kernel.term, h.shown]; exact h.lists a.shown
  constructor
  · intro hf
    rw [← List.length_pos_iff]
    exact (hl.ne_iff (by decide)).mp hf.1
  · intro hne
    obtain ⟨p, below, hcur⟩ := List.exists_cons_of_ne_nil hne
    have hmem : p ∈ a.stack a.shown := mem_current hcur
    rw [hcur] at hl
    have htop : k.term.processes below.length = p := Holds.at_top (t := []) hl
    have hfit := hl.fits
    rw [List.length_cons] at hfit
    unfold Kernel.LookupFound
    rw [h.getPcbAddress hcur]
    refine ⟨(hl.ne_iff (by decide)).mpr (by simp), h.active _ p hmem, below.length, by omega,
      htop, ?_⟩
    have := (h.legal.pids _ p hmem).1
    omega

/-! ## The closing loop -/

theorem closeLookups_fileCall {pid : Int} (is : List Nat) {k k' : Kernel}
    (h : k' ∈ closeLookups pid is k) : FileCall k k' := by
  induction is generalizing k with
  | nil => exact absurd h List.not_mem_nil
  | cons i is ih =>
      rw [closeLookups, List.mem_append] at h
      rcases h with h | h
      · split at h
        · rw [List.mem_singleton.mp h]; exact FileCall.refl k
        · exact absurd h List.not_mem_nil
      · exact ((fileCall_closingRel pid).closeStep k i).trans (ih h)

/-- One round changes one entry of the halting process's table. -/
theorem closeStep_file_ne {pid : Int} {k : Kernel} {i j : Nat} (hij : i ≠ j) :
    ((closeStep pid k j).pcbs pid).file i = ((k.pcbs pid).file i) := by
  have hclose : ((close k j).2.pcbs pid).file i = (k.pcbs pid).file i := by
    unfold close
    split
    · rfl
    · dsimp only
      split
      · rfl
      · dsimp only [Kernel.setPcb]
        rw [Function.update_apply]
        split
        · rename_i hp
          subst hp
          dsimp only
          rw [Int.toNat_natCast, Function.update_of_ne hij]
        · rfl
  unfold closeStep
  dsimp only [Kernel.setPcb]
  rw [Function.update_self]
  dsimp only
  rw [Function.update_of_ne hij]
  split
  · exact hclose
  · rfl

theorem closeLookups_eq_nil_iff (pid : Int) {is : List Nat} (hnd : is.Nodup) (k : Kernel) :
    closeLookups pid is k = [] ↔ ∀ i ∈ is, 1 < i → ((k.pcbs pid).file i).flags ≠ 1 := by
  induction is generalizing k with
  | nil => simp [closeLookups]
  | cons j is ih =>
      obtain ⟨hj, hnd'⟩ := List.nodup_cons.mp hnd
      have hlater : (∀ i ∈ is, 1 < i → (((closeStep pid k j).pcbs pid).file i).flags ≠ 1) ↔
          ∀ i ∈ is, 1 < i → ((k.pcbs pid).file i).flags ≠ 1 := by
        refine forall_congr' fun i => forall_congr' fun hi => ?_
        rw [closeStep_file_ne (fun he : i = j => hj (he ▸ hi))]
      rw [closeLookups, List.append_eq_nil_iff, ih hnd', hlater, List.forall_mem_cons]
      refine and_congr_left' ?_
      constructor
      · intro h hgt hopen
        rw [if_pos ⟨hgt, hopen⟩] at h
        exact absurd h (List.cons_ne_nil _ _)
      · intro h
        rw [if_neg fun hc => h hc.1 hc.2]

/-! ## Steps -/

theorem Refines.haltLookups_iff {k : Kernel} {a : Sessions} (h : Refines k a)
    (hcur : a.current ≠ []) : (∀ k' ∈ haltLookups k, k'.LookupFound) ↔
      ((k.procs k.curTerm).length = 1 →
        ∀ i, i < 8 → 2 ≤ i → ((k.pcbs (LmaOS.getPcbAddress k)).file i).flags ≠ 1) := by
  have hfound := h.lookupFound_iff.mpr hcur
  obtain ⟨p, below, hcur⟩ := List.exists_cons_of_ne_nil hcur
  have hmem : p ∈ a.stack a.shown := mem_current hcur
  have hact : (haltEnter k).processState (k.pcbs p).pid = 1 := by
    rw [haltEnter_eq, (h.pcbs _ p hmem).1]; exact h.active _ p hmem
  have hnil := closeLookups_eq_nil_iff p (List.nodup_range (n := 8))
    (haltUnlink (haltEnter k) (k.pcbs p))
  rw [unlinked_pcbs] at hnil
  have hclosing : ∀ k' ∈ closeLookups p (List.range 8) (haltUnlink (haltEnter k) (k.pcbs p)),
      (k'.LookupFound ↔ below ≠ []) := by
    intro k' hk'
    have hsame := ((h.unlinked hcur).same (closeLookups_fileCall _ hk').sameTables)
    rw [hsame.lookupFound_iff, current_finish hcur]
  unfold haltLookups
  dsimp only
  rw [h.current, hcur, h.getPcbAddress hcur, hact, if_neg (by decide), List.length_cons,
    List.forall_mem_cons]
  constructor
  · rintro ⟨_, hall⟩ hone i hi hge
    have hbelow : below = [] := List.eq_nil_of_length_eq_zero (by omega)
    have hno : closeLookups p (List.range 8) (haltUnlink (haltEnter k) (k.pcbs p)) = [] := by
      refine List.eq_nil_iff_forall_not_mem.mpr fun k' hk' => ?_
      exact (hclosing k' hk').mp (hall k' hk') hbelow
    exact hnil.mp hno i (List.mem_range.mpr hi) hge
  · intro hone
    refine ⟨hfound, fun k' hk' => (hclosing k' hk').mpr fun hbelow => ?_⟩
    have hno := hnil.mpr fun i hi hgt =>
      hone (by rw [hbelow]; rfl) i (List.mem_range.mp hi) hgt
    rw [hno] at hk'
    exact absurd hk' List.not_mem_nil

theorem Refines.lookups_iff {s : Sys} (h : Refines s.kernel s.sessions) {op : Op}
    (hi : s.Issued op) : LookupsFound s op ↔ s.ListsStay op := by
  have hcur : s.kernel.procs s.kernel.curTerm ≠ [] → s.sessions.current ≠ [] := by
    rw [h.current]; exact id
  have hfound := h.lookupFound_iff
  unfold LookupsFound
  cases op with
  | execute l command => simp [lookups, Sys.ListsStay]
  | halt l status => exact h.haltLookups_iff (hcur hi)
  | exception l vector =>
    have hin : s.kernel.Entering { s.kernel with exceptionStatus := exceptionFlag } :=
      ⟨s.kernel.screen, exceptionFlag, rfl⟩
    exact (h.same (entering_sameTables hin)).haltLookups_iff (hcur hi)
  | switchTerminal saved l tid =>
    have hnext : (restoreTerminal (saveTerminal s.kernel saved tid) tid).LookupFound ↔
        s.sessions.stack tid ≠ [] :=
      ((h.displayed saved tid).lookupFound_iff)
    simp only [lookups, Sys.ListsStay, List.forall_mem_cons, hfound, hnext, h.current, h.procs]
    simp
  | devices screen keyboard => simp [lookups, Sys.ListsStay]
  | openCall dentry filename =>
    have hok := hfound.mpr (hcur hi)
    exact iff_of_true (by simpa [lookups] using hok) trivial
  | getargs buf nbytes =>
    have hok := hfound.mpr (hcur hi)
    refine iff_of_true ?_ trivial
    simp only [lookups]
    split <;> simp [hok]
  | close fd =>
    have hok := hfound.mpr (hcur hi)
    refine iff_of_true ?_ trivial
    simp only [lookups]
    split <;> simp [hok]
  | read dentry tail fd buf nbytes =>
    have hok := hfound.mpr (hcur hi)
    refine iff_of_true ?_ trivial
    simp only [lookups]
    split <;> simp [hok]
  | write fd buf nbytes =>
    have hok := hfound.mpr (hcur hi)
    refine iff_of_true ?_ trivial
    simp only [lookups]
    split <;> simp [hok]

/-! ## Runs -/

/-- The lookup of the boot sequence fails; after it, every lookup of a run is fine exactly if
    terminals are switched between non-empty lists and no base shell halts with an open file. -/
theorem lookups_found_iff {img : Image} {k : Kernel} (hk : k.PoweredOn) (saved : Regs)
    (l : Locals) (ops : List Op)
    (hrun : Allowed (Sys.step img) Sys.Proper (boot img k saved l) ops) :
    ¬ LookupsFound (initial k) (.switchTerminal saved l 0) ∧
      (Allowed (Sys.step img) LookupsFound (boot img k saved l) ops ↔
        Allowed (Sys.step img) Sys.ListsStay (boot img k saved l) ops) := by
  constructor
  · intro h
    exact ((initial_refines hk).lookupFound_iff.mp (h _ List.mem_cons_self)) rfl
  · exact hrun.congr_steps (fun s => Refines s.kernel s.sessions)
      (fun _ _ href hok _ => href.step hok) (fun _ _ href hok => href.lookups_iff hok.1)
      (boot_refines hk img saved l)

/-- A base shell opens a file, closes it and halts. -/
def lookupRun : List Op :=
  [.openCall ⟨fun _ => 0, 0, 0⟩ shellCommand, .close 2, .halt (Locals.zero ⟨1, 2⟩) 0]

theorem lookups_found_lookupRun :
    ¬ LookupsFound (initial Kernel.loaded) (.switchTerminal ⟨0, 0⟩ (Locals.zero ⟨0, 0⟩) 0) ∧
      (Allowed (Sys.step shellImage) LookupsFound
          (boot shellImage Kernel.loaded ⟨0, 0⟩ (Locals.zero ⟨0, 0⟩)) lookupRun ↔
        Allowed (Sys.step shellImage) Sys.ListsStay
          (boot shellImage Kernel.loaded ⟨0, 0⟩ (Locals.zero ⟨0, 0⟩)) lookupRun) :=
  lookups_found_iff loaded_poweredOn ⟨0, 0⟩ (Locals.zero ⟨0, 0⟩) lookupRun (by decide)

/-- The first display of terminal 1 looks up a process there before it has one. -/
theorem lookup_before_first_shell : ¬ ∀ (img : Image) (k : Kernel), k.PoweredOn →
    ∀ (saved : Regs) (l : Locals) (ops : List Op),
      Allowed (Sys.step img) Sys.Proper (boot img k saved l) ops →
        Allowed (Sys.step img) LookupsFound (boot img k saved l) ops := by
  intro hclaim
  have h := hclaim shellImage Kernel.loaded loaded_poweredOn ⟨0, 0⟩ (Locals.zero ⟨0, 0⟩)
    [.switchTerminal ⟨0, 0⟩ (Locals.zero ⟨0, 0⟩) 1] (by decide)
  have hfound := (h.1 _ (List.mem_cons_of_mem _ List.mem_cons_self)).1
  revert hfound
  decide

end LmaOS
