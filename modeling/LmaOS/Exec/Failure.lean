import LmaOS.Exec.Command
import LmaOS.Session.Shell

/-
  What a failing `execute` leaves behind.

  `Untouched` is the state a failing call should leave: the tables, the PCBs, the program page and
  the TSS as they were. A slot is claimed before the command is parsed; the exits for a missing
  file and for a file that is not an executable give it back, the exit for a file name that is too
  long does not.

  `execute_failure_iff`: a failing call leaves the state untouched exactly when it does not take
  that exit, if its frame holds (`FrameFits`: an argument of more than 128 characters runs over
  `active_pid`, and a file too long for a small image over the PCBs). `slot_leak` is a file name
  of 33 characters.
-/
namespace LmaOS

open Util

/-- The process tables, the PCBs, the program page's entry and the TSS are as before. -/
structure Untouched (k k' : Kernel) : Prop where
  processState : k'.processState = k.processState
  lastShell : k'.lastShell = k.lastShell
  terminals : k'.terminals = k.terminals
  pcbs : k'.pcbs = k.pcbs
  pageDirectory : k'.pageDirectory = k.pageDirectory
  tss : k'.tssSs0 = k.tssSs0 ∧ k'.tssEsp0 = k.tssEsp0

/-- The command passes the tests for a free slot, and its file name is too long. -/
def SlotLeaks (k : Kernel) : Option CString → Prop
  | none => False
  | some command =>
    k.allActive = false ∧ k.term.numProc ≤ 3 ∧ 32 < (firstWord command.chars).length

/-- A slot that was free before it was claimed is free again when it is given back. -/
theorem released_eq {k : Kernel} (hm : k.SlotsMarked) (hfree : k.allActive = false) :
    k.released = { k with shellFlag := 1 } := by
  have hslots : Function.update (Function.update k.processState k.freePid 1) k.freePid 0 =
      k.processState := by
    rw [Function.update_idem, ← (freePid_spec hm hfree).2, Function.update_eq_self]
  unfold Kernel.released Kernel.claimed
  dsimp only
  rw [hslots]

theorem execute_leaks {k : Kernel} {command : Option CString} (h : SlotLeaks k command)
    (img : Image) (l : Locals) : execute img k l command =
      (k.claimed.printf "execute error: filename too long\n", none) := by
  cases command with
  | none => exact h.elim
  | some command =>
    obtain ⟨hfree, hroom, hlong⟩ := h
    have hchars : ¬ command.chars = [] := by
      intro hnil
      rw [hnil] at hlong
      exact absurd hlong (Nat.not_lt_zero 32)
    have hactive : ({ k with shellFlag := 1 } : Kernel).allActive = false := hfree
    unfold execute
    dsimp only
    rw [if_neg hchars, hactive, if_neg (by decide), if_neg (Int.not_lt.mpr hroom), parse_eq,
      if_pos hlong]
    rfl

/-- Every other failing exit only prints. -/
theorem execute_restores {img : Image} {k : Kernel} (hm : k.SlotsMarked) {l : Locals}
    {command : Option CString} (hleak : ¬ SlotLeaks k command)
    (hfail : (execute img k l command).2 = none) :
    ∃ message, (execute img k l command).1 = { k with shellFlag := 1 }.printf message := by
  have hexit := execute_exit img k l command
  generalize execute img k l command = r at hfail hexit ⊢
  cases hexit with
  | noCommand _ => exact ⟨_, rfl⟩
  | noSlot _ => exact ⟨_, rfl⟩
  | nameTooLong hfree hroom hparse =>
    exact absurd ⟨hfree, hroom, parse_eq_none_iff.mp hparse⟩ hleak
  | notFound hfree _ _ => exact ⟨_, congrArg (Kernel.printf · _) (released_eq hm hfree)⟩
  | notExecutable hfree _ _ => exact ⟨_, congrArg (Kernel.printf · _) (released_eq hm hfree)⟩
  | started _ _ _ _ _ _ _ => exact absurd hfail (Option.some_ne_none _)

/-- A failing `execute` whose frame holds changes nothing exactly if it does not refuse the file
    name. -/
theorem execute_failure_iff (boot : Nat) {img : Image} {k : Kernel} (hm : k.SlotsMarked)
    {l : Locals} {command : Option CString} (_ : FrameFits boot img l command)
    (hfail : (execute img k l command).2 = none) :
    Untouched k (execute img k l command).1 ↔ ¬ SlotLeaks k command := by
  constructor
  · intro h hleak
    cases command with
    | none => exact hleak
    | some command =>
      obtain ⟨_, hzero⟩ := freePid_spec hm hleak.1
      have hstate := congrFun h.processState k.freePid
      rw [execute_leaks hleak, hzero] at hstate
      exact Nat.one_ne_zero ((Function.update_self _ _ _).symm.trans hstate)
  · intro hleak
    obtain ⟨message, hk⟩ := execute_restores hm hleak hfail
    rw [hk]
    exact ⟨rfl, rfl, rfl, rfl, rfl, rfl, rfl⟩

theorem loaded_slotsMarked : Kernel.loaded.SlotsMarked := fun _ => Or.inl rfl

/-- There is no file "a". -/
theorem execute_failure_iff_missing :
    Untouched Kernel.loaded (execute shellImage Kernel.loaded (Locals.zero ⟨0, 0⟩)
        (some ⟨[0x61], by decide⟩)).1 ↔ ¬ SlotLeaks Kernel.loaded (some ⟨[0x61], by decide⟩) :=
  execute_failure_iff 0x411000 loaded_slotsMarked ⟨by decide, by decide, by decide⟩ (by decide)

/-- A file name of 33 characters takes slot 0. -/
theorem slot_leak : ¬ ∀ (img : Image) (k : Kernel), k.SlotsMarked →
    ∀ (l : Locals) (command : Option CString), (execute img k l command).2 = none →
      Untouched k (execute img k l command).1 := by
  intro hclaim
  have h := hclaim shellImage Kernel.loaded loaded_slotsMarked (Locals.zero ⟨0, 0⟩)
    (some ⟨List.replicate 33 0x61, by decide⟩) (by decide)
  have hslot := congrFun h.processState 0
  revert hslot
  decide

end LmaOS
