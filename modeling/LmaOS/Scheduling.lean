import LmaOS.Util.Rotation
import LmaOS.Paging

/-
  The scheduler (scheduling.c).

  `scheduling` runs on every tick of the PIT. It saves the registers under the running terminal's
  `term_proc`, goes on to the next terminal, and loads the video page, the program page and the
  kernel stack of that terminal's `term_proc`. The acknowledgement to the interrupt controller is
  left out.
-/
namespace LmaOS

open Util

/-- `VIDEO`. -/
abbrev video : Nat := 0xB8000

/-- The kernel with its page tables; the page directory is the kernel's. -/
structure PagedKernel where
  kernel : Kernel
  pageTable : Nat → Nat
  vidmemPagetable : Nat → Nat

namespace PagedKernel

def paging (m : PagedKernel) : Paging := ⟨m.kernel.pageDirectory, m.pageTable, m.vidmemPagetable⟩

def setPaging (m : PagedKernel) (g : Paging) : PagedKernel :=
  ⟨{ m.kernel with pageDirectory := g.pageDirectory }, g.pageTable, g.vidmemPagetable⟩

end PagedKernel

/-- `get_pcb_args`. -/
def getPcbArgs (k : Kernel) (term : Fin 3) : Option Int := (k.terminals term).termProc

/-- How a call of `scheduling` ends. -/
inductive TickResult where
  /-- It stores to `cur_process->sche_enable` with `cur_process == NULL`. -/
  | fault
  /-- The next terminal has no process; the interrupted code goes on. -/
  | stayed (m : PagedKernel)
  /-- `ebp` and `esp` of the PCB `p` are loaded. -/
  | switched (m : PagedKernel) (p : Int)

/-- The state a tick leaves, if it leaves one. -/
def TickResult.state : TickResult → Option PagedKernel
  | .fault => none
  | .stayed m | .switched m _ => some m

/-- The first half: registers are saved and the next terminal becomes the running one. -/
def saveProcess (m : PagedKernel) (saved : Regs) (cur : Int) : PagedKernel :=
  let k := m.kernel
  let k := k.setPcb cur { k.pcbs cur with esp := saved.esp, ebp := saved.ebp }
  { m with kernel := { k with runningTerm := slotAfter k.runningTerm 1 } }

/-- The second half: the next process's memory and kernel stack. -/
def loadProcess (link : Link) (m : PagedKernel) (next : Int) : PagedKernel :=
  let running := m.kernel.runningTerm
  let physAddr := if m.kernel.curTerm ≠ running then video + (running.val + 1) * entrySize
    else video
  let m := m.setPaging (map2user link m.paging physAddr 0 1)
  let p := m.kernel.pcbs next
  let m := m.setPaging (setProcessPage m.paging (size8MB + p.pid * size4MB))
  { m with kernel := { m.kernel with
      tssSs0 := 0x18
      tssEsp0 := word32 (size8MB - p.pid * size8KB) } }

/-- `scheduling()`. -/
def scheduling (link : Link) (m : PagedKernel) (saved : Regs) : TickResult :=
  let m := { m with kernel := m.kernel.printf "success!\n" }
  match getPcbArgs m.kernel m.kernel.runningTerm with
  | none => .fault
  | some cur =>
    let m := saveProcess m saved cur
    match getPcbArgs m.kernel m.kernel.runningTerm with
    | none => .stayed m
    | some next => .switched (loadProcess link m next) next

/-- What a tick can do. -/
theorem scheduling_cases (link : Link) (m : PagedKernel) (saved : Regs) :
    (getPcbArgs m.kernel m.kernel.runningTerm = none ∧ scheduling link m saved = .fault) ∨
    ∃ cur, getPcbArgs m.kernel m.kernel.runningTerm = some cur ∧
      let m' := saveProcess { m with kernel := m.kernel.printf "success!\n" } saved cur
      (getPcbArgs m'.kernel m'.kernel.runningTerm = none ∧ scheduling link m saved = .stayed m') ∨
      ∃ next, getPcbArgs m'.kernel m'.kernel.runningTerm = some next ∧
        scheduling link m saved = .switched (loadProcess link m' next) next := by
  unfold scheduling
  dsimp only
  cases hcur : getPcbArgs (m.kernel.printf "success!\n") m.kernel.runningTerm with
  | none => exact Or.inl ⟨hcur, rfl⟩
  | some cur =>
    refine Or.inr ⟨cur, hcur, ?_⟩
    dsimp only
    split
    · rename_i hnext
      exact Or.inl ⟨hnext, rfl⟩
    · rename_i next hnext
      exact Or.inr ⟨next, hnext, rfl⟩

/-- The page that is loaded is the one `execute` and `switch_terminal` install. -/
theorem loadProcess_page (link : Link) (m : PagedKernel) (next : Int) :
    (loadProcess link m next).kernel.pageDirectory 32 =
      word32 (size8MB + (m.kernel.pcbs next).pid * size4MB) ||| 0x87 := by
  unfold loadProcess
  dsimp only [PagedKernel.setPaging]
  rw [setProcessPage_directory, if_pos rfl]

theorem loadProcess_esp0 (link : Link) (m : PagedKernel) (next : Int) :
    (loadProcess link m next).kernel.tssEsp0 =
      word32 (size8MB - (m.kernel.pcbs next).pid * size8KB) := rfl

end LmaOS
