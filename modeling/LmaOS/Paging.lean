import LmaOS.Util.PageWalk
import LmaOS.State

/-
  Page directory and page tables (paging.c).

  An entry is a 32-bit word. Where the linker put the two page tables is a parameter (`Link`);
  both are aligned to a page. The load of `cr3` and the TLB flush are left out: the walk reads the
  tables as they are.
-/
namespace LmaOS

open Util

abbrev flagP : Nat := 0x01
abbrev flagRW : Nat := 0x02
abbrev flagUS : Nat := 0x04
abbrev entry4MB : Nat := 0x80
/-- `PAGES_NUM`: the entries of the directory and of a table. -/
abbrev pagesNum : Nat := 0x400
abbrev kernelAddr : Nat := 0x400000
/-- `VIDMEM`: the page of the video memory. -/
abbrev vidmem : Nat := 0xB8

/-- The addresses of `page_table` and `vidmem_pagetable`: aligned, below 4 GB, and apart. -/
structure Link where
  pageTable : Nat
  vidmemPagetable : Nat
  pageTable_aligned : pageTable % entrySize = 0
  pageTable_lt : pageTable < 0x100000000
  vidmemPagetable_aligned : vidmemPagetable % entrySize = 0
  vidmemPagetable_lt : vidmemPagetable < 0x100000000
  apart : pageTable ≠ vidmemPagetable

/-- Their places in the shipped `bootimg`. -/
def Link.bootimg : Link :=
  ⟨0x408000, 0x409000, by decide, by decide, by decide, by decide, by decide⟩

structure Paging where
  pageDirectory : Nat → Nat
  pageTable : Nat → Nat
  vidmemPagetable : Nat → Nat

/-- The tables as they are when the kernel is loaded. -/
def Paging.loaded : Paging := ⟨fun _ => 0, fun _ => 0, fun _ => 0⟩

/-- `initPaging`: the kernel's 4 MB page and the table of the first 4 MB are present, and in that
    table the four video pages. -/
def initPaging (link : Link) (g : Paging) : Paging :=
  let dir : Nat → Nat := fun i => if i < pagesNum then flagRW else g.pageDirectory i
  let dir := Function.update dir 1 (kernelAddr ||| (entry4MB ||| flagP ||| flagRW))
  let table : Nat → Nat := fun i =>
    if i < pagesNum then
      if i ≥ vidmem ∧ i ≤ vidmem + 3 then (i * entrySize) ||| (flagP ||| flagRW ||| flagUS)
      else (i * entrySize) ||| flagRW
    else g.pageTable i
  { g with
    pageDirectory := Function.update dir 0 (link.pageTable ||| (flagP ||| flagRW ||| flagUS))
    pageTable := table }

theorem initPaging_directory (link : Link) (g : Paging) (i : Nat) :
    (initPaging link g).pageDirectory i =
      if i = 0 then link.pageTable ||| (flagP ||| flagRW ||| flagUS)
      else if i = 1 then kernelAddr ||| (entry4MB ||| flagP ||| flagRW)
      else if i < pagesNum then flagRW else g.pageDirectory i := by
  unfold initPaging
  dsimp only
  rw [Function.update_apply, Function.update_apply]

/-- `set_process_page`. -/
def setProcessPage (g : Paging) (addr : Int) : Paging :=
  { g with pageDirectory := Function.update g.pageDirectory 32 (word32 addr ||| 0x87) }

theorem setProcessPage_directory (g : Paging) (addr : Int) (i : Nat) :
    (setProcessPage g addr).pageDirectory i =
      if i = 32 then word32 addr ||| 0x87 else g.pageDirectory i := by
  unfold setProcessPage
  dsimp only
  rw [Function.update_apply]

/-- `map2user`. -/
def map2user (link : Link) (g : Paging) (physAddr destPage type : Nat) : Paging :=
  let pagedirEntry := 33
  if type = 1 then
    { g with
      vidmemPagetable :=
        Function.update g.vidmemPagetable destPage (physAddr ||| (flagUS ||| flagRW ||| flagP))
      pageDirectory := Function.update g.pageDirectory pagedirEntry
        (link.vidmemPagetable ||| (flagUS ||| flagRW ||| flagP)) }
  else g

theorem map2user_directory (link : Link) (g : Paging) (physAddr destPage i : Nat) :
    (map2user link g physAddr destPage 1).pageDirectory i =
      if i = 33 then link.vidmemPagetable ||| (flagUS ||| flagRW ||| flagP)
      else g.pageDirectory i := by
  unfold map2user
  dsimp only
  rw [if_pos rfl]
  dsimp only
  rw [Function.update_apply]

theorem map2user_vidmemPagetable (link : Link) (g : Paging) (physAddr destPage i : Nat) :
    (map2user link g physAddr destPage 1).vidmemPagetable i =
      if i = destPage then physAddr ||| (flagUS ||| flagRW ||| flagP)
      else g.vidmemPagetable i := by
  unfold map2user
  dsimp only
  rw [if_pos rfl]
  dsimp only
  rw [Function.update_apply]

/-- The kernel's own directory entry 32. -/
theorem setProcessPage_kernel (k : Kernel) (addr : Int) (table vid : Nat → Nat) :
    (k.setProcessPage addr).pageDirectory =
      (setProcessPage ⟨k.pageDirectory, table, vid⟩ addr).pageDirectory := rfl

/-- What the hardware reads in the frame `f`: one of the two tables, or other memory. -/
def Paging.table (g : Paging) (link : Link) (memory : Nat → Nat → Nat) (f i : Nat) : Nat :=
  if f = frameOf link.pageTable then g.pageTable i
  else if f = frameOf link.vidmemPagetable then g.vidmemPagetable i
  else memory f i

/-- The translation of a linear address. -/
def Paging.translate (g : Paging) (link : Link) (memory : Nat → Nat → Nat) (la : Nat) :
    Option Translation := walk g.pageDirectory (g.table link memory) la

end LmaOS
