import LmaOS.Util.Run
import LmaOS.Paging

/-
  Address-space isolation.

  `Mapped` is what `initPaging` sets up and every later update keeps: the shape of all 1024
  directory entries and of both tables, up to the process and the video page last installed. From
  it `Mapped.user_access` lists where a user access can go, over the whole 32-bit address space;
  the properties of `Isolated` are read off that list. `Mapped.kernel_access` and
  `Mapped.gap_access` are what the kernel itself finds from 4 MB up to the program page.
-/
namespace LmaOS

open Util

/-- The updates of the kernel after `initPaging`: a process's page, and one of the four video
    pages for the user. -/
inductive PageOp where
  | setProcessPage (pid : Fin 6)
  | map2user (page : Fin 4)

/-- The tables, and the process whose page was installed last. -/
structure Paged where
  tables : Paging
  installed : Option (Fin 6)

namespace Paged

def init (link : Link) : Paged := ⟨initPaging link Paging.loaded, none⟩

def step (link : Link) (s : Paged) : PageOp → Paged
  | .setProcessPage pid => ⟨setProcessPage s.tables (size8MB + pid * size4MB), some pid⟩
  | .map2user page => ⟨map2user link s.tables (vidmem * entrySize + page * entrySize) 0 1,
      s.installed⟩

/-- The tables after a run. -/
def run (link : Link) (ops : List PageOp) : Paged := runFrom (step link) (init link) ops

end Paged

/-- The linear addresses a user program may use: the video pages, its program page and the page
    `vidmap` gives out. -/
def UserWindow (la : Nat) : Prop :=
  0xB8000 ≤ la ∧ la < 0xBC000 ∨ 0x08000000 ≤ la ∧ la < 0x08400000 ∨
    0x08400000 ≤ la ∧ la < 0x08401000

/-- The physical memory of a process: 4 MB from `8MB + pid * 4MB` on. -/
def processFrame (pid : Fin 6) : Nat := 0x800000 + pid * 0x400000

/-- A user reaches its windows only, the program page is that of the process installed last, and
    the kernel's frame is out of reach. -/
structure Isolated (translate : Nat → Option Translation) (installed : Option (Fin 6)) : Prop where
  window : ∀ la, la < 0x100000000 → ∀ t, translate la = some t → t.user = true → UserWindow la
  program : ∀ pid, installed = some pid → ∀ d, d < 0x400000 → ∃ t,
    translate (0x08000000 + d) = some t ∧ t.user = true ∧ t.phys = processFrame pid + d
  kernel : ∀ la, la < 0x100000000 → ∀ t, translate la = some t → t.user = true →
    ¬ (0x400000 ≤ t.phys ∧ t.phys < 0x800000)

/-! ## The shape of the tables -/

/-- An entry that is not present. -/
abbrev absent : Nat := flagRW

/-- The tables after `initPaging` and any updates. -/
structure Mapped (link : Link) (s : Paged) : Prop where
  low : s.tables.pageDirectory 0 = link.pageTable + 7
  kernel : s.tables.pageDirectory 1 = 0x400083
  program : s.tables.pageDirectory 32 =
    match s.installed with
    | none => absent
    | some pid => processFrame pid + 0x87
  video : s.tables.pageDirectory 33 = absent ∨ s.tables.pageDirectory 33 = link.vidmemPagetable + 7
  rest : ∀ i, i < 1024 → i ≠ 0 → i ≠ 1 → i ≠ 32 → i ≠ 33 → s.tables.pageDirectory i = absent
  lowPages : ∀ i, i < 1024 →
    s.tables.pageTable i = i * 4096 + if 0xB8 ≤ i ∧ i ≤ 0xBB then 7 else 2
  videoPage : s.tables.vidmemPagetable 0 = 0 ∨
    ∃ page, page < 4 ∧ s.tables.vidmemPagetable 0 = 0xB8000 + page * 4096 + 7
  videoRest : ∀ i, i ≠ 0 → s.tables.vidmemPagetable i = 0

theorem initPaging_mapped (link : Link) : Mapped link (Paged.init link) where
  low := by
    unfold Paged.init
    rw [initPaging_directory, if_pos rfl]
    exact entry_or link.pageTable_aligned (by decide)
  kernel := rfl
  program := rfl
  video := Or.inl rfl
  rest := by
    intro i hi h0 h1 _ _
    unfold Paged.init
    rw [initPaging_directory, if_neg h0, if_neg h1, if_pos hi]
  lowPages := by
    intro i hi
    have hpage : i * entrySize % 4096 = 0 := Nat.mul_mod_left i 4096
    show (if i < pagesNum then _ else _) = _
    rw [if_pos hi]
    by_cases hvideo : 0xB8 ≤ i ∧ i ≤ 0xBB
    · rw [if_pos hvideo, if_pos hvideo]
      exact entry_or hpage (by decide)
    · rw [if_neg hvideo, if_neg hvideo]
      exact entry_or hpage (by decide)
  videoPage := Or.inl rfl
  videoRest := fun _ _ => rfl

/-- The entry `set_process_page` writes for a process. -/
theorem processEntry (pid : Fin 6) :
    word32 (size8MB + pid * size4MB) ||| 0x87 = processFrame pid + 0x87 := by
  have hword : word32 (size8MB + pid * size4MB) = processFrame pid := by
    have hpid := pid.isLt
    simp only [word32, size8MB, size4MB, processFrame]
    omega
  have haligned : processFrame pid % 4096 = 0 := by
    unfold processFrame
    omega
  rw [hword]
  exact entry_or haligned (by decide)

/-- The two entries a mapping of a video page writes. -/
theorem Paged.map2user_entries (link : Link) (s : Paged) (page : Fin 4) :
    (s.step link (.map2user page)).tables.pageDirectory 33 = link.vidmemPagetable + 7 ∧
      (s.step link (.map2user page)).tables.vidmemPagetable 0 = 0xB8000 + page * 4096 + 7 :=
  ⟨((map2user_directory link _ _ 0 33).trans (if_pos rfl)).trans
      (entry_or link.vidmemPagetable_aligned (by decide)),
    ((map2user_vidmemPagetable link _ _ 0 0).trans (if_pos rfl)).trans
      (entry_or (by simp only [vidmem, entrySize]; omega) (by decide))⟩

theorem Mapped.step {link : Link} {s : Paged} (h : Mapped link s) (op : PageOp) :
    Mapped link (s.step link op) := by
  cases op with
  | setProcessPage pid =>
    have hdir : ∀ i, i ≠ 32 → (s.step link (.setProcessPage pid)).tables.pageDirectory i =
        s.tables.pageDirectory i := by
      intro i hi
      exact (setProcessPage_directory _ _ i).trans (if_neg hi)
    have hown : (s.step link (.setProcessPage pid)).tables.pageDirectory 32 =
        processFrame pid + 0x87 :=
      ((setProcessPage_directory _ _ 32).trans (if_pos rfl)).trans (processEntry pid)
    exact
      { low := (hdir 0 (by decide)).trans h.low
        kernel := (hdir 1 (by decide)).trans h.kernel
        program := hown
        video := by rw [hdir 33 (by decide)]; exact h.video
        rest := fun i hi h0 h1 h32 h33 => (hdir i h32).trans (h.rest i hi h0 h1 h32 h33)
        lowPages := h.lowPages
        videoPage := h.videoPage
        videoRest := h.videoRest }
  | map2user page =>
    have hdir : ∀ i, i ≠ 33 → (s.step link (.map2user page)).tables.pageDirectory i =
        s.tables.pageDirectory i := by
      intro i hi
      exact (map2user_directory link _ _ 0 i).trans (if_neg hi)
    obtain ⟨hown, hpage⟩ := s.map2user_entries link page
    exact
      { low := (hdir 0 (by decide)).trans h.low
        kernel := (hdir 1 (by decide)).trans h.kernel
        program := (hdir 32 (by decide)).trans h.program
        video := Or.inr hown
        rest := fun i hi h0 h1 h32 h33 => (hdir i h33).trans (h.rest i hi h0 h1 h32 h33)
        lowPages := h.lowPages
        videoPage := Or.inr ⟨page, page.isLt, hpage⟩
        videoRest := fun i hi => ((map2user_vidmemPagetable link _ _ 0 i).trans (if_neg hi)).trans
          (h.videoRest i hi) }

/-- The shape is kept over every run. -/
theorem run_mapped (link : Link) (ops : List PageOp) : Mapped link (Paged.run link ops) :=
  (allowed_true _ ops).invariant (Mapped link) (fun _ op h _ => h.step op)
    (initPaging_mapped link)

/-! ## Accesses -/

section Access

variable {link : Link} {s : Paged} {memory : Nat → Nat → Nat} {la : Nat} {t : Translation}

theorem table_low (g : Paging) (i : Nat) :
    g.table link memory (frameOf link.pageTable) i = g.pageTable i := if_pos rfl

theorem table_video (g : Paging) (i : Nat) :
    g.table link memory (frameOf link.vidmemPagetable) i = g.vidmemPagetable i := by
  have hapart : frameOf link.vidmemPagetable ≠ frameOf link.pageTable := by
    have hp := link.pageTable_aligned
    have hv := link.vidmemPagetable_aligned
    have hne := link.apart
    simp only [entrySize] at hp hv
    unfold frameOf
    omega
  unfold Paging.table
  rw [if_neg hapart, if_pos rfl]

theorem not_present_absent : ¬ IsPresent absent := by decide

/-- The directory entries a user access can go through. -/
theorem Mapped.user_entry (h : Mapped link s) {i : Nat} (hi : i < 1024)
    (hp : IsPresent (s.tables.pageDirectory i)) (hu : IsUser (s.tables.pageDirectory i)) :
    i = 0 ∨ i = 32 ∨ i = 33 := by
  by_contra hne
  simp only [not_or] at hne
  obtain ⟨h0, h32, h33⟩ := hne
  by_cases h1 : i = 1
  · rw [h1, h.kernel] at hu
    exact absurd hu (by decide)
  · rw [h.rest i hi h0 h1 h32 h33] at hp
    exact not_present_absent hp

/-- Through the table of the first 4 MB: a video page, to itself. -/
theorem Mapped.low_access (h : Mapped link s) (hidx : la / 0x400000 = 0)
    (ht : s.tables.translate link memory la = some t) (hu : t.user = true) :
    0xB8000 ≤ la ∧ la < 0xBC000 ∧ t.phys = la := by
  obtain ⟨_, _, haccess⟩ := walk_user ht hu
  have haligned := link.pageTable_aligned
  rw [hidx, h.low, frameOf_add haligned (by decide), table_low,
    h.lowPages _ (Nat.mod_lt _ (by decide))] at haccess
  rcases haccess with ⟨hl, _⟩ | ⟨_, hpte, _, hphys⟩
  · simp only [entrySize] at haligned
    unfold IsLarge at hl
    omega
  · unfold IsPresent at hpte
    unfold frameOf at hphys
    split at hpte
    · rename_i hvideo
      rw [if_pos hvideo] at hphys
      omega
    · omega

/-- Through the 4 MB page of the process installed last. -/
theorem Mapped.process_access (h : Mapped link s) (hidx : la / 0x400000 = 32)
    (ht : s.tables.translate link memory la = some t) (hu : t.user = true) :
    ∃ pid, s.installed = some pid ∧ t.phys = processFrame pid + la % 0x400000 := by
  obtain ⟨hp, _, haccess⟩ := walk_user ht hu
  have hprog := h.program
  rw [hidx] at hp haccess
  cases hpid : s.installed with
  | none =>
    rw [hpid] at hprog
    rw [hprog] at hp
    exact absurd hp not_present_absent
  | some pid =>
    rw [hpid] at hprog
    dsimp only at hprog
    rw [hprog] at haccess
    have hlt := pid.isLt
    refine ⟨pid, rfl, ?_⟩
    rcases haccess with ⟨_, hphys⟩ | ⟨hl, _⟩
    · unfold frameOf processFrame at hphys
      unfold processFrame
      omega
    · unfold IsLarge processFrame at hl
      omega

/-- Through the table of `vidmap`: its first page, to a video page. -/
theorem Mapped.video_access (h : Mapped link s) (hidx : la / 0x400000 = 33)
    (ht : s.tables.translate link memory la = some t) (hu : t.user = true) :
    la / 4096 % 1024 = 0 ∧ ∃ page, page < 4 ∧ t.phys = 0xB8000 + page * 4096 + la % 4096 := by
  obtain ⟨hp, _, haccess⟩ := walk_user ht hu
  rw [hidx] at hp haccess
  rcases h.video with hnone | hvid
  · rw [hnone] at hp
    exact absurd hp not_present_absent
  · have haligned := link.vidmemPagetable_aligned
    rw [hvid, frameOf_add haligned (by decide), table_video] at haccess
    rcases haccess with ⟨hl, _⟩ | ⟨_, hpte, _, hphys⟩
    · simp only [entrySize] at haligned
      unfold IsLarge at hl
      omega
    · have hpage : la / 4096 % 1024 = 0 := by
        by_contra hne
        rw [h.videoRest _ hne] at hpte
        exact absurd hpte (by decide)
      rw [hpage] at hpte hphys
      rcases h.videoPage with hz | ⟨page, hlt, hentry⟩
      · rw [hz] at hpte
        exact absurd hpte (by decide)
      · rw [hentry] at hphys
        refine ⟨hpage, page, hlt, ?_⟩
        unfold frameOf at hphys
        omega

/-- Where a user access can go: one of the four video pages, each to itself; the program page of
    the process installed last; or the page of `vidmap`, to one of the video pages. -/
theorem Mapped.user_access (h : Mapped link s) (hla : la < 0x100000000)
    (ht : s.tables.translate link memory la = some t) (hu : t.user = true) :
    (0xB8000 ≤ la ∧ la < 0xBC000 ∧ t.phys = la) ∨
      (∃ pid, s.installed = some pid ∧ 0x08000000 ≤ la ∧ la < 0x08400000 ∧
        t.phys = processFrame pid + la % 0x400000) ∨
      (∃ page, page < 4 ∧ 0x08400000 ≤ la ∧ la < 0x08401000 ∧
        t.phys = 0xB8000 + page * 4096 + la % 4096) := by
  obtain ⟨hp, hd, _⟩ := walk_user ht hu
  rcases h.user_entry (by omega) hp hd with hidx | hidx | hidx
  · exact Or.inl (h.low_access hidx ht hu)
  · obtain ⟨pid, hpid, hphys⟩ := h.process_access hidx ht hu
    exact Or.inr (Or.inl ⟨pid, hpid, by omega, by omega, hphys⟩)
  · obtain ⟨hpage, page, hlt, hphys⟩ := h.video_access hidx ht hu
    exact Or.inr (Or.inr ⟨page, hlt, by omega, by omega, hphys⟩)

/-- The program page of the process installed last. -/
theorem Mapped.program_access (h : Mapped link s) {pid : Fin 6} (hpid : s.installed = some pid)
    {d : Nat} (hd : d < 0x400000) : s.tables.translate link memory (0x08000000 + d) =
      some ⟨processFrame pid + d, true, true⟩ := by
  have hidx : (0x08000000 + d) / 0x400000 = 32 := by omega
  have hlt := pid.isLt
  have hprog := h.program
  rw [hpid] at hprog
  dsimp only at hprog
  have hp : IsPresent (processFrame pid + 0x87) := by unfold IsPresent processFrame; omega
  have hl : IsLarge (processFrame pid + 0x87) := by unfold IsLarge processFrame; omega
  have hu : IsUser (processFrame pid + 0x87) := by unfold IsUser processFrame; omega
  have hw : IsWritable (processFrame pid + 0x87) := by unfold IsWritable processFrame; omega
  unfold Paging.translate
  rw [walk_large (by rw [hidx, hprog]; exact hp) (by rw [hidx, hprog]; exact hl), hidx, hprog,
    decide_eq_true hu, decide_eq_true hw]
  have hphys : frameOf (processFrame pid + 0x87) / 1024 * 0x400000 + (0x08000000 + d) % 0x400000 =
      processFrame pid + d := by
    unfold frameOf processFrame
    omega
  rw [hphys]

/-- The kernel's page is mapped to itself. -/
theorem Mapped.kernel_access (h : Mapped link s) (hlo : 0x400000 ≤ la) (hhi : la < 0x800000) :
    s.tables.translate link memory la = some ⟨la, false, true⟩ := by
  have hidx : la / 0x400000 = 1 := by omega
  have hframe : frameOf 0x400083 / 1024 = 1 := by decide
  have hphys : 1 * 0x400000 + la % 0x400000 = la := by omega
  unfold Paging.translate
  rw [walk_large (by rw [hidx, h.kernel]; decide) (by rw [hidx, h.kernel]; decide), hidx,
    h.kernel, hframe, hphys]
  rfl

/-- Between the kernel's page and the program page nothing is mapped. -/
theorem Mapped.gap_access (h : Mapped link s) (hlo : 0x800000 ≤ la) (hhi : la < 0x08000000) :
    s.tables.translate link memory la = none := by
  have habsent : s.tables.pageDirectory (la / 0x400000) = absent :=
    h.rest _ (by omega) (by omega) (by omega) (by omega) (by omega)
  unfold Paging.translate
  exact walk_absent (by rw [habsent]; exact not_present_absent)

theorem Mapped.isolated (h : Mapped link s) (memory : Nat → Nat → Nat) :
    Isolated (s.tables.translate link memory) s.installed where
  window := by
    intro la hla t ht hu
    unfold UserWindow
    rcases h.user_access hla ht hu with ⟨h1, h2, _⟩ | ⟨_, _, h1, h2, _⟩ | ⟨_, _, h1, h2, _⟩
    all_goals omega
  program := fun pid hpid d hd => ⟨_, h.program_access hpid hd, rfl, rfl⟩
  kernel := by
    intro la hla t ht hu
    rcases h.user_access hla ht hu with ⟨h1, h2, hphys⟩ | ⟨pid, _, _, _, hphys⟩ |
      ⟨page, hlt, _, _, hphys⟩
    · omega
    · unfold processFrame at hphys
      omega
    · omega

end Access

/-- The page of `vidmap` once a video page was mapped. -/
theorem video_page_access (link : Link) (s : Paged) (page : Fin 4) (memory : Nat → Nat → Nat)
    {d : Nat} (hd : d < 0x1000) :
    (s.step link (.map2user page)).tables.translate link memory (0x08400000 + d) =
      some ⟨0xB8000 + page * 4096 + d, true, true⟩ := by
  obtain ⟨hdir, hpte⟩ := s.map2user_entries link page
  have haligned := link.vidmemPagetable_aligned
  simp only [entrySize] at haligned
  have hidx : (0x08400000 + d) / 0x400000 = 33 := by omega
  have hpage : (0x08400000 + d) / 4096 % 1024 = 0 := by omega
  have hp : IsPresent (link.vidmemPagetable + 7) := by unfold IsPresent; omega
  have hl : ¬ IsLarge (link.vidmemPagetable + 7) := by unfold IsLarge; omega
  have hu : IsUser (link.vidmemPagetable + 7) := by unfold IsUser; omega
  have hw : IsWritable (link.vidmemPagetable + 7) := by unfold IsWritable; omega
  have hp' : IsPresent (0xB8000 + page * 4096 + 7) := by unfold IsPresent; omega
  have hu' : IsUser (0xB8000 + page * 4096 + 7) := by unfold IsUser; omega
  have hw' : IsWritable (0xB8000 + page * 4096 + 7) := by unfold IsWritable; omega
  have hphys : frameOf (0xB8000 + page * 4096 + 7) * 4096 + (0x08400000 + d) % 4096 =
      0xB8000 + page * 4096 + d := by
    unfold frameOf
    omega
  have hframe : frameOf (link.vidmemPagetable + 7) = frameOf link.vidmemPagetable :=
    frameOf_add haligned (by decide)
  unfold Paging.translate
  rw [walk_small (by rw [hidx, hdir]; exact hp) (by rw [hidx, hdir]; exact hl) rfl, hidx, hdir,
    hpage, hframe, table_video, hpte, if_pos hp', hphys, decide_eq_true ⟨hu, hu'⟩,
    decide_eq_true ⟨hw, hw'⟩]

/-- After `initPaging` and any updates a user is kept in its windows and out of the kernel, and
    the program pages of two processes never meet. -/
theorem address_spaces_isolated (link : Link) (memory : Nat → Nat → Nat) (ops ops' : List PageOp) :
    Isolated ((Paged.run link ops).tables.translate link memory) (Paged.run link ops).installed ∧
      ∀ pid pid', (Paged.run link ops).installed = some pid →
        (Paged.run link ops').installed = some pid' → pid ≠ pid' →
          ∀ d d', d < 0x400000 → d' < 0x400000 →
            ((Paged.run link ops).tables.translate link memory (0x08000000 + d)).map
                Translation.phys ≠
              ((Paged.run link ops').tables.translate link memory (0x08000000 + d')).map
                Translation.phys := by
  have h := run_mapped link ops
  have h' := run_mapped link ops'
  refine ⟨h.isolated memory, fun pid pid' hpid hpid' hne d d' hd hd' heq => hne ?_⟩
  rw [h.program_access hpid hd, h'.program_access hpid' hd', Option.map_some, Option.map_some,
    Option.some.injEq] at heq
  apply Fin.ext
  unfold processFrame at heq
  dsimp only at heq
  omega

end LmaOS
