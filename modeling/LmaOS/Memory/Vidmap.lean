import LmaOS.Memory.Isolation
import LmaOS.Util.LinearMemory

/-
  `vidmap` of syscall.c, over a physical memory that holds the page tables.

  The pointer a program passes is an address of its own, so the word behind it is found through
  the tables, and a store may go into them. `Paging.inMemory` is a memory with given tables in it;
  the tables considered are those of any run from `initPaging`, the rest of the memory is
  arbitrary. `vidmap` compares the word behind the pointer, not the pointer, with two addresses it
  has cast to `uint8_t`, which are both 0: it goes on if that word is 0.

  `vidmap_validates_iff`: the pointers that `vidmap` treats as its range check says.
  `vidmap_refuses`: a pointer into the program page that it turns down.
-/
namespace LmaOS

open Util

/-! ## Tables in memory -/

/-- Where the linker put the directory and the two tables: in the kernel's page. -/
structure Layout extends Link where
  pageDirectory : Nat
  pageDirectory_aligned : pageDirectory % entrySize = 0
  directory_apart : pageDirectory ≠ pageTable ∧ pageDirectory ≠ vidmemPagetable
  directory_kernel : 0x400000 ≤ pageDirectory ∧ pageDirectory < 0x800000
  table_kernel : 0x400000 ≤ pageTable ∧ pageTable < 0x800000
  vidmem_kernel : 0x400000 ≤ vidmemPagetable ∧ vidmemPagetable < 0x800000

def Layout.bootimg : Layout :=
  ⟨Link.bootimg, 0x40A000, by decide, by decide, by decide, by decide, by decide⟩

/-- `o` lies in the table at `base`. -/
def InTable (base o : Nat) : Prop := base ≤ o ∧ o < base + entrySize

instance (base o : Nat) : Decidable (InTable base o) := inferInstanceAs (Decidable (_ ∧ _))

/-- Byte `d` of a table. -/
def tableByte (entries : Nat → Nat) (d : Nat) : UInt8 := wordByte (entries (d / 4)) (d % 4)

/-- The memory `ram` with the tables in their places. -/
def Paging.inMemory (lay : Layout) (g : Paging) (ram : Buf) : Buf := fun o =>
  if InTable lay.pageDirectory o then tableByte g.pageDirectory (o - lay.pageDirectory)
  else if InTable lay.pageTable o then tableByte g.pageTable (o - lay.pageTable)
  else if InTable lay.vidmemPagetable o then
    tableByte g.vidmemPagetable (o - lay.vidmemPagetable)
  else ram o

/-- The kernel's store to an entry of a table; its own page is mapped to itself. -/
def storeEntry (mem : Buf) (table i entry : Nat) : Buf :=
  storeBytes (fun k => table + 4 * i + k) entry 4 mem

/-! ## vidmap -/

/-- `map2user` as stores to memory. -/
def map2userStores (lay : Layout) (mem : Buf) (physAddr destPage type : Nat) : Buf :=
  let pagedirEntry := 33
  if type = 1 then
    let mem := storeEntry mem lay.vidmemPagetable destPage
      (physAddr ||| (flagUS ||| flagRW ||| flagP))
    storeEntry mem lay.pageDirectory pagedirEntry
      (lay.vidmemPagetable ||| (flagUS ||| flagRW ||| flagP))
  else mem

abbrev virtualMemAddr : Nat := 0x08000000

/-- `vidmap`: the value it returns and the memory after it; `none` is a page fault. -/
def vidmap (lay : Layout) (mem : Buf) (screenStart : UInt32) : Option (Int × Buf) :=
  if screenStart = 0 then some (-1, mem)
  else
    match loadWord lay.pageDirectory mem screenStart.toNat with
    | none => none
    | some word =>
      if word < virtualMemAddr % 256 ∨ word > (virtualMemAddr + kernelAddr) % 256 then
        some (-1, mem)
      else
        let virtualAddr := virtualMemAddr + kernelAddr
        let mem := map2userStores lay mem (vidmem <<< 12) 0 1
        match storeWord lay.pageDirectory mem screenStart.toNat virtualAddr with
        | none => none
        | some mem => some (virtualAddr, mem)

/-! ## Reading the tables -/

/-- The table `entries` lies at `base`. -/
def HoldsTable (mem : Buf) (base : Nat) (entries : Nat → Nat) : Prop :=
  ∀ o, InTable base o → mem o = tableByte entries (o - base)

section Table

variable {mem mem' : Buf} {base : Nat} {entries : Nat → Nat} {i : Nat}

theorem HoldsTable.word (h : HoldsTable mem base entries) (hi : i < pagesNum)
    (hlt : entries i < 0x100000000) : mem.word (base + 4 * i) = entries i := by
  have hbytes : ∀ k, k < 4 → mem (base + 4 * i + k) = wordByte (entries i) k := by
    intro k hk
    have hin : InTable base (base + 4 * i + k) := by
      unfold InTable
      simp only [pagesNum, entrySize] at *
      omega
    have hindex : (base + 4 * i + k - base) / 4 = i := by omega
    have hbyte : (base + 4 * i + k - base) % 4 = k := by omega
    rw [h _ hin]
    unfold tableByte
    rw [hindex, hbyte]
  rw [Buf.word_of_bytes hbytes, Nat.mod_eq_of_lt hlt]

theorem storeEntry_apply (mem : Buf) (base i entry o : Nat) : storeEntry mem base i entry o =
    if base + 4 * i ≤ o ∧ o < base + 4 * i + 4 then wordByte entry (o - (base + 4 * i))
    else mem o := by
  unfold storeEntry
  split
  · rename_i hin
    obtain ⟨k, rfl⟩ : ∃ k, o = base + 4 * i + k := ⟨o - (base + 4 * i), by omega⟩
    rw [Nat.add_sub_cancel_left]
    exact storeBytes_apply (p := fun k => base + 4 * i + k) (fun j k hjk _ => by omega) (by omega)
  · rename_i hout
    exact storeBytes_frame fun k hk => by omega

/-- A store to an entry leads to the memory with that entry, if the two differ in the table
    only. -/
theorem HoldsTable.storeEntry (h : HoldsTable mem base entries) (hi : i < pagesNum) {entry : Nat}
    (h' : HoldsTable mem' base (Function.update entries i entry))
    (hframe : ∀ o, ¬ InTable base o → mem' o = mem o) :
    storeEntry mem base i entry = mem' := by
  funext o
  rw [storeEntry_apply]
  by_cases hin : InTable base o
  · rw [h' o hin, h o hin]
    unfold InTable at hin
    unfold tableByte
    rw [Function.update_apply]
    split
    · rename_i hentry
      have hindex : (o - base) / 4 = i := by omega
      have hbyte : (o - base) % 4 = o - (base + 4 * i) := by omega
      rw [if_pos hindex, hbyte]
    · rename_i hother
      rw [if_neg (by omega)]
  · have hout : ¬ (base + 4 * i ≤ o ∧ o < base + 4 * i + 4) := by
      unfold InTable at hin
      simp only [pagesNum, entrySize] at *
      omega
    rw [if_neg hout, hframe o hin]

end Table

section Tables

variable {lay : Layout} {g : Paging} {ram : Buf}

/-- Two tables that meet are the same. -/
theorem inTable_unique {a b o : Nat} (ha : a % entrySize = 0) (hb : b % entrySize = 0)
    (hao : InTable a o) (hbo : InTable b o) : a = b := by
  unfold InTable at hao hbo
  simp only [entrySize] at *
  omega

theorem holdsTable_directory :
    HoldsTable (g.inMemory lay ram) lay.pageDirectory g.pageDirectory := fun _ h => if_pos h

theorem holdsTable_pageTable : HoldsTable (g.inMemory lay ram) lay.pageTable g.pageTable := by
  intro o h
  have hdir : ¬ InTable lay.pageDirectory o := fun hd =>
    lay.directory_apart.1 (inTable_unique lay.pageDirectory_aligned lay.pageTable_aligned hd h)
  unfold Paging.inMemory
  rw [if_neg hdir, if_pos h]

theorem holdsTable_vidmem :
    HoldsTable (g.inMemory lay ram) lay.vidmemPagetable g.vidmemPagetable := by
  intro o h
  have hdir : ¬ InTable lay.pageDirectory o := fun hd =>
    lay.directory_apart.2
      (inTable_unique lay.pageDirectory_aligned lay.vidmemPagetable_aligned hd h)
  have htab : ¬ InTable lay.pageTable o := fun ht =>
    lay.apart (inTable_unique lay.pageTable_aligned lay.vidmemPagetable_aligned ht h)
  unfold Paging.inMemory
  rw [if_neg hdir, if_neg htab, if_pos h]

/-- Outside the kernel's page there is no table. -/
theorem inMemory_outside {o : Nat} (h : ¬ (0x400000 ≤ o ∧ o < 0x800000)) :
    g.inMemory lay ram o = ram o := by
  have hall : ∀ base, base % entrySize = 0 → 0x400000 ≤ base ∧ base < 0x800000 →
      ¬ InTable base o := by
    intro base halign hkernel hin
    unfold InTable at hin
    simp only [entrySize] at *
    omega
  unfold Paging.inMemory
  rw [if_neg (hall _ lay.pageDirectory_aligned lay.directory_kernel),
    if_neg (hall _ lay.pageTable_aligned lay.table_kernel),
    if_neg (hall _ lay.vidmemPagetable_aligned lay.vidmem_kernel)]

/-! ## Storing to the tables -/

theorem storeEntry_directory {i : Nat} (hi : i < pagesNum) (entry : Nat) :
    storeEntry (g.inMemory lay ram) lay.pageDirectory i entry =
      { g with pageDirectory := Function.update g.pageDirectory i entry }.inMemory lay ram := by
  refine holdsTable_directory.storeEntry hi holdsTable_directory fun o hout => ?_
  unfold Paging.inMemory
  rw [if_neg hout, if_neg hout]

theorem storeEntry_vidmem {i : Nat} (hi : i < pagesNum) (entry : Nat) :
    storeEntry (g.inMemory lay ram) lay.vidmemPagetable i entry =
      { g with vidmemPagetable := Function.update g.vidmemPagetable i entry }.inMemory lay ram := by
  refine holdsTable_vidmem.storeEntry hi holdsTable_vidmem fun o hout => ?_
  unfold Paging.inMemory
  rw [if_neg hout, if_neg hout]

/-- The stores of `map2user` are the update of the tables. -/
theorem map2userStores_eq (physAddr : Nat) {destPage : Nat} (hd : destPage < pagesNum) :
    map2userStores lay (g.inMemory lay ram) physAddr destPage 1 =
      (map2user lay.toLink g physAddr destPage 1).inMemory lay ram := by
  unfold map2userStores map2user
  dsimp only
  rw [if_pos rfl, if_pos rfl, storeEntry_vidmem hd, storeEntry_directory (by decide)]

/-- Stores outside the kernel's page leave the tables. -/
theorem inMemory_storeBytes {p : Nat → Nat} {w n : Nat}
    (h : ∀ k, k < n → ¬ (0x400000 ≤ p k ∧ p k < 0x800000)) :
    storeBytes p w n (g.inMemory lay ram) = g.inMemory lay (storeBytes p w n ram) := by
  induction n with
  | zero => rfl
  | succ n ih =>
    funext o
    rw [storeBytes, storeBytes, ih fun k hk => h k (Nat.lt_succ_of_lt hk), Function.update_apply]
    have hlast := h n (Nat.lt_succ_self n)
    split
    · rename_i ho
      rw [ho, inMemory_outside hlast, Function.update_self]
    · rename_i ho
      unfold Paging.inMemory
      rw [Function.update_of_ne ho]

end Tables

/-! ## Walking the tables -/

/-- The page of the user program. -/
def InProgramPage (la : Nat) : Prop := 0x08000000 ≤ la ∧ la < 0x08400000

instance (la : Nat) : Decidable (InProgramPage la) := inferInstanceAs (Decidable (_ ∧ _))

section Walks

variable {lay : Layout} {s : Paged} {ram : Buf}

/-- The entries of the directory are 32-bit words. -/
theorem Mapped.directory_lt (h : Mapped lay.toLink s) {i : Nat} (hi : i < 1024) :
    s.tables.pageDirectory i < 0x100000000 := by
  obtain rfl | rfl | rfl | rfl | ⟨h0, h1, h32, h33⟩ :
      i = 0 ∨ i = 1 ∨ i = 32 ∨ i = 33 ∨ i ≠ 0 ∧ i ≠ 1 ∧ i ≠ 32 ∧ i ≠ 33 := by omega
  · have halign := lay.pageTable_aligned
    have hlt := lay.pageTable_lt
    simp only [entrySize] at halign
    rw [h.low]
    omega
  · rw [h.kernel]
    decide
  · rw [h.program]
    cases s.installed with
    | none => decide
    | some pid =>
      have hpid := pid.isLt
      unfold processFrame
      dsimp only
      omega
  · rcases h.video with hv | hv
    · rw [hv]
      decide
    · have halign := lay.vidmemPagetable_aligned
      have hlt := lay.vidmemPagetable_lt
      simp only [entrySize] at halign
      rw [hv]
      omega
  · rw [h.rest i hi h0 h1 h32 h33]
    decide

theorem Mapped.pageTable_lt (h : Mapped lay.toLink s) {i : Nat} (hi : i < 1024) :
    s.tables.pageTable i < 0x100000000 := by
  rw [h.lowPages i hi]
  split <;> omega

theorem Mapped.vidmem_lt (h : Mapped lay.toLink s) (i : Nat) :
    s.tables.vidmemPagetable i < 0x100000000 := by
  by_cases h0 : i = 0
  · rw [h0]
    rcases h.videoPage with hz | ⟨page, hpage, hv⟩
    · rw [hz]
      decide
    · rw [hv]
      omega
  · rw [h.videoRest i h0]
    decide

/-- Reading the tables out of the memory is walking them. -/
theorem Mapped.walkIn_eq (h : Mapped lay.toLink s) {la : Nat} (hla : la < 0x100000000) :
    walkIn lay.pageDirectory (s.tables.inMemory lay ram) la =
      s.tables.translate lay.toLink
        (fun f i => (s.tables.inMemory lay ram).word (4096 * f + 4 * i)) la := by
  have hdir : la / 0x400000 < 1024 := by omega
  have hidx : la / 4096 % 1024 < 1024 := Nat.mod_lt _ (by decide)
  have hplace : ∀ {f base : Nat}, base % entrySize = 0 → f = frameOf base → 4096 * f = base := by
    intro f base halign hf
    unfold frameOf at hf
    simp only [entrySize] at halign
    omega
  refine walk_congr (holdsTable_directory.word hdir (h.directory_lt hdir)) fun f => ?_
  unfold Paging.table
  split
  · rename_i hf
    rw [hplace lay.pageTable_aligned hf]
    exact holdsTable_pageTable.word hidx (h.pageTable_lt hidx)
  · split
    · rename_i hf
      rw [hplace lay.vidmemPagetable_aligned hf]
      exact holdsTable_vidmem.word hidx (h.vidmem_lt _)
    · rfl

theorem Mapped.locate_program (h : Mapped lay.toLink s) {pid : Fin 6}
    (hpid : s.installed = some pid) {la k : Nat} (hin : InProgramPage (la + k)) :
    locate lay.pageDirectory (s.tables.inMemory lay ram) la k =
      some (processFrame pid + (la + k - 0x08000000)) := by
  obtain ⟨hlo, hhi⟩ := hin
  have hoffset : (la + k) % 0x100000000 = 0x08000000 + (la + k - 0x08000000) := by omega
  unfold locate
  rw [h.walkIn_eq (Nat.mod_lt _ (by decide)), hoffset, h.program_access hpid (by omega)]
  rfl

/-- The first page of `vidmap` after it is mapped. -/
theorem Mapped.walkIn_video (h : Mapped lay.toLink s) {d : Nat} (hd : d < 0x1000) :
    walkIn lay.pageDirectory ((s.step lay.toLink (.map2user 0)).tables.inMemory lay ram)
      (0x08400000 + d) = some ⟨0xB8000 + d, true, true⟩ := by
  rw [(h.step (.map2user 0)).walkIn_eq (by omega), video_page_access lay.toLink s 0 _ hd]
  rfl

theorem Mapped.locate_video (h : Mapped lay.toLink s) {la k : Nat} (hlo : 0x08400000 ≤ la + k)
    (hhi : la + k < 0x08401000) :
    locate lay.pageDirectory ((s.step lay.toLink (.map2user 0)).tables.inMemory lay ram) la k =
      some (0xB8000 + (la + k - 0x08400000)) := by
  have hoffset : (la + k) % 0x100000000 = 0x08400000 + (la + k - 0x08400000) := by omega
  unfold locate
  rw [hoffset, h.walkIn_video (by omega)]
  rfl

/-- Nothing is in the program page before a process is. -/
theorem Mapped.installed_of_located (h : Mapped lay.toLink s) {la : Nat} (hin : InProgramPage la)
    (hl : (locate lay.pageDirectory (s.tables.inMemory lay ram) la 0).isSome) :
    ∃ pid, s.installed = some pid := by
  obtain ⟨hlo, hhi⟩ := hin
  have hprog := h.program
  cases hinst : s.installed with
  | some pid => exact ⟨pid, rfl⟩
  | none =>
    rw [hinst] at hprog
    have hla : (la + 0) % 0x100000000 = la := by omega
    have hidx : la / 0x400000 = 32 := by omega
    unfold locate at hl
    rw [hla, h.walkIn_eq (by omega)] at hl
    unfold Paging.translate at hl
    rw [walk_absent (by rw [hidx, hprog]; exact not_present_absent)] at hl
    exact absurd hl Bool.false_ne_true

end Walks

/-! ## The range check -/

/-- What the range check of `vidmap` is there for: outside the program page it returns -1 and
    changes nothing; in the program page it maps the video memory for the user, stores the address
    of the mapping and returns it. -/
structure VidmapValidates (lay : Layout) (mem : Buf) (screenStart : UInt32) : Prop where
  outside : ¬ InProgramPage screenStart.toNat → vidmap lay mem screenStart = some (-1, mem)
  inside : InProgramPage screenStart.toNat → ∃ mem',
    vidmap lay mem screenStart = some (0x08400000, mem') ∧
      (∀ d, d < 0x1000 → walkIn lay.pageDirectory mem' (0x08400000 + d) =
        some ⟨0xB8000 + d, true, true⟩) ∧
      loadWord lay.pageDirectory mem' screenStart.toNat = some 0x08400000

section Calls

variable {lay : Layout} {mem : Buf} {screenStart : UInt32}

/-- Both bounds are 0 once they are cast to `uint8_t`. -/
theorem range_check (word : Nat) :
    (word < virtualMemAddr % 256 ∨ word > (virtualMemAddr + kernelAddr) % 256) ↔ word ≠ 0 := by
  simp only [virtualMemAddr, kernelAddr]
  omega

theorem vidmap_null : vidmap lay mem 0 = some (-1, mem) := rfl

theorem vidmap_fault (h0 : screenStart ≠ 0)
    (hload : loadWord lay.pageDirectory mem screenStart.toNat = none) :
    vidmap lay mem screenStart = none := by
  unfold vidmap
  rw [if_neg h0, hload]

theorem vidmap_nonzero (h0 : screenStart ≠ 0) {word : Nat}
    (hload : loadWord lay.pageDirectory mem screenStart.toNat = some word) (hword : word ≠ 0) :
    vidmap lay mem screenStart = some (-1, mem) := by
  unfold vidmap
  rw [if_neg h0, hload]
  exact if_pos ((range_check word).mpr hword)

theorem vidmap_zero (h0 : screenStart ≠ 0)
    (hload : loadWord lay.pageDirectory mem screenStart.toNat = some 0) :
    vidmap lay mem screenStart =
      (storeWord lay.pageDirectory (map2userStores lay mem 0xB8000 0 1) screenStart.toNat
        0x08400000).map fun mem' => (0x08400000, mem') := by
  unfold vidmap
  rw [if_neg h0, hload]
  dsimp only
  rw [if_neg fun h => (range_check 0).mp h rfl]
  show (match storeWord lay.pageDirectory (map2userStores lay mem 0xB8000 0 1) screenStart.toNat
    0x08400000 with | none => none | some mem => some ((0x08400000 : Int), mem)) = _
  cases storeWord lay.pageDirectory (map2userStores lay mem 0xB8000 0 1) screenStart.toNat
    0x08400000 <;> rfl

/-- Where `vidmap` does what it says, it does not fault. -/
theorem VidmapValidates.loads (h : VidmapValidates lay mem screenStart) (h0 : screenStart ≠ 0) :
    ∃ word, loadWord lay.pageDirectory mem screenStart.toNat = some word := by
  cases hload : loadWord lay.pageDirectory mem screenStart.toNat with
  | some word => exact ⟨word, rfl⟩
  | none =>
    have hfault := vidmap_fault h0 hload
    by_cases hin : InProgramPage screenStart.toNat
    · obtain ⟨mem', hret, _⟩ := h.inside hin
      rw [hfault] at hret
      exact absurd hret (Option.some_ne_none _).symm
    · have hret := h.outside hin
      rw [hfault] at hret
      exact absurd hret (Option.some_ne_none _).symm

/-- There the word it finds tells what its own check was to find out. -/
theorem VidmapValidates.word_iff (h : VidmapValidates lay mem screenStart) (h0 : screenStart ≠ 0)
    {word : Nat} (hload : loadWord lay.pageDirectory mem screenStart.toNat = some word) :
    word = 0 ↔ InProgramPage screenStart.toNat := by
  constructor
  · intro hword
    by_contra hin
    have hret := h.outside hin
    rw [vidmap_zero h0 (hword ▸ hload)] at hret
    obtain ⟨mem', _, he⟩ := Option.map_eq_some_iff.mp hret
    have hvalue : (0x08400000 : Int) = -1 := congrArg Prod.fst he
    exact absurd hvalue (by decide)
  · intro hin
    by_contra hword
    obtain ⟨mem', hret, _⟩ := h.inside hin
    rw [vidmap_nonzero h0 hload hword, Option.some.injEq] at hret
    have hvalue : (-1 : Int) = 0x08400000 := congrArg Prod.fst hret
    exact absurd hvalue (by decide)

end Calls

section Reachable

variable {lay : Layout} {s : Paged} {ram : Buf} {screenStart : UInt32}

/-- Where byte `k` of the word at `la` lies: in the frame of the process, or in the video page
    mapped behind it if `la` is one of the last three addresses of the program page. -/
def programByte (pid : Fin 6) (la k : Nat) : Nat :=
  if la + k < 0x08400000 then processFrame pid + (la + k - 0x08000000)
  else 0xB8000 + (la + k - 0x08400000)

theorem programByte_outside (pid : Fin 6) {la k : Nat} (hin : InProgramPage la) (hk : k < 4) :
    ¬ (0x400000 ≤ programByte pid la k ∧ programByte pid la k < 0x800000) := by
  obtain ⟨_, hhi⟩ := hin
  unfold programByte processFrame
  split <;> omega

theorem programByte_inj (pid : Fin 6) {la : Nat} (hin : InProgramPage la) {j k : Nat} (hjk : j < k)
    (hk : k < 4) : programByte pid la j ≠ programByte pid la k := by
  obtain ⟨hlo, hhi⟩ := hin
  unfold programByte processFrame
  split <;> split <;> omega

theorem Mapped.locate_programByte (h : Mapped lay.toLink s) {pid : Fin 6}
    (hpid : s.installed = some pid) {la k : Nat} (hin : InProgramPage la) (hk : k < 4) :
    locate lay.pageDirectory ((s.step lay.toLink (.map2user 0)).tables.inMemory lay ram) la k =
      some (programByte pid la k) := by
  obtain ⟨hlo, hhi⟩ := hin
  have hinstalled : (s.step lay.toLink (.map2user 0)).installed = some pid := hpid
  unfold programByte
  split
  · rename_i hprogram
    exact (h.step (.map2user 0)).locate_program hinstalled ⟨by omega, hprogram⟩
  · rename_i hvideo
    exact h.locate_video (by omega) (by omega)

/-- In the program page, over a word that is 0, `vidmap` does what it says: its stores go to the
    two entries of the tables and to `screen_start`, and these never meet. -/
theorem Mapped.vidmap_maps (h : Mapped lay.toLink s) (hin : InProgramPage screenStart.toNat)
    (hload : loadWord lay.pageDirectory (s.tables.inMemory lay ram) screenStart.toNat = some 0) :
    ∃ mem', vidmap lay (s.tables.inMemory lay ram) screenStart = some (0x08400000, mem') ∧
      (∀ d, d < 0x1000 → walkIn lay.pageDirectory mem' (0x08400000 + d) =
        some ⟨0xB8000 + d, true, true⟩) ∧
      loadWord lay.pageDirectory mem' screenStart.toNat = some 0x08400000 := by
  have h0 : screenStart ≠ 0 := by
    rintro rfl
    exact absurd hin (by decide)
  obtain ⟨pid, hpid⟩ :=
    h.installed_of_located hin (loadWord_present hload 0 (List.mem_range.mpr (by decide)))
  have hmap : map2userStores lay (s.tables.inMemory lay ram) 0xB8000 0 1 =
      (s.step lay.toLink (.map2user 0)).tables.inMemory lay ram :=
    map2userStores_eq 0xB8000 (by decide)
  have hstore : storeWord lay.pageDirectory
      ((s.step lay.toLink (.map2user 0)).tables.inMemory lay ram) screenStart.toNat 0x08400000 =
        some ((s.step lay.toLink (.map2user 0)).tables.inMemory lay
          (storeBytes (programByte pid screenStart.toNat) 0x08400000 4 ram)) :=
    (storeWord_eq (fun k hk => h.locate_programByte hpid hin hk) _).trans
      (congrArg some (inMemory_storeBytes fun k hk => programByte_outside pid hin hk))
  refine ⟨(s.step lay.toLink (.map2user 0)).tables.inMemory lay
    (storeBytes (programByte pid screenStart.toNat) 0x08400000 4 ram), ?_,
    fun d hd => h.walkIn_video hd, ?_⟩
  · rw [vidmap_zero h0 hload, hmap, hstore]
    rfl
  · have hbyte : ∀ k, k < 4 → (s.step lay.toLink (.map2user 0)).tables.inMemory lay
        (storeBytes (programByte pid screenStart.toNat) 0x08400000 4 ram)
          (programByte pid screenStart.toNat k) = wordByte 0x08400000 k := fun k hk => by
      rw [inMemory_outside (programByte_outside pid hin hk)]
      exact storeBytes_apply (fun i j hij hj => programByte_inj pid hin hij hj) hk
    have hword : Buf.word (fun k => (s.step lay.toLink (.map2user 0)).tables.inMemory lay
        (storeBytes (programByte pid screenStart.toNat) 0x08400000 4 ram)
          (programByte pid screenStart.toNat k)) 0 = 0x08400000 % 4294967296 :=
      Buf.word_of_bytes fun k hk => by
        rw [Nat.zero_add]
        exact hbyte k hk
    rw [loadWord_eq fun k hk => h.locate_programByte hpid hin hk, hword]

/-- What a pointer into the program page points to: a word of the process's frame. -/
theorem Mapped.loadWord_program (h : Mapped lay.toLink s) {pid : Fin 6}
    (hpid : s.installed = some pid) {la : Nat} (hlo : 0x08000000 ≤ la) (hhi : la + 4 ≤ 0x08400000) :
    loadWord lay.pageDirectory (s.tables.inMemory lay ram) la =
      some (ram.word (processFrame pid + (la - 0x08000000))) := by
  rw [loadWord_eq fun k (hk : k < 4) => h.locate_program hpid ⟨by omega, by omega⟩]
  refine congrArg some (Buf.word_congr fun k hk => ?_)
  have hplace : processFrame pid + (la + (0 + k) - 0x08000000) =
      processFrame pid + (la - 0x08000000) + k := by omega
  rw [hplace]
  exact inMemory_outside (by unfold processFrame; omega)

end Reachable

/-- The pointers `vidmap` treats as its range check says, over every memory with the tables of a
    run: NULL, and those behind which it finds a word that is 0 exactly in the program page. -/
theorem vidmap_validates_iff (lay : Layout) (ops : List PageOp) (ram : Buf)
    (screenStart : UInt32) :
    let mem := (Paged.run lay.toLink ops).tables.inMemory lay ram
    VidmapValidates lay mem screenStart ↔ screenStart = 0 ∨
      ∃ word, loadWord lay.pageDirectory mem screenStart.toNat = some word ∧
        (word = 0 ↔ InProgramPage screenStart.toNat) := by
  have hmapped := run_mapped lay.toLink ops
  generalize Paged.run lay.toLink ops = s at hmapped
  dsimp only
  constructor
  · intro h
    by_cases h0 : screenStart = 0
    · exact Or.inl h0
    · obtain ⟨word, hload⟩ := h.loads h0
      exact Or.inr ⟨word, hload, h.word_iff h0 hload⟩
  · rintro (rfl | ⟨word, hload, hiff⟩)
    · exact ⟨fun _ => vidmap_null, fun hin => absurd hin (by decide)⟩
    · refine ⟨fun hout => ?_, fun hin => ?_⟩
      · by_cases h0 : screenStart = 0
        · rw [h0]
          exact vidmap_null
        · exact vidmap_nonzero h0 hload fun hword => hout (hiff.mp hword)
      · exact hmapped.vidmap_maps hin (hiff.mpr hin ▸ hload)

/-- The memory with process 0 in place, every byte of it 1. -/
def onesMemory : Buf :=
  (Paged.run Link.bootimg [.setProcessPage 0]).tables.inMemory Layout.bootimg fun _ => 1

/-- A pointer into the program page, to a word that is not 0: `vidmap` returns -1. -/
theorem vidmap_refuses : ¬ VidmapValidates Layout.bootimg onesMemory 0x08048000 := by
  intro h
  have hmapped : Mapped Layout.bootimg.toLink (Paged.run Link.bootimg [.setProcessPage 0]) :=
    run_mapped Link.bootimg [.setProcessPage 0]
  have hload : loadWord Layout.bootimg.pageDirectory onesMemory 0x08048000 =
      some (Buf.word (fun _ => 1) (processFrame 0 + (0x08048000 - 0x08000000))) :=
    hmapped.loadWord_program rfl (by decide) (by decide)
  have hrefused : vidmap Layout.bootimg onesMemory 0x08048000 = some (-1, onesMemory) :=
    vidmap_nonzero (by decide) hload (by decide)
  obtain ⟨mem', hret, _⟩ := h.inside (by decide)
  rw [hrefused, Option.some.injEq] at hret
  have hvalue : (-1 : Int) = 0x08400000 := congrArg Prod.fst hret
  exact absurd hvalue (by decide)

end LmaOS
