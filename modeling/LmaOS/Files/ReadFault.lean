import LmaOS.Files.Content
import LmaOS.Memory.Vidmap

/-
  `read_data` on the memory the kernel has mapped.

  `readDataAt` is `read_data` as loads from memory, behind the page tables of any run from
  `initPaging`: the kernel's own 4 MB page is mapped to itself, the addresses from 8 MB up to the
  program page are not mapped. The destination is the caller's. `read_data` looks up
  `data_block[offset / 4096]` before it tests for the end of the file, so an offset far behind the
  end makes it read far behind the inode.

  `read_data_correct_iff`: a call is right exactly if the inode is invalid or that first lookup
  lies below 8 MB. `readDataAt_inside`: from an offset inside the file or at its end, as open
  descriptors have it in every run (`keepsFiles_stepRel`), it does not fault and is the `readData`
  of the image in memory. `read_data_faults` reads from the largest offset.
-/
namespace LmaOS

open Util

/-- The image at `boot`. -/
def imageAt (mem : Buf) (boot : Nat) : Image := ⟨fun o => mem ((boot + o) % 4294967296)⟩

/-- The copy loop; `currInode` is `curr_inode`, `start` is `data_block_start`. -/
def readDataLoopAt (dir : Nat) (mem : Buf) (start currInode offset : Nat) :
    Nat → Nat → Nat → Nat → Nat → Buf → Option (Nat × Buf)
  | 0, i, _, _, _, buf => some (i, buf)
  | n + 1, i, datablock, byteOffset, loc, buf =>
    match loadWord dir mem currInode with
    | none => none
    | some len =>
      if (i + offset) % 4294967296 ≥ len then some (i, buf)
      else if byteOffset ≥ absBlockSize then
        match loadWord dir mem (currInode + 4 + 4 * (datablock + 1)) with
        | none => none
        | some block =>
          let loc := start + block * absBlockSize
          match loadByte dir mem loc with
          | none => none
          | some c => readDataLoopAt dir mem start currInode offset n (i + 1) (datablock + 1) 1
              (loc + 1) (Function.update buf i c)
      else
        match loadByte dir mem loc with
        | none => none
        | some c => readDataLoopAt dir mem start currInode offset n (i + 1) datablock
            (byteOffset + 1) (loc + 1) (Function.update buf i c)

/-- `read_data(inode, offset, buf, length)` with the image at `boot`; `none` is a page fault. -/
def readDataAt (dir : Nat) (mem : Buf) (boot inode offset : Nat) (buf : Buf) (length : Nat) :
    Option (Nat × Buf) :=
  match loadWord dir mem (boot + 4) with
  | none => none
  | some inodeCount =>
    if inode ≥ inodeCount then some (0, buf)
    else
      let currInode := boot + absBlockSize + inode * absBlockSize
      let datablock := offset / absBlockSize
      let byteOffset := offset % absBlockSize
      let start := boot + (inodeCount + 1) * absBlockSize
      match loadWord dir mem (currInode + 4 + 4 * datablock) with
      | none => none
      | some block =>
        readDataLoopAt dir mem start currInode offset length 0 datablock byteOffset
          (start + block * absBlockSize + byteOffset) buf

/-! ## The kernel's page -/

/-- Every byte of the kernel's page is found in its place. -/
def KernelMapped (dir : Nat) (mem : Buf) : Prop :=
  ∀ la k, 0x400000 ≤ la + k → la + k < 0x800000 → locate dir mem la k = some (la + k)

section Located

variable {lay : Layout} {s : Paged} {ram : Buf}

theorem Mapped.kernelMapped (h : Mapped lay.toLink s) :
    KernelMapped lay.pageDirectory (s.tables.inMemory lay ram) := by
  intro la k hlo hhi
  have hla : (la + k) % 0x100000000 = la + k := Nat.mod_eq_of_lt (by omega)
  unfold locate
  rw [hla, h.walkIn_eq (by omega), h.kernel_access hlo hhi]
  rfl

theorem Mapped.locate_gap (h : Mapped lay.toLink s) {la k : Nat} (hlo : 0x800000 ≤ la + k)
    (hhi : la + k < 0x08000000) :
    locate lay.pageDirectory (s.tables.inMemory lay ram) la k = none := by
  have hla : (la + k) % 0x100000000 = la + k := Nat.mod_eq_of_lt (by omega)
  unfold locate
  rw [hla, h.walkIn_eq (by omega), h.gap_access hlo hhi]
  rfl

end Located

/-! ## The image in memory -/

/-- `img` is the image at `boot`: it lies in the kernel's page, no file is longer than its block
    table reaches, and every block of a file is one of the image's data blocks. -/
structure Image.Stored (img : Image) (mem : Buf) (boot : Nat) : Prop where
  image : imageAt mem boot = img
  start : 0x400000 ≤ boot
  fits : boot + (1 + img.inodeCount + img.dataCount) * absBlockSize ≤ 0x800000
  lengths : ∀ n, n < img.inodeCount → img.inodeLength n ≤ datablockSize * absBlockSize
  blocks : ∀ n k, n < img.inodeCount → k * absBlockSize < img.inodeLength n →
    img.dataBlock n k < img.dataCount

section Loads

variable {img : Image} {dir : Nat} {mem : Buf} {boot inode o : Nat}

theorem imageAt_byte (h : boot + o < 4294967296) : (imageAt mem boot).byte o = mem (boot + o) := by
  have ho : o % 4294967296 = o := Nat.mod_eq_of_lt (by omega)
  show mem ((boot + o % 4294967296) % 4294967296) = _
  rw [ho, Nat.mod_eq_of_lt h]

theorem Image.Stored.byte_load (himg : img.Stored mem boot) (hk : KernelMapped dir mem)
    (hhi : boot + o < 0x800000) : loadByte dir mem (boot + o) = some (img.byte o) := by
  have hlo := himg.start
  rw [loadByte_eq (hk (boot + o) 0 (by omega) (by omega)), ← himg.image, imageAt_byte (by omega)]
  rfl

theorem Image.Stored.word_load (himg : img.Stored mem boot) (hk : KernelMapped dir mem)
    (hhi : boot + o + 4 ≤ 0x800000) : loadWord dir mem (boot + o) = some (img.word o) := by
  have hlo := himg.start
  rw [loadWord_eq (p := fun k => boot + o + k) fun k hk4 => hk _ _ (by omega) (by omega),
    ← himg.image]
  refine congrArg some (Buf.word_congr fun k hk4 => ?_)
  rw [imageAt_byte (by omega), Nat.zero_add, Nat.add_assoc]

theorem Image.Stored.inodeCount_load (himg : img.Stored mem boot) (hk : KernelMapped dir mem) :
    loadWord dir mem (boot + 4) = some img.inodeCount := by
  have hfits := himg.fits
  simp only [absBlockSize] at hfits
  exact himg.word_load hk (by omega)

/-- A word of a valid inode. -/
theorem Image.Stored.inode_load (himg : img.Stored mem boot) (hk : KernelMapped dir mem)
    (hin : inode < img.inodeCount) (ho : o + 4 ≤ absBlockSize) :
    loadWord dir mem (boot + Image.inodeAddr inode + o) =
      some (img.word (Image.inodeAddr inode + o)) := by
  have hfits := himg.fits
  rw [Nat.add_assoc]
  refine himg.word_load hk ?_
  unfold Image.inodeAddr
  simp only [absBlockSize] at hfits ho ⊢
  omega

/-- A byte of a block of the file. -/
theorem Image.Stored.block_load (himg : img.Stored mem boot) (hk : KernelMapped dir mem)
    (hin : inode < img.inodeCount) {k : Nat} (hkin : k * absBlockSize < img.inodeLength inode)
    (ho : o < absBlockSize) :
    loadByte dir mem (boot + (img.dataBlockStart + img.dataBlock inode k * absBlockSize + o)) =
      some (img.byte (img.dataBlockStart + img.dataBlock inode k * absBlockSize + o)) := by
  have hfits := himg.fits
  have hblock := himg.blocks inode k hin hkin
  refine himg.byte_load hk ?_
  unfold Image.dataBlockStart
  simp only [absBlockSize] at hfits ho ⊢
  omega

end Loads

/-! ## The copy loop -/

section ReadData

variable {img : Image} {dir : Nat} {mem : Buf} {boot inode offset : Nat}

/-- Inside the file every load of the loop succeeds; the invariant is that of
    `readDataLoop_eq`. -/
theorem readDataLoopAt_eq (himg : img.Stored mem boot) (hk : KernelMapped dir mem)
    (hin : inode < img.inodeCount) (n i db bo loc : Nat) (buf : Buf) (hbo : bo ≤ absBlockSize)
    (hpos : db * absBlockSize + bo = offset + i)
    (hloc : loc = img.dataBlockStart + img.dataBlock inode db * absBlockSize + bo)
    (hend : offset + i ≤ img.inodeLength inode) :
    readDataLoopAt dir mem (boot + img.dataBlockStart) (boot + Image.inodeAddr inode) offset n i db
        bo (boot + loc) buf =
      some (readDataLoop img inode offset n i db bo loc buf) := by
  have hlen := himg.lengths inode hin
  have hlength : loadWord dir mem (boot + Image.inodeAddr inode) = some (img.inodeLength inode) :=
    himg.inode_load (o := 0) hk hin (by decide)
  simp only [datablockSize, absBlockSize] at hlen hbo hpos
  induction n generalizing i db bo loc buf with
  | zero => rfl
  | succ n ih =>
    rw [readDataLoopAt, readDataLoop, hlength]
    dsimp only
    split
    · rfl
    · rename_i hmore
      have hbefore : offset + i < img.inodeLength inode := by omega
      split
      · -- the next block
        rename_i hfull
        simp only [absBlockSize] at hfull
        obtain rfl : bo = 4096 := by omega
        have hnext : (db + 1) * absBlockSize < img.inodeLength inode := by
          simp only [absBlockSize]
          omega
        have hentry : loadWord dir mem (boot + Image.inodeAddr inode + 4 + 4 * (db + 1)) =
            some (img.dataBlock inode (db + 1)) := by
          rw [Nat.add_assoc]
          unfold Image.dataBlock
          rw [Nat.add_assoc (Image.inodeAddr inode)]
          exact himg.inode_load hk hin (by simp only [absBlockSize]; omega)
        have hfirst := himg.block_load (o := 0) hk hin hnext (by decide)
        rw [Nat.add_zero] at hfirst
        rw [hentry]
        dsimp only
        rw [Nat.add_assoc boot, hfirst]
        dsimp only
        rw [Nat.add_assoc boot]
        exact ih (i + 1) (db + 1) 1 _ _ (by decide) (by omega) rfl hbefore
      · rename_i hroom
        simp only [absBlockSize] at hroom
        have hhere : db * absBlockSize < img.inodeLength inode := by
          simp only [absBlockSize]
          omega
        have hload := himg.block_load hk hin hhere (o := bo) (by simp only [absBlockSize]; omega)
        rw [← hloc] at hload
        rw [hload]
        dsimp only
        rw [Nat.add_assoc boot]
        exact ih (i + 1) db (bo + 1) (loc + 1) _ (by omega) (by omega) (by rw [hloc, Nat.add_assoc])
          hbefore

/-! ## The call -/

/-- The address behind the first word looked up, `data_block[offset / 4096]`. -/
def lookupEnd (boot inode offset : Nat) : Nat :=
  boot + Image.inodeAddr inode + 4 + 4 * (offset / absBlockSize) + 4

theorem readDataAt_invalid (himg : img.Stored mem boot) (hk : KernelMapped dir mem)
    (hout : img.inodeCount ≤ inode) (buf : Buf) (length : Nat) :
    readDataAt dir mem boot inode offset buf length = some (0, buf) := by
  unfold readDataAt
  rw [himg.inodeCount_load hk]
  exact if_pos hout

/-- The first lookup does not fault: the call is `readData` of the image. -/
theorem readDataAt_eq (himg : img.Stored mem boot) (hk : KernelMapped dir mem)
    (hin : inode < img.inodeCount) (hoff : offset < 4294967296)
    (hlookup : lookupEnd boot inode offset ≤ 0x800000) (buf : Buf) (length : Nat) :
    readDataAt dir mem boot inode offset buf length =
      some (readData img inode offset buf length) := by
  have hcurr : boot + absBlockSize + inode * absBlockSize = boot + Image.inodeAddr inode :=
    Nat.add_assoc _ _ _
  have hentry : loadWord dir mem (boot + Image.inodeAddr inode + 4 + 4 * (offset / absBlockSize)) =
      some (img.dataBlock inode (offset / absBlockSize)) := by
    unfold lookupEnd at hlookup
    rw [Nat.add_assoc boot, Nat.add_assoc boot]
    exact himg.word_load hk (by omega)
  unfold readDataAt readData
  rw [himg.inodeCount_load hk]
  dsimp only
  rw [hcurr, hentry, if_neg (Nat.not_le_of_lt hin), if_neg (Nat.not_le_of_lt hin)]
  dsimp only
  rw [Nat.add_assoc boot, Nat.add_assoc boot]
  rcases Nat.lt_or_ge (img.inodeLength inode) offset with hpast | hle
  · -- behind the end the first test returns
    cases length with
    | zero => rfl
    | succ n =>
      have hlength : loadWord dir mem (boot + Image.inodeAddr inode) =
          some (img.inodeLength inode) := himg.inode_load (o := 0) hk hin (by decide)
      have hstop : (0 + offset) % 4294967296 ≥ img.inodeLength inode := by
        rw [Nat.zero_add, Nat.mod_eq_of_lt hoff]
        exact Nat.le_of_lt hpast
      rw [readDataLoopAt, readDataLoop, hlength]
      dsimp only
      rw [if_pos hstop, if_pos hstop]
  · exact readDataLoopAt_eq himg hk hin length 0 _ _ _ buf
      (Nat.le_of_lt (Nat.mod_lt _ (by decide)))
      (by rw [Nat.mul_comm, Nat.div_add_mod, Nat.add_zero]) rfl hle

end ReadData

section Runs

variable (lay : Layout) (ops : List PageOp) (ram : Buf)

/-- The memory after a run of page updates, the tables in it. -/
abbrev memoryAfter : Buf := (Paged.run lay.toLink ops).tables.inMemory lay ram

theorem kernelMapped_after : KernelMapped lay.pageDirectory (memoryAfter lay ops ram) :=
  (run_mapped lay.toLink ops).kernelMapped

variable {lay ops ram} {img : Image} {boot inode offset : Nat}

/-- The first lookup is the first load that can fault, and it faults behind the kernel's page. -/
theorem readDataAt_fault (himg : img.Stored (memoryAfter lay ops ram) boot)
    (hin : inode < img.inodeCount) (hoff : offset < 4294967296)
    (hlookup : 0x800000 < lookupEnd boot inode offset) (buf : Buf) (length : Nat) :
    readDataAt lay.pageDirectory (memoryAfter lay ops ram) boot inode offset buf length = none := by
  have hfits := himg.fits
  have hentry : loadWord lay.pageDirectory (memoryAfter lay ops ram)
      (boot + absBlockSize + inode * absBlockSize + 4 + 4 * (offset / absBlockSize)) = none := by
    unfold lookupEnd Image.inodeAddr at hlookup
    simp only [absBlockSize] at hfits hlookup ⊢
    exact loadWord_eq_none (k := 3) (by decide)
      ((run_mapped lay.toLink ops).locate_gap (by omega) (by omega))
  unfold readDataAt
  rw [himg.inodeCount_load (kernelMapped_after lay ops ram)]
  dsimp only
  rw [if_neg (Nat.not_le_of_lt hin), hentry]

/-- From inside the file or its end the call does not fault: a position that `read` has reached. -/
theorem readDataAt_inside (himg : img.Stored (memoryAfter lay ops ram) boot)
    (hin : inode < img.inodeCount) (hle : offset ≤ img.inodeLength inode) (buf : Buf)
    (length : Nat) :
    readDataAt lay.pageDirectory (memoryAfter lay ops ram) boot inode offset buf length =
      some (readData img inode offset buf length) := by
  have hfits := himg.fits
  have hlen := himg.lengths inode hin
  have hfirst := himg.blocks inode 0 hin
  simp only [datablockSize, absBlockSize] at hfits hlen hfirst
  have hlookup : lookupEnd boot inode offset ≤ 0x800000 := by
    unfold lookupEnd Image.inodeAddr
    simp only [absBlockSize]
    omega
  exact readDataAt_eq himg (kernelMapped_after lay ops ram) hin (by omega) hlookup buf length

/-- `read_data` returns as it should exactly if the inode is invalid or the word it looks up first
    ends below 8 MB. -/
theorem read_data_correct_iff (himg : img.Stored (memoryAfter lay ops ram) boot) (inode : Nat)
    (offset length : Fin 4294967296) (buf : Buf) :
    (∃ r, readDataAt lay.pageDirectory (memoryAfter lay ops ram) boot inode offset buf length =
        some r ∧ ReadsFile img inode offset length buf r) ↔
      img.inodeCount ≤ inode ∨ lookupEnd boot inode offset ≤ 0x800000 := by
  have hk := kernelMapped_after lay ops ram
  have hcorrect := read_data_correct img himg.lengths inode offset length buf
  constructor
  · rintro ⟨r, hr, _⟩
    by_contra hneither
    obtain ⟨hin, hbeyond⟩ := not_or.mp hneither
    rw [readDataAt_fault himg (Nat.lt_of_not_le hin) offset.isLt (Nat.lt_of_not_le hbeyond)] at hr
    exact Option.some_ne_none r hr.symm
  · intro hwhen
    rcases Nat.lt_or_ge inode img.inodeCount with hin | hout
    · have hlookup := hwhen.resolve_left (Nat.not_le_of_lt hin)
      exact ⟨_, readDataAt_eq himg hk hin offset.isLt hlookup buf length, hcorrect⟩
    · rw [hcorrect.invalid hout] at hcorrect
      exact ⟨_, readDataAt_invalid himg hk hout buf length, hcorrect⟩

end Runs

/-! ## One file -/

/-- An image with one file, of 4097 bytes in the blocks 1 and 0. -/
def twoBlocks : Image where
  mem := fun o => (List.lookup o [(4, 1), (8, 2), (4096, 1), (4097, 0x10), (4100, 1),
    (8192, 0x62), (12288, 0x61)]).getD 0

/-- Where the boot loader puts it. -/
def twoBlocksBoot : Nat := 0x411000

def twoBlocksMemory : Buf :=
  memoryAfter Layout.bootimg [] fun o => twoBlocks.mem (o - twoBlocksBoot)

theorem twoBlocks_stored :
    (imageAt twoBlocksMemory twoBlocksBoot).Stored twoBlocksMemory twoBlocksBoot where
  image := rfl
  start := by decide
  fits := by decide
  lengths := by decide
  blocks := by
    have hcount : (imageAt twoBlocksMemory twoBlocksBoot).inodeCount = 1 := by decide
    have hlen : (imageAt twoBlocksMemory twoBlocksBoot).inodeLength 0 = 4097 := by decide
    have hblock : ∀ k, k < 2 → (imageAt twoBlocksMemory twoBlocksBoot).dataBlock 0 k <
        (imageAt twoBlocksMemory twoBlocksBoot).dataCount := by decide
    intro n k hn hk
    obtain rfl : n = 0 := by omega
    rw [hlen] at hk
    simp only [absBlockSize] at hk
    exact hblock k (by omega)

theorem read_data_correct_iff_twoBlocks :
    (∃ r, readDataAt Layout.bootimg.pageDirectory twoBlocksMemory twoBlocksBoot 0 4095 (fun _ => 0)
        10 = some r ∧
        ReadsFile (imageAt twoBlocksMemory twoBlocksBoot) 0 4095 10 (fun _ => 0) r) ↔
      (imageAt twoBlocksMemory twoBlocksBoot).inodeCount ≤ 0 ∨
        lookupEnd twoBlocksBoot 0 4095 ≤ 0x800000 :=
  read_data_correct_iff twoBlocks_stored 0 4095 10 (fun _ => 0)

/-- A read of one byte at the largest offset does not return 0. -/
theorem read_data_faults : ¬ ∀ (lay : Layout) (ops : List PageOp) (ram : Buf) (img : Image)
    (boot : Nat), img.Stored (memoryAfter lay ops ram) boot →
      ∀ (inode : Nat) (offset length : Fin 4294967296) (buf : Buf),
        ∃ r, readDataAt lay.pageDirectory (memoryAfter lay ops ram) boot inode offset buf length =
          some r ∧ ReadsFile img inode offset length buf r := by
  intro hclaim
  obtain ⟨r, hr, _⟩ := hclaim Layout.bootimg [] (fun o => twoBlocks.mem (o - twoBlocksBoot)) _ _
    twoBlocks_stored 0 4294967295 1 (fun _ => 0)
  rw [readDataAt_fault twoBlocks_stored (by decide) (by decide) (by decide)] at hr
  exact Option.some_ne_none r hr.symm

end LmaOS
