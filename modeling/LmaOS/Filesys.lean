import LmaOS.Lib

/-
  The read-only file system of filesys.c: the image, directory lookup and `read_data`.

  The image is the memory from `boot_block` on. Offsets are 32-bit, as the pointer arithmetic of
  the source is, so a damaged image reads some byte and never leaves the model; Files/ReadFault has
  `read_data` on the part of that memory that is mapped. Layout of the
  image (filesys.h): the boot block (three counts, 52 reserved bytes, 64-byte directory entries
  from offset 64), then one 4 KB inode block per inode, then the 4 KB data blocks.

  `readData_eq`: on a file of at most 1023 blocks, `read_data` returns
  `min length (file length - offset)` and writes that many bytes of the file's content, and
  nothing else, to the buffer.
-/
namespace LmaOS

open Util

abbrev filenameLen : Nat := 32
abbrev absBlockSize : Nat := 4096
/-- `DATABLOCK_SIZE`: the entries of an inode's `data_block` table. -/
abbrev datablockSize : Nat := 1023

/-- The memory from `boot_block` on. -/
structure Image where
  mem : Buf

namespace Image

def byte (img : Image) (o : Nat) : UInt8 := img.mem (o % 4294967296)

def word (img : Image) (o : Nat) : Nat := Buf.word img.byte o

def dirCount (img : Image) : Nat := img.word 0
def inodeCount (img : Image) : Nat := img.word 4
def dataCount (img : Image) : Nat := img.word 8

/-- `boot_block->dir_entries[i]`: its name field (and what follows it), type and inode. -/
def fileName (img : Image) (i : Nat) : Buf := fun k => img.byte (64 + 64 * i + k)
def fileType (img : Image) (i : Nat) : Nat := img.word (64 + 64 * i + 32)
def inodeNum (img : Image) (i : Nat) : Nat := img.word (64 + 64 * i + 36)

/-- The inode block of `inode`, from `boot_block_end` on. -/
def inodeAddr (inode : Nat) : Nat := absBlockSize + inode * absBlockSize
def inodeLength (img : Image) (inode : Nat) : Nat := img.word (inodeAddr inode)
def dataBlock (img : Image) (inode k : Nat) : Nat := img.word (inodeAddr inode + 4 + 4 * k)

/-- `data_block_start`. -/
def dataBlockStart (img : Image) : Nat := (img.inodeCount + 1) * absBlockSize

/-- `len_inodes`, set by `fs_init`. -/
def lenInodes (img : Image) : Nat := (img.inodeCount * absBlockSize) % 4294967296

/-- Byte `j` of a file: the byte `j % 4096` of its data block number `j / 4096`. -/
def contentByte (img : Image) (inode j : Nat) : UInt8 :=
  img.byte (img.dataBlockStart + img.dataBlock inode (j / absBlockSize) * absBlockSize
    + j % absBlockSize)

/-- The content of a file: the first `length` bytes of its data blocks in order. -/
def content (img : Image) (inode : Nat) : List UInt8 :=
  (List.range (img.inodeLength inode)).map (img.contentByte inode)

/-- A well-formed image: it fits the address space, at most 63 entries of known type, every
    regular file names an inode, no file is longer than its block table reaches, and every block
    of a file is one of the image's data blocks. -/
structure WellFormed (img : Image) : Prop where
  fits : (1 + img.inodeCount + img.dataCount) * absBlockSize ≤ 4294967296
  dirs : img.dirCount ≤ 63
  types : ∀ i, i < img.dirCount → img.fileType i ≤ 2
  inodes : ∀ i, i < img.dirCount → img.fileType i = 2 → img.inodeNum i < img.inodeCount
  lengths : ∀ n, n < img.inodeCount → img.inodeLength n ≤ datablockSize * absBlockSize
  blocks : ∀ n k, n < img.inodeCount → k * absBlockSize < img.inodeLength n →
    img.dataBlock n k < img.dataCount

@[simp] theorem content_length (img : Image) (inode : Nat) :
    (img.content inode).length = img.inodeLength inode := by simp [content]

end Image

/-! ## Directory lookup -/

/-- A `dentry_t`; its reserved bytes are never written. -/
structure Dentry where
  fileName : Buf
  fileType : Nat
  inodeNum : Nat

def readDentryByIndex (img : Image) (index : Nat) (dentry : Dentry) : Int × Dentry :=
  if index ≥ img.dirCount then (-1, dentry)
  else (0, { fileName := strncpy dentry.fileName (img.fileName index) filenameLen
             fileType := img.fileType index
             inodeNum := img.inodeNum index })

def readDentryLoop (img : Image) (fname : Buf) (dentry : Dentry) : Nat → Nat → Int × Dentry
  | 0, _ => (-1, dentry)
  | n + 1, i =>
      if strncmp (img.fileName i) fname filenameLen = 0 then
        (0, (readDentryByIndex img i dentry).2)
      else readDentryLoop img fname dentry n (i + 1)

def readDentryByName (img : Image) (fname : Buf) (dentry : Dentry) : Int × Dentry :=
  readDentryLoop img fname dentry img.dirCount 0

theorem readDentryLoop_cases (img : Image) (fname : Buf) (d : Dentry) : ∀ n i,
    (readDentryLoop img fname d n i = (-1, d)) ∨
    ∃ j, i ≤ j ∧ j < i + n ∧ strncmp (img.fileName j) fname filenameLen = 0 ∧
      readDentryLoop img fname d n i = (0, (readDentryByIndex img j d).2)
  | 0, i => Or.inl rfl
  | n + 1, i => by
      rw [readDentryLoop]
      split
      · rename_i h
        exact Or.inr ⟨i, Nat.le_refl _, by omega, h, rfl⟩
      · rcases readDentryLoop_cases img fname d n (i + 1) with h | ⟨j, h1, h2, h3, h4⟩
        · exact Or.inl h
        · exact Or.inr ⟨j, by omega, by omega, h3, h4⟩

/-- The loop stops at the first entry whose name matches. -/
theorem readDentryLoop_first {img : Image} {fname : Buf} {index : Nat} (d : Dentry)
    (hnamed : strncmp (img.fileName index) fname filenameLen = 0) : ∀ n i, i ≤ index →
    index < i + n → (∀ j, i ≤ j → j < index → strncmp (img.fileName j) fname filenameLen ≠ 0) →
      readDentryLoop img fname d n i = (0, (readDentryByIndex img index d).2)
  | 0, i, _, hlt, _ => by omega
  | n + 1, i, hle, hlt, hfirst => by
      rw [readDentryLoop]
      rcases Nat.lt_or_eq_of_le hle with hi | rfl
      · rw [if_neg (hfirst i (Nat.le_refl i) hi)]
        exact readDentryLoop_first d hnamed n (i + 1) hi (by omega)
          (fun j hj hlt => hfirst j (by omega) hlt)
      · rw [if_pos hnamed]

/-- A lookup fails and leaves the entry alone, or copies an entry whose name matches. -/
theorem readDentryByName_cases (img : Image) (fname : Buf) (d : Dentry) :
    (readDentryByName img fname d = (-1, d)) ∨
    ∃ j, j < img.dirCount ∧ strncmp (img.fileName j) fname filenameLen = 0 ∧
      readDentryByName img fname d = (0, ⟨strncpy d.fileName (img.fileName j) filenameLen,
        img.fileType j, img.inodeNum j⟩) := by
  rcases readDentryLoop_cases img fname d img.dirCount 0 with h | ⟨j, _, h2, h3, h4⟩
  · exact Or.inl h
  · have hj : j < img.dirCount := by omega
    refine Or.inr ⟨j, hj, h3, ?_⟩
    rw [readDentryByName, h4, readDentryByIndex, if_neg (by omega)]

/-! ## read_data -/

/-- The copy loop: `i` bytes copied so far, `loc` is `curr_datablock_loc`. -/
def readDataLoop (img : Image) (inode offset : Nat) :
    Nat → Nat → Nat → Nat → Nat → Buf → Nat × Buf
  | 0, i, _, _, _, buf => (i, buf)
  | n + 1, i, datablock, byteOffset, loc, buf =>
      if (i + offset) % 4294967296 ≥ img.inodeLength inode then (i, buf)
      else if byteOffset ≥ absBlockSize then
        let loc := img.dataBlockStart + img.dataBlock inode (datablock + 1) * absBlockSize
        readDataLoop img inode offset n (i + 1) (datablock + 1) 1 (loc + 1)
          (Function.update buf i (img.byte loc))
      else
        readDataLoop img inode offset n (i + 1) datablock (byteOffset + 1) (loc + 1)
          (Function.update buf i (img.byte loc))

/-- `read_data(inode, offset, buf, length)`: the bytes read and the buffer. -/
def readData (img : Image) (inode offset : Nat) (buf : Buf) (length : Nat) : Nat × Buf :=
  if inode ≥ img.inodeCount then (0, buf)
  else
    let datablock := offset / absBlockSize
    let byteOffset := offset % absBlockSize
    let loc := img.dataBlockStart + img.dataBlock inode datablock * absBlockSize + byteOffset
    readDataLoop img inode offset length 0 datablock byteOffset loc buf

/-- The loop invariant: `(datablock, byteOffset)` is the file position `offset + i`, where
    `byteOffset = 4096` stands for the start of the next block, and `loc` points to it. -/
theorem readDataLoop_eq (img : Image) (inode offset : Nat)
    (hlen : img.inodeLength inode ≤ datablockSize * absBlockSize)
    (n i db bo loc : Nat) (buf : Buf) (hbo : bo ≤ absBlockSize)
    (hpos : db * absBlockSize + bo = offset + i)
    (hloc : loc = img.dataBlockStart + img.dataBlock inode db * absBlockSize + bo)
    (hin : offset + i ≤ img.inodeLength inode) :
    readDataLoop img inode offset n i db bo loc buf =
      (i + min n (img.inodeLength inode - (offset + i)),
        fun j => if i ≤ j ∧ j < i + min n (img.inodeLength inode - (offset + i))
          then img.contentByte inode (offset + j) else buf j) := by
  simp only [datablockSize, absBlockSize] at hlen hbo hpos
  induction n generalizing i db bo loc buf with
  | zero =>
      rw [readDataLoop, Nat.zero_min]
      exact congrArg (i, ·) (funext fun j => by rw [if_neg (by omega)])
  | succ n ih =>
      rw [readDataLoop]
      by_cases hend : (i + offset) % 4294967296 ≥ img.inodeLength inode
      · have hstop : min (n + 1) (img.inodeLength inode - (offset + i)) = 0 := by omega
        rw [if_pos hend, hstop]
        exact congrArg (i, ·) (funext fun j => by rw [if_neg (by omega)])
      · have hmore : min (n + 1) (img.inodeLength inode - (offset + i)) =
            min n (img.inodeLength inode - (offset + (i + 1))) + 1 := by omega
        have hcount : i + 1 + min n (img.inodeLength inode - (offset + (i + 1))) =
            i + (min n (img.inodeLength inode - (offset + (i + 1))) + 1) := by omega
        have hroom : offset + (i + 1) ≤ img.inodeLength inode := by omega
        rw [if_neg hend]
        by_cases hnext : bo ≥ 4096
        · obtain rfl : bo = 4096 := by omega
          have hdiv : (offset + i) / 4096 = db + 1 := by omega
          have hmod : (offset + i) % 4096 = 0 := by omega
          have hbyte : img.contentByte inode (offset + i) = img.byte (img.dataBlockStart
              + img.dataBlock inode (db + 1) * absBlockSize) := by
            unfold Image.contentByte
            rw [hdiv, hmod, Nat.add_zero]
          rw [if_pos hnext]
          dsimp only
          rw [ih (i + 1) (db + 1) 1 _ _ (by omega) (by omega) rfl hroom, hcount, hmore]
          exact congrArg _ (fill_succ buf _ i _ hbyte)
        · have hdiv : (offset + i) / 4096 = db := by omega
          have hmod : (offset + i) % 4096 = bo := by omega
          have hbyte : img.contentByte inode (offset + i) = img.byte loc := by
            unfold Image.contentByte
            rw [hdiv, hmod, hloc]
          rw [if_neg hnext, ih (i + 1) db (bo + 1) _ _ (by omega) (by omega)
            (by rw [hloc, Nat.add_assoc]) hroom, hcount, hmore]
          exact congrArg _ (fill_succ buf _ i _ hbyte)

/-- `read_data` on a file of at most 1023 blocks. -/
theorem readData_eq (img : Image) (inode offset : Nat) (buf : Buf) (length : Nat)
    (hin : inode < img.inodeCount)
    (hlen : img.inodeLength inode ≤ datablockSize * absBlockSize) (hoff : offset < 4294967296) :
    readData img inode offset buf length =
      (min length (img.inodeLength inode - offset),
        fun j => if j < min length (img.inodeLength inode - offset)
          then img.contentByte inode (offset + j) else buf j) := by
  rw [readData, if_neg (by omega)]
  dsimp only
  rcases Nat.lt_or_ge (img.inodeLength inode) offset with hpast | hle
  · -- past the end the first test returns
    have hzero : min length (img.inodeLength inode - offset) = 0 := by omega
    have hout : ∀ j, ¬ j < 0 := by omega
    rw [hzero]
    simp only [hout, if_false]
    cases length with
    | zero => rfl
    | succ n =>
        have hend : (0 + offset) % 4294967296 ≥ img.inodeLength inode := by
          rw [Nat.zero_add, Nat.mod_eq_of_lt hoff]; omega
        rw [readDataLoop, if_pos hend]
  · rw [readDataLoop_eq img inode offset hlen length 0 _ _ _ buf
      (Nat.le_of_lt (Nat.mod_lt _ (by decide)))
      (by rw [Nat.mul_comm, Nat.div_add_mod, Nat.add_zero]) rfl (by omega)]
    simp only [Nat.zero_add, Nat.add_zero, Nat.zero_le, true_and]

end LmaOS
