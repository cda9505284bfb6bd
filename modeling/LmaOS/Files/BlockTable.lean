import LmaOS.Files.Open
import LmaOS.Session.Descriptors

/-
  The indices into an inode's block table.

  `read_data` looks up the block of the offset before it tests for the end of the file, and the
  blocks after it behind that test. `readDataIndices` are the indices of both kinds. Of the 1023
  entries of the table it stays inside from every position of a file except one: behind the last
  byte of a file of exactly 1023 blocks (`AtTableEnd`, `readDataIndices_inBounds_iff`).

  `keepsFiles_stepRel`: whatever happens, the entries for regular files keep naming an inode of
  the image and a position in its file. With it `block_table_iff` is about all runs after `open`,
  and `block_table_overruns` reads a file of 1023 blocks to its end and once more.
-/
namespace LmaOS

open Util

/-! ## The indices -/

/-- The indices of the copy loop. -/
def readDataLoopIndices (img : Image) (inode offset : Nat) : Nat → Nat → Nat → Nat → List Nat
  | 0, _, _, _ => []
  | n + 1, i, datablock, byteOffset =>
      if (i + offset) % 4294967296 ≥ img.inodeLength inode then []
      else if byteOffset ≥ absBlockSize then
        (datablock + 1) :: readDataLoopIndices img inode offset n (i + 1) (datablock + 1) 1
      else readDataLoopIndices img inode offset n (i + 1) datablock (byteOffset + 1)

/-- The indices of `data_block` in `read_data(inode, offset, buf, length)`, in order. -/
def readDataIndices (img : Image) (inode offset length : Nat) : List Nat :=
  if inode ≥ img.inodeCount then []
  else
    let datablock := offset / absBlockSize
    datablock :: readDataLoopIndices img inode offset length 0 datablock (offset % absBlockSize)

/-- The entry a `read` hands to `read_file`, if it gets there. -/
def readFileFd (k : Kernel) (fd : Int) (buf : Option Buf) (nbytes : Int) : Option Fd :=
  match buf with
  | none => none
  | some _ =>
    if fd < 0 ∨ fd > 7 ∨ nbytes < 0 then none
    else
      let f := (k.pcbs (getPcbAddress k)).file fd.toNat
      if f.flags = 0 then none
      else if f.fileOp = .fileOp then some f
      else none

/-- The indices of `data_block` in a `read`. -/
def readIndices (img : Image) (k : Kernel) (fd : Int) (buf : Option Buf) (nbytes : Int) :
    List Nat :=
  match readFileFd k fd buf nbytes with
  | none => []
  | some f => readDataIndices img f.inode f.pos nbytes.toNat

/-- The file fills its block table, and all of it was read. -/
def AtTableEnd (img : Image) (f : Fd) : Prop :=
  img.inodeLength f.inode = datablockSize * absBlockSize ∧ f.pos = img.inodeLength f.inode

section Indices

variable {img : Image}

/-- Behind the test the block is one of the file. -/
theorem readDataLoopIndices_inBounds {inode offset : Nat}
    (hlen : img.inodeLength inode ≤ datablockSize * absBlockSize) (n : Nat) {i db bo : Nat}
    (hbo : bo ≤ absBlockSize) (hpos : db * absBlockSize + bo = offset + i)
    (hin : offset + i ≤ img.inodeLength inode) :
    ∀ x ∈ readDataLoopIndices img inode offset n i db bo, x < datablockSize := by
  induction n generalizing i db bo with
  | zero => exact fun x hx => absurd hx List.not_mem_nil
  | succ n ih =>
    rw [readDataLoopIndices]
    simp only [datablockSize, absBlockSize] at hlen hbo hpos ih ⊢
    split
    · exact fun x hx => absurd hx List.not_mem_nil
    · rename_i hmore
      have hmore : offset + i < img.inodeLength inode := by omega
      split
      · rename_i hnext
        obtain rfl : bo = 4096 := by omega
        have hrest : (db + 1) * 4096 + 1 = offset + (i + 1) := by omega
        exact List.forall_mem_cons.mpr ⟨by omega, ih (by decide) hrest hmore⟩
      · rename_i hstay
        exact ih (by omega) (by omega) hmore

/-- From a position in the file the table is overrun at its end only. -/
theorem readDataIndices_inBounds_iff {inode offset : Nat} (length : Nat)
    (hin : inode < img.inodeCount)
    (hlen : img.inodeLength inode ≤ datablockSize * absBlockSize)
    (hpos : offset ≤ img.inodeLength inode) :
    (∀ x ∈ readDataIndices img inode offset length, x < datablockSize) ↔
      ¬ (img.inodeLength inode = datablockSize * absBlockSize ∧
        offset = img.inodeLength inode) := by
  have hloop := readDataLoopIndices_inBounds hlen length (i := 0)
    (Nat.le_of_lt (Nat.mod_lt offset (Nat.zero_lt_succ 4095)))
    (by rw [Nat.mul_comm, Nat.div_add_mod, Nat.add_zero]) hpos
  unfold readDataIndices
  dsimp only
  rw [if_neg (Nat.not_le_of_lt hin), List.forall_mem_cons, and_iff_left hloop]
  simp only [datablockSize, absBlockSize] at hlen ⊢
  omega

theorem readFileFd_some {k : Kernel} {fd : Int} {buf : Option Buf} {nbytes : Int} {f : Fd}
    (h : readFileFd k fd buf nbytes = some f) :
    fd.toNat < 8 ∧ (k.pcbs (getPcbAddress k)).file fd.toNat = f ∧ f.fileOp = .fileOp := by
  unfold readFileFd at h
  split at h
  · cases h
  · split at h
    · cases h
    · rename_i hargs
      dsimp only at h
      split at h
      · cases h
      · split at h
        · rename_i hops
          obtain rfl := Option.some.inj h
          exact ⟨by omega, rfl, hops⟩
        · cases h

/-- Such a call is a `read_file`. -/
theorem read_of_readFileFd {k : Kernel} (dentry : Dentry) (tail : Buf) {fd : Int} {buf : Buf}
    {nbytes : Int} {f : Fd} (h : readFileFd k fd (some buf) nbytes = some f) :
    read img k dentry tail fd (some buf) nbytes =
      some (readFile img k fd.toNat buf nbytes.toNat) := by
  unfold readFileFd at h
  unfold read
  dsimp only at h ⊢
  split at h
  · cases h
  · rename_i hargs
    rw [if_neg hargs]
    split at h
    · cases h
    · rename_i hopen
      rw [if_neg hopen]
      split at h
      · rename_i hops
        rw [hops]
        rfl
      · cases h

/-- A descriptor opened as a regular file gets there. -/
theorem readFileFd_open {k : Kernel} {fd inode pos : Nat}
    (hdesc : k.fdAt fd = ⟨.fileOp, inode, pos, 1⟩) (hfd : fd < 8) (buf : Buf) (nbytes : Nat) :
    readFileFd k fd (some buf) nbytes = some ⟨.fileOp, inode, pos, 1⟩ := by
  have hargs : ¬ ((fd : Int) < 0 ∨ (fd : Int) > 7 ∨ (nbytes : Int) < 0) := by omega
  have hentry : (k.pcbs (getPcbAddress k)).file fd = ⟨.fileOp, inode, pos, 1⟩ := hdesc
  unfold readFileFd
  dsimp only
  rw [if_neg hargs, Int.toNat_natCast, hentry]
  rfl

end Indices

/-! ## Positions stay in the file -/

/-- An entry for a regular file names an inode of the image and a position in its file. -/
def Fd.InFile (img : Image) (f : Fd) : Prop :=
  f.fileOp = .fileOp → f.inode < img.inodeCount ∧ f.pos ≤ img.inodeLength f.inode

theorem Fd.inFile_of_ne {img : Image} {f : Fd} (h : f.fileOp ≠ .fileOp) : f.InFile img :=
  fun hops => absurd hops h

/-- Every entry that was in its file still is. -/
def KeepsFiles (img : Image) (k k' : Kernel) : Prop :=
  ∀ p d, ((k.pcbs p).file d).InFile img → ((k'.pcbs p).file d).InFile img

namespace KeepsFiles

variable {img : Image} {k k' k'' : Kernel}

theorem refl (k : Kernel) : KeepsFiles img k k := fun _ _ h => h

theorem trans (h : KeepsFiles img k k') (h' : KeepsFiles img k' k'') : KeepsFiles img k k'' :=
  fun p d hfile => h' p d (h p d hfile)

theorem of_file (h : ∀ p, (k'.pcbs p).file = (k.pcbs p).file) : KeepsFiles img k k' :=
  fun p d hfile => by rw [h p]; exact hfile

theorem of_pcbs (h : k'.pcbs = k.pcbs) : KeepsFiles img k k' := of_file fun p => by rw [h]

/-- One entry is replaced. -/
theorem of_update {pid : Int} {e : Nat} {f : Fd}
    (hpcbs : k'.pcbs = (k.setPcb pid { k.pcbs pid with
      file := Function.update (k.pcbs pid).file e f }).pcbs)
    (hf : ((k.pcbs pid).file e).InFile img → f.InFile img) : KeepsFiles img k k' := by
  intro p d hfile
  rw [hpcbs]
  by_cases hp : p = pid
  · subst hp
    dsimp only [Kernel.setPcb]
    rw [Function.update_self]
    dsimp only
    by_cases hd : d = e
    · subst hd
      rw [Function.update_self]
      exact hf hfile
    · rw [Function.update_of_ne hd]
      exact hfile
  · dsimp only [Kernel.setPcb]
    rw [Function.update_of_ne hp]
    exact hfile

end KeepsFiles

theorem openedFd_inFile {img : Image} (hwf : img.WellFormed) {k : Kernel} {dentry : Dentry}
    {filename : CString} {ops : FileOps} (h : OpensAs img k dentry filename ops) :
    (openedFd ops (if ops = FileOps.fileOp then
      (readDentryByName img filename.buf dentry).2.inodeNum else 0)).InFile img := by
  rintro (hops : ops = .fileOp)
  subst hops
  have hkind := h.kind
  have hregular : (readDentryByName img filename.buf dentry).2.fileType = 2 := by
    unfold openOps at hkind
    split at hkind
    · cases hkind
    · split at hkind
      · cases hkind
      · split at hkind
        · assumption
        · cases hkind
  refine ⟨?_, Nat.zero_le _⟩
  show (readDentryByName img filename.buf dentry).2.inodeNum < img.inodeCount
  rcases readDentryByName_cases img filename.buf dentry with he | ⟨j, hj, _, he⟩
  · exact absurd (congrArg Prod.fst he) h.named.2
  · rw [he] at hregular ⊢
    exact hwf.inodes j hj hregular

section Calls

variable {img : Image}

theorem openCall_keepsFiles (hwf : img.WellFormed) (k : Kernel) (dentry : Dentry)
    (filename : CString) : KeepsFiles img k (openCall img k dentry filename).2 := by
  rcases openCall_cases img k dentry filename with ⟨ops, hops, _, rtcA, hkernel⟩ | ⟨_, heq⟩
  · rw [hkernel]
    by_cases hlt : (k.pcbs (getPcbAddress k)).openFd < 8
    · exact .of_update (opened_pcbs k rtcA ops _ hlt) fun _ => openedFd_inFile hwf hops
    · -- past the table only the argument is written
      refine .of_file fun p => ?_
      unfold opened Pcb.setFile
      rw [if_neg hlt]
      dsimp only [Kernel.setPcb]
      rw [Function.update_apply]
      split
      · subst p; rfl
      · rfl
  · rw [heq]
    exact .refl k

theorem close_keepsFiles (k : Kernel) (fd : Int) : KeepsFiles img k (close k fd).2 := by
  unfold close
  split
  · exact .refl k
  · dsimp only
    split
    · exact .refl k
    · refine .of_update rfl fun hfile hops => ?_
      exact ⟨Nat.zero_lt_of_lt (hfile hops).1, Nat.zero_le _⟩

theorem readFile_keepsFiles (hwf : img.WellFormed) (k : Kernel) (fd : Nat) (buf : Buf)
    (nbytes : Nat) : KeepsFiles img k (readFile img k fd buf nbytes).kernel := by
  rw [readFile_eq]
  dsimp only
  refine .of_update rfl fun hfile hops => ?_
  obtain ⟨hin, hpos⟩ : (k.fdAt fd).inode < img.inodeCount ∧
      (k.fdAt fd).pos ≤ img.inodeLength (k.fdAt fd).inode := hfile hops
  have hlen := hwf.lengths _ hin
  simp only [datablockSize, absBlockSize] at hlen
  rw [readData_eq img _ _ buf nbytes hin (hwf.lengths _ hin) (by omega)]
  refine ⟨hin, ?_⟩
  dsimp only
  rw [Nat.mod_eq_of_lt (by omega)]
  omega

theorem read_keepsFiles (hwf : img.WellFormed) {k : Kernel} {dentry : Dentry} {tail : Buf}
    {fd : Int} {buf : Option Buf} {nbytes : Int} {r : ReadResult}
    (h : read img k dentry tail fd buf nbytes = some r) : KeepsFiles img k r.kernel := by
  unfold read at h
  split at h
  · cases h; exact .refl k
  · split at h
    · cases h; exact .refl k
    · dsimp only at h
      split at h
      · cases h; exact .refl k
      · cases hops : ((k.pcbs (getPcbAddress k)).file fd.toNat).fileOp with
        | fileOp =>
          rw [hops] at h
          cases h
          exact readFile_keepsFiles hwf k _ _ _
        | dirOp =>
          rw [hops] at h
          obtain rfl := Option.some.inj h
          rw [readDir_eq]
          split
          · refine .of_update rfl fun _ => Fd.inFile_of_ne ?_
            rw [show (k.fdAt fd.toNat).fileOp = .dirOp from hops]
            decide
          · exact .refl k
        | stdinOp =>
          rw [hops] at h
          simp only [FileOps.read, terminalRead] at h
          split at h
          · cases h; exact .refl k
          · split at h
            · cases h; exact .of_pcbs rfl
            · cases h
        | rtcOp => rw [hops] at h; cases h; exact .refl k
        | stdoutOp => rw [hops] at h; cases h; exact .refl k
        | doNothing => rw [hops] at h; cases h; exact .refl k

theorem write_keepsFiles (k : Kernel) (fd : Int) (buf : Option Buf) (nbytes : Int) :
    KeepsFiles img k (write k fd buf nbytes).2 := by
  -- the call acts on no PCB
  refine .of_pcbs (funext fun p => ?_)
  exact (write_actsOnFiles k (p + 1) fd buf nbytes).actsOn.others (by omega)

theorem keepsFiles_closingRel (pid : Int) : ClosingRel pid (KeepsFiles img) where
  refl := .refl
  trans := .trans
  closed := close_keepsFiles
  disabled := fun _ _ => .of_update rfl fun _ =>
    Fd.inFile_of_ne (show FileOps.doNothing ≠ .fileOp by decide)

theorem newFiles_inFile {file : Nat → Fd} {d : Nat} (h : (file d).InFile img) :
    (newFiles file d).InFile img := by
  unfold newFiles
  dsimp only
  rw [Function.update_apply]
  split
  · exact Fd.inFile_of_ne (show FileOps.stdoutOp ≠ .fileOp by decide)
  · rw [Function.update_apply]
    split
    · exact Fd.inFile_of_ne (show FileOps.stdinOp ≠ .fileOp by decide)
    · exact h

theorem execute_keepsFiles (k : Kernel) (l : Locals) (command : Option CString) :
    KeepsFiles img k (execute img k l command).1 := by
  rcases execute_cases img k l command with hf | ⟨_, _, _, _, _, _, _, _, _, hs⟩
  · exact .of_pcbs hf.pcbs
  · rw [hs]
    intro p d hfile
    unfold startProcess
    dsimp only [Kernel.setPcb]
    rw [Function.update_apply]
    split
    · subst p
      rw [newPcb_file]
      exact newFiles_inFile hfile
    · exact hfile

theorem haltClosed_keepsFiles (k : Kernel) (pid : Int) : KeepsFiles img k (haltClosed k pid) :=
  (KeepsFiles.of_pcbs (unlinked_pcbs k _)).trans ((keepsFiles_closingRel pid).closeSteps _ _)

end Calls

/-- Whatever the system does, positions stay in their files. -/
theorem keepsFiles_stepRel {img : Image} (hwf : img.WellFormed) :
    StepRel img (KeepsFiles img) where
  trans := .trans
  devices := fun _ _ _ _ => .of_pcbs rfl
  opens := openCall_keepsFiles hwf
  closes := close_keepsFiles
  reads := fun _ _ _ _ _ _ _ hr => read_keepsFiles hwf hr
  writes := write_keepsFiles
  executes := execute_keepsFiles
  enters := fun k => .of_pcbs (by rw [haltEnter_eq])
  unloads := haltClosed_keepsFiles
  resumes := fun _ _ => .of_pcbs rfl
  displays := fun k saved tid => .of_file (displayed_file k saved tid)

/-! ## Runs -/

/-- The kernel after one step of the system. -/
abbrev performed (img : Image) (k : Kernel) (op : Op) : Kernel := (perform img k op).1

/-- A `read` of the process `p` on `fd` looks up entries of the block table only. -/
def ReadsInTable (img : Image) (p : Int) (fd : Nat) (k : Kernel) (op : Op) : Prop :=
  ∀ dentry tail buf nbytes, op = .read dentry tail fd buf nbytes → getPcbAddress k = p →
    ∀ i ∈ readIndices img k fd buf nbytes, i < datablockSize

/-- A `read` of the process `p` on `fd` does not get to `read_file` at the end of the table. -/
def StopsAtEnd (img : Image) (p : Int) (fd : Nat) (k : Kernel) (op : Op) : Prop :=
  ∀ dentry tail buf nbytes, op = .read dentry tail fd buf nbytes → getPcbAddress k = p →
    ∀ f ∈ readFileFd k fd buf nbytes, ¬ AtTableEnd img f

theorem readIndices_inBounds_iff {img : Image} (hwf : img.WellFormed) {k : Kernel} {fd : Nat}
    (hfile : fd < 8 → (k.fdAt fd).InFile img) (buf : Option Buf) (nbytes : Int) :
    (∀ i ∈ readIndices img k fd buf nbytes, i < datablockSize) ↔
      ∀ f ∈ readFileFd k fd buf nbytes, ¬ AtTableEnd img f := by
  unfold readIndices
  cases hread : readFileFd k fd buf nbytes with
  | none => exact iff_of_true (fun i hi => absurd hi List.not_mem_nil) fun f hf => nomatch hf
  | some f =>
    obtain ⟨hlt, hf, hops⟩ := readFileFd_some hread
    rw [Int.toNat_natCast] at hlt hf
    obtain ⟨hin, hpos⟩ := hfile hlt (by rw [← hops, ← hf]; rfl)
    rw [show k.fdAt fd = f from hf] at hin hpos
    dsimp only
    rw [readDataIndices_inBounds_iff _ hin (hwf.lengths _ hin) hpos]
    exact ⟨fun h f' hf' => Option.some.inj hf' ▸ h, fun h => h f rfl⟩

/-- In every run after `open`, the reads on the descriptor stay in the block table exactly if none
    of them comes after the last byte of a file of 1023 blocks. What is executed in between is
    `execute` on arrays of its own, so an argument has at most 128 characters there (`ArgFits`). -/
theorem block_table_iff {img : Image} (hwf : img.WellFormed) {k : Kernel} {dentry : Dentry}
    {filename : CString} {fd : Nat} (hopen : (openCall img k dentry filename).1 = fd)
    (ops : List Op) :
    Allowed (performed img) (ReadsInTable img (getPcbAddress k) fd)
        (openCall img k dentry filename).2 ops ↔
      Allowed (performed img) (StopsAtEnd img (getPcbAddress k) fd)
        (openCall img k dentry filename).2 ops := by
  have hopened : fd < 8 →
      (((openCall img k dentry filename).2.pcbs (getPcbAddress k)).file fd).InFile img := by
    intro hlt
    rcases openCall_cases img k dentry filename with ⟨ops', hops, hfd, rtcA, hkernel⟩ | ⟨_, heq⟩
    · obtain rfl : fd = (k.pcbs (getPcbAddress k)).openFd := by omega
      rw [hkernel]
      have hentry := openedFd_inFile hwf hops
      rw [← opened_fdAt k rtcA ops' _ hlt] at hentry
      exact hentry
    · rw [heq] at hopen
      dsimp only at hopen
      omega
  have hrun : Allowed (performed img) (fun _ _ => True) (openCall img k dentry filename).2 ops :=
    allowed_true _ ops
  refine hrun.congr_steps
    (fun k' => fd < 8 → ((k'.pcbs (getPcbAddress k)).file fd).InFile img)
    (fun k' op h _ _ hlt => (keepsFiles_stepRel hwf).perform k' op _ _ (h hlt))
    (fun k' op h _ => ?_) hopened
  refine forall_congr' fun d => forall_congr' fun tail => forall_congr' fun buf =>
    forall_congr' fun nbytes => forall_congr' fun _ => forall_congr' fun hp => ?_
  refine readIndices_inBounds_iff hwf (fun hlt => ?_) buf nbytes
  have hentry := h hlt
  rw [← hp] at hentry
  exact hentry

/-- A read to the end of "shell", and one more. -/
def shellReads : List Op :=
  [.read ⟨fun _ => 0, 0, 0⟩ (fun _ => 0) 2 (some fun _ => 0) 4,
    .read ⟨fun _ => 0, 0, 0⟩ (fun _ => 0) 2 (some fun _ => 0) 1]

theorem block_table_iff_shellReads :
    Allowed (performed clockImage) (ReadsInTable clockImage (getPcbAddress clockShell) 2)
        (openCall clockImage clockShell ⟨fun _ => 0, 0, 0⟩ shellCommand).2 shellReads ↔
      Allowed (performed clockImage) (StopsAtEnd clockImage (getPcbAddress clockShell) 2)
        (openCall clockImage clockShell ⟨fun _ => 0, 0, 0⟩ shellCommand).2 shellReads :=
  block_table_iff clockImage_wellFormed (by decide) shellReads

/-! ## A file of 1023 blocks -/

/-- A read of an open regular file moves the position to the end at most. -/
theorem performed_read {img : Image} {k : Kernel} {fd inode pos : Nat}
    (hdesc : k.fdAt fd = ⟨.fileOp, inode, pos, 1⟩) (hfd : fd < 8) (hin : inode < img.inodeCount)
    (hlen : img.inodeLength inode ≤ datablockSize * absBlockSize)
    (hpos : pos ≤ img.inodeLength inode) (dentry : Dentry) (tail buf : Buf) (nbytes : Nat) :
    (performed img k (.read dentry tail fd (some buf) nbytes)).fdAt fd =
        ⟨.fileOp, inode, pos + min nbytes (img.inodeLength inode - pos), 1⟩ ∧
      getPcbAddress (performed img k (.read dentry tail fd (some buf) nbytes)) =
        getPcbAddress k := by
  have hnext := readFile_next k fd (by rw [hdesc]; exact hin) (by rw [hdesc]; exact hlen)
    (by rw [hdesc]; exact hpos) buf nbytes
  rw [hdesc] at hnext
  unfold performed perform
  dsimp only
  rw [read_of_readFileFd dentry tail (readFileFd_open hdesc hfd buf nbytes)]
  exact ⟨hnext.2.2, rfl⟩

/-- Such a read looks up the block of its position. -/
theorem mem_readIndices {img : Image} {k : Kernel} {fd inode pos : Nat}
    (hdesc : k.fdAt fd = ⟨.fileOp, inode, pos, 1⟩) (hfd : fd < 8) (hin : inode < img.inodeCount)
    (buf : Buf) (nbytes : Nat) : pos / absBlockSize ∈ readIndices img k fd (some buf) nbytes := by
  unfold readIndices
  rw [readFileFd_open hdesc hfd buf nbytes]
  unfold readDataIndices
  dsimp only
  rw [if_neg (Nat.not_le_of_lt hin)]
  exact List.mem_cons_self

/-- The files "shell", of four bytes, and "big", of 1023 blocks. -/
def bigBytes : List (Nat × UInt8) := [(0, 2), (4, 2), (8, 1),
  (64, 0x73), (65, 0x68), (66, 0x65), (67, 0x6c), (68, 0x6c), (96, 2),
  (128, 0x62), (129, 0x69), (130, 0x67), (160, 2), (164, 1),
  (4096, 4), (8193, 0xf0), (8194, 0x3f),
  (12288, 0x7f), (12289, 0x45), (12290, 0x4c), (12291, 0x46)]

/-- All blocks of both are the block 0. -/
def bigImage : Image where
  mem := fun o => (List.lookup o bigBytes).getD 0

/-- The block table of "big" is zero. -/
theorem bigImage_byte {o : Nat} (hlo : 8194 < o) (hhi : o < 12288) : bigImage.byte o = 0 := by
  unfold Image.byte
  rw [Nat.mod_eq_of_lt (by omega)]
  unfold bigImage
  dsimp only
  rw [List.lookup_eq_none_iff.mpr ?_]
  · rfl
  · have hlisted : ∀ q ∈ bigBytes, q.1 ≤ 8194 ∨ 12288 ≤ q.1 := by decide
    intro q hq
    have hq := hlisted q hq
    exact bne_iff_ne.mpr (by omega)

theorem bigImage_length : bigImage.inodeLength 1 = datablockSize * absBlockSize := by decide

theorem bigImage_wellFormed : bigImage.WellFormed where
  fits := by decide
  dirs := by decide
  types := by decide
  inodes := by decide
  lengths := by decide
  blocks := by
    have hcount : bigImage.inodeCount = 2 := by decide
    have hlen : bigImage.inodeLength 0 = 4 := by decide
    intro n j hn hj
    obtain rfl | rfl : n = 0 ∨ n = 1 := by omega
    · rw [hlen] at hj
      simp only [absBlockSize] at hj
      obtain rfl : j = 0 := by omega
      decide
    · rw [bigImage_length] at hj
      simp only [datablockSize, absBlockSize] at hj
      have hzero : bigImage.dataBlock 1 j = 0 := by
        unfold Image.dataBlock Image.word Buf.word Image.inodeAddr
        simp only [absBlockSize]
        rw [bigImage_byte (by omega) (by omega), bigImage_byte (by omega) (by omega),
          bigImage_byte (by omega) (by omega), bigImage_byte (by omega) (by omega)]
        rfl
      rw [hzero]
      decide

/-- The base shell of that image. -/
def bigShell : Kernel := (boot bigImage Kernel.loaded ⟨0, 0⟩ (Locals.zero ⟨0, 0⟩)).kernel

def bigName : CString := ⟨[0x62, 0x69, 0x67], by decide⟩

/-- A read of `nbytes` bytes on the descriptor 2. -/
def bigRead (nbytes : Nat) : Op :=
  .read ⟨fun _ => 0, 0, 0⟩ (fun _ => 0) (2 : Nat) (some fun _ => 0) nbytes

theorem bigRead_next {k : Kernel} {pos : Nat} (nbytes : Nat)
    (hdesc : k.fdAt 2 = ⟨.fileOp, 1, pos, 1⟩) (hpos : pos ≤ datablockSize * absBlockSize) :
    (performed bigImage k (bigRead nbytes)).fdAt 2 =
        ⟨.fileOp, 1, pos + min nbytes (datablockSize * absBlockSize - pos), 1⟩ ∧
      getPcbAddress (performed bigImage k (bigRead nbytes)) = getPcbAddress k := by
  have hin : 1 < bigImage.inodeCount := by decide
  rw [← bigImage_length] at hpos ⊢
  exact performed_read hdesc (by decide) hin (Nat.le_of_eq bigImage_length) hpos _ _ _ nbytes

/-- Two reads of 2 MB return all of "big", and the third looks up `data_block[1023]`. -/
theorem block_table_overruns : ¬ ∀ img : Image, img.WellFormed →
    ∀ (k : Kernel) (dentry : Dentry) (filename : CString) (fd : Nat),
      (readDentryByName img filename.buf dentry).2.fileType = 2 →
        (openCall img k dentry filename).1 = fd → ∀ ops,
          Allowed (performed img) (ReadsInTable img (getPcbAddress k) fd)
            (openCall img k dentry filename).2 ops := by
  intro hclaim
  obtain ⟨_, _, hthird, _⟩ := hclaim bigImage bigImage_wellFormed bigShell ⟨fun _ => 0, 0, 0⟩
    bigName 2 (by decide) (by decide) [bigRead 0x200000, bigRead 0x200000, bigRead 1]
  have hopened : (openCall bigImage bigShell ⟨fun _ => 0, 0, 0⟩ bigName).2.fdAt 2 =
      ⟨.fileOp, 1, 0, 1⟩ := by decide
  have hpid : getPcbAddress (openCall bigImage bigShell ⟨fun _ => 0, 0, 0⟩ bigName).2 =
      getPcbAddress bigShell := by decide
  generalize (openCall bigImage bigShell ⟨fun _ => 0, 0, 0⟩ bigName).2 = k at hthird hopened hpid
  obtain ⟨hfirst, hpid1⟩ := bigRead_next 0x200000 hopened (by decide)
  obtain ⟨hsecond, hpid2⟩ := bigRead_next 0x200000 hfirst (by decide)
  have hin : 1 < bigImage.inodeCount := by decide
  have hindex := mem_readIndices hsecond (by decide) hin (fun _ => 0) 1
  have hlt := hthird _ _ _ _ rfl (hpid2.trans (hpid1.trans hpid)) _ hindex
  exact absurd hlt (by decide)

end LmaOS
