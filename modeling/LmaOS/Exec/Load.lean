import LmaOS.Files.Open

/-
  Loading a program.

  `execute` reads the file into a buffer of `len_inodes` bytes, keeps the count of bytes read in
  16 bits, and copies that many to 0x08048000 of the new process's page (`execute_page`).

  `program_loaded_iff`: if the frame of `execute` holds (`FrameFits`: a buffer that the file fills
  up to the PCBs is overwritten before it is copied), the page then holds the file exactly when it
  is shorter than 64 KB, or what is missing stands in the page already. `program_cut` is a file of
  64 KB, of which nothing is copied.
-/
namespace LmaOS

open Util

/-- `PROGRAM_IMG_ADDR`, as an offset in the program page. -/
abbrev programOffset : Nat := 0x48000

/-- A regular file that starts with the magic number and fits the page above 0x08048000. -/
structure Program (img : Image) (d : Dentry) : Prop where
  regular : d.fileType = 2
  long : 4 ≤ img.inodeLength d.inodeNum
  magic : ∀ i, i < 4 → img.contentByte d.inodeNum i = exeIdentifier i
  fits : img.inodeLength d.inodeNum ≤ 0x400000 - programOffset

/-- The page of `pid` holds the file from 0x08048000 on. -/
def ProgramLoaded (img : Image) (inode : Nat) (k : Kernel) (pid : Int) : Prop :=
  ∀ j, j < img.inodeLength inode →
    k.programPage pid (programOffset + j) = img.contentByte inode j

/-- The bytes `execute` copies: as many as the buffer holds, counted in 16 bits. -/
def copiedBytes (img : Image) (inode : Nat) : Nat :=
  min (img.inodeCount * absBlockSize) (img.inodeLength inode) % 65536

/-- The file is counted whole, or the rest of it is in the page already. -/
def CopiesWhole (img : Image) (inode : Nat) (k : Kernel) (pid : Int) : Prop :=
  img.inodeLength inode < 65536 ∨
    ∀ j, img.inodeLength inode % 65536 ≤ j → j < img.inodeLength inode →
      k.programPage pid (programOffset + j) = img.contentByte inode j

theorem lenInodes_eq {img : Image} (hwf : img.WellFormed) :
    img.lenInodes = img.inodeCount * absBlockSize := by
  have hfits := hwf.fits
  unfold Image.lenInodes
  simp only [absBlockSize] at hfits ⊢
  exact Nat.mod_eq_of_lt (by omega)

/-- `memcpy` to 0x08048000 of the new process's page. -/
theorem startProcess_page (k : Kernel) (regs : Regs) (pid : Int) (name arg : List UInt8)
    (fileData : Buf) (nbytes j : Nat) :
    (startProcess k regs pid name arg fileData nbytes).programPage pid (programOffset + j) =
      if j < nbytes then fileData j else k.programPage pid (programOffset + j) := by
  show (Function.update k.programPage pid fun i =>
    if programOffset ≤ i ∧ i < programOffset + nbytes then fileData (i - programOffset)
    else k.programPage pid i) pid (programOffset + j) = _
  rw [Function.update_self, Nat.add_sub_cancel_left]
  refine if_congr ?_ rfl rfl
  rw [Nat.add_lt_add_iff_left, and_iff_right (Nat.le_add_right programOffset j)]

/-- A regular file that was found names an inode. -/
theorem found_inode {img : Image} (hwf : img.WellFormed) {fname : Buf} {d : Dentry}
    (hfound : (readDentryByName img fname d).1 ≠ -1)
    (hregular : (readDentryByName img fname d).2.fileType = 2) :
    (readDentryByName img fname d).2.inodeNum < img.inodeCount := by
  rcases readDentryByName_cases img fname d with he | ⟨i, hi, _, he⟩
  · exact absurd (congrArg Prod.fst he) hfound
  · rw [he] at hregular ⊢
    exact hwf.inodes i hi hregular

/-- The page of a new process: the bytes read from the file, the rest as it was. -/
theorem execute_page {img : Image} (hwf : img.WellFormed) {k : Kernel} {l : Locals}
    {command : CString} {name arg : List UInt8} {pid : Int}
    (hparse : parse command = some (name, arg))
    (hregular : (readDentryByName img (Buf.ofList name) l.dentry).2.fileType = 2)
    (hstart : (execute img k l (some command)).2 = some pid) (j : Nat) :
    (execute img k l (some command)).1.programPage pid (programOffset + j) =
      if j < copiedBytes img (readDentryByName img (Buf.ofList name) l.dentry).2.inodeNum then
        img.contentByte (readDentryByName img (Buf.ofList name) l.dentry).2.inodeNum j
      else k.programPage pid (programOffset + j) := by
  obtain ⟨cmd, name', arg', hcmd, hparse', _, _, rfl, hfound, _, hk⟩ := execute_started hstart
  obtain rfl := Option.some.inj hcmd
  obtain ⟨rfl, rfl⟩ := Prod.mk.inj (Option.some.inj (hparse'.symm.trans hparse))
  rw [hk]
  have hin := found_inode hwf hfound hregular
  generalize (readDentryByName img (Buf.ofList name') l.dentry).2.inodeNum = inode at hin ⊢
  rw [startProcess_page, readData_eq img inode 0 l.fileData img.lenInodes hin
    (hwf.lengths inode hin) (by decide), lenInodes_eq hwf, Nat.sub_zero]
  unfold copiedBytes
  dsimp only
  split
  · rename_i hj
    rw [if_pos (Nat.lt_of_lt_of_le hj (Nat.mod_le _ _)), Nat.zero_add]
  · rfl

/-- A program behind which `file_data` has room is read whole: all its bytes are copied, but for
    the narrow count. -/
theorem copiedBytes_eq {img : Image} {inode : Nat} (hclear : FileDataClear img inode)
    (hin : inode < img.inodeCount) : copiedBytes img inode = img.inodeLength inode % 65536 := by
  unfold copiedBytes
  rcases hclear hin with hempty | hroom
  · rw [hempty, Nat.min_zero]
  · rw [Nat.min_eq_right (Nat.le_of_add_right_le hroom)]

/-- If the frame holds, the whole program is loaded exactly if it is copied whole. -/
theorem program_loaded_iff (boot : Nat) {img : Image} (hwf : img.WellFormed) {k : Kernel}
    {l : Locals} {command : CString} {name arg : List UInt8} {pid : Int}
    (hparse : parse command = some (name, arg)) (hframe : FrameFits boot img l (some command))
    (hprogram : Program img (readDentryByName img (Buf.ofList name) l.dentry).2)
    (hstart : (execute img k l (some command)).2 = some pid) :
    ProgramLoaded img (readDentryByName img (Buf.ofList name) l.dentry).2.inodeNum
        (execute img k l (some command)).1 pid ↔
      CopiesWhole img (readDentryByName img (Buf.ofList name) l.dentry).2.inodeNum k pid := by
  have hpage := execute_page hwf hparse hprogram.regular hstart
  have hfound : (readDentryByName img (Buf.ofList name) l.dentry).1 ≠ -1 := by
    obtain ⟨cmd, _, _, hcmd, hparse', _, _, _, hfound, _⟩ := execute_started hstart
    obtain rfl := Option.some.inj hcmd
    obtain ⟨rfl, rfl⟩ := Prod.mk.inj (Option.some.inj (hparse'.symm.trans hparse))
    exact hfound
  rw [copiedBytes_eq (hframe.fileData (name, arg) hparse hfound)
    (found_inode hwf hfound hprogram.regular)] at hpage
  generalize (readDentryByName img (Buf.ofList name) l.dentry).2.inodeNum = inode at hpage ⊢
  unfold ProgramLoaded CopiesWhole
  constructor
  · intro hloaded
    refine Or.inr fun j hcopied hj => ?_
    have hbyte := hloaded j hj
    rw [hpage, if_neg (Nat.not_lt_of_le hcopied)] at hbyte
    exact hbyte
  · intro hwhole j hj
    rw [hpage]
    split
    · rfl
    · rename_i hmissing
      rcases hwhole with hshort | hrest
      · rw [Nat.mod_eq_of_lt hshort] at hmissing
        exact absurd hj hmissing
      · exact hrest j (Nat.le_of_not_lt hmissing) hj

/-- A "shell" of 64 KB: sixteen times the one data block. The 29 inodes leave room for it. -/
def largeShell : Image where
  mem := fun o => (List.lookup o [(0, 1), (4, 29), (8, 1),
    (64, 0x73), (65, 0x68), (66, 0x65), (67, 0x6c), (68, 0x6c), (96, 2),
    (4098, 1), (122880, 0x7f), (122881, 0x45), (122882, 0x4c), (122883, 0x46)]).getD 0

theorem largeShell_wellFormed : largeShell.WellFormed where
  fits := by decide
  dirs := by decide
  types := by decide
  inodes := by decide
  lengths := by decide
  blocks := by
    have hcount : largeShell.inodeCount = 29 := by decide
    have hlen : largeShell.inodeLength 0 = 65536 := by decide
    have hempty : ∀ n, n < 29 → n ≠ 0 → largeShell.inodeLength n = 0 := by decide
    have hblock : ∀ j, j < 16 → largeShell.dataBlock 0 j < largeShell.dataCount := by decide
    intro n j hn hj
    rw [hcount] at hn
    by_cases hzero : n = 0
    · subst hzero
      rw [hlen] at hj
      simp only [absBlockSize] at hj
      exact hblock j (by omega)
    · rw [hempty n hn hzero] at hj
      exact absurd hj (Nat.not_lt_zero _)

theorem largeShell_hasShell : HasShell largeShell 0 where
  listed := by decide
  named := by decide
  first := by omega
  inode := by decide
  fits := by decide
  long := by decide
  magic := by decide
  room := by decide

theorem largeShell_program : Program largeShell
    (readDentryByName largeShell (Buf.ofList shellName) (Locals.zero ⟨0, 0⟩).dentry).2 :=
  ⟨by decide, by decide, by decide, by decide⟩

theorem largeShell_frame : FrameFits 0x411000 largeShell (Locals.zero ⟨0, 0⟩) (some shellCommand) :=
  ⟨by decide, by decide, by decide⟩

theorem largeShell_started :
    (execute largeShell Kernel.loaded (Locals.zero ⟨0, 0⟩) (some shellCommand)).2 = some 0 := by
  obtain ⟨pid, hstart⟩ := Option.ne_none_iff_exists'.mp (execute_shell largeShell_hasShell
    (k := Kernel.loaded) (Locals.zero ⟨0, 0⟩) (by decide) (by decide))
  obtain ⟨_, _, _, _, _, _, _, hpid, _⟩ := execute_started hstart
  rw [hstart, hpid]
  decide

theorem program_loaded_iff_shell :
    ProgramLoaded largeShell
        (readDentryByName largeShell (Buf.ofList shellName) (Locals.zero ⟨0, 0⟩).dentry).2.inodeNum
        (execute largeShell Kernel.loaded (Locals.zero ⟨0, 0⟩) (some shellCommand)).1 0 ↔
      CopiesWhole largeShell
        (readDentryByName largeShell (Buf.ofList shellName) (Locals.zero ⟨0, 0⟩).dentry).2.inodeNum
        Kernel.loaded 0 :=
  program_loaded_iff 0x411000 largeShell_wellFormed parse_shellCommand largeShell_frame
    largeShell_program largeShell_started

/-- The count of its bytes is 0 in 16 bits: the shell's page stays empty. -/
theorem program_cut : ¬ ∀ (boot : Nat) (img : Image), img.WellFormed →
    ∀ (k : Kernel) (l : Locals) (command : CString) (name arg : List UInt8) (pid : Int),
      parse command = some (name, arg) → FrameFits boot img l (some command) →
        Program img (readDentryByName img (Buf.ofList name) l.dentry).2 →
          (execute img k l (some command)).2 = some pid →
            ProgramLoaded img (readDentryByName img (Buf.ofList name) l.dentry).2.inodeNum
              (execute img k l (some command)).1 pid := by
  intro hclaim
  have hbyte := hclaim 0x411000 largeShell largeShell_wellFormed Kernel.loaded
    (Locals.zero ⟨0, 0⟩) shellCommand shellName [] 0 parse_shellCommand largeShell_frame
    largeShell_program largeShell_started 0 (by decide)
  rw [execute_page largeShell_wellFormed parse_shellCommand largeShell_program.regular
    largeShell_started, if_neg (by decide)] at hbyte
  revert hbyte
  show ¬ (0 : UInt8) = _
  decide

end LmaOS
