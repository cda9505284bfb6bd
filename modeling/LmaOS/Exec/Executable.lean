import LmaOS.Exec.Command
import LmaOS.Files.Lookup
import LmaOS.Session.System

/-
  When `execute` starts a process, and what it starts.

  `Starts` collects the checks of `execute` (`execute_starts_iff`). The last of them compares the
  first four bytes of `file_data` with the magic number. `read_data` fills that buffer from the
  inode of the entry, whatever the entry's type is, and only as far as the file goes: behind its
  end, and for an invalid inode, the comparison meets what the stack held (`headByte`).

  `execute_real_iff`: only executables are started, but for impostors, if the argument fits (a
  longer one runs over `fname` and the magic number). `starts_directory` is the directory itself,
  executed where an earlier `execute` left its program on the stack.
-/
namespace LmaOS

open Util

/-! ## The checks of execute -/

/-- The file `name` exists and is executable. -/
def Loadable (img : Image) (l : Locals) (name : List UInt8) : Prop :=
  let d := readDentryByName img (Buf.ofList name) l.dentry
  d.1 ≠ -1 ∧ strncmp (readData img d.2.inodeNum 0 l.fileData img.lenInodes).2 exeIdentifier 4 = 0

instance (img : Image) (l : Locals) (name : List UInt8) : Decidable (Loadable img l name) :=
  inferInstanceAs (Decidable (_ ∧ _))

/-- The checks of `execute`: a free slot, room on the terminal and an executable file. -/
def Startable (img : Image) (k : Kernel) (l : Locals) (command : Option CString) : Prop :=
  k.allActive = false ∧ k.term.numProc ≤ 3 ∧
    ∃ parsed ∈ command.bind parse, Loadable img l parsed.1

instance (img : Image) (k : Kernel) (l : Locals) (command : Option CString) :
    Decidable (Startable img k l command) := inferInstanceAs (Decidable (_ ∧ _ ∧ _))

theorem startable_of_started {img : Image} {k : Kernel} {l : Locals} {command : Option CString}
    (h : (execute img k l command).2 ≠ none) : Startable img k l command := by
  obtain ⟨pid, hpid⟩ := Option.ne_none_iff_exists'.mp h
  obtain ⟨cmd, name, arg, rfl, hparse, hfree, hroom, _, hfound, hmagic, _⟩ := execute_started hpid
  exact ⟨hfree, hroom, (name, arg), hparse, hfound, hmagic⟩

/-- `execute` gets past all its checks. -/
def Starts (img : Image) (k : Kernel) (l : Locals) (command : Option CString) : Prop :=
  (∃ cmd ∈ command, cmd.chars ≠ []) ∧ Startable img k l command

instance (img : Image) (k : Kernel) (l : Locals) (command : Option CString) :
    Decidable (Starts img k l command) := inferInstanceAs (Decidable (_ ∧ _))

theorem execute_starts_iff {img : Image} {k : Kernel} {l : Locals} {command : Option CString} :
    (execute img k l command).2 ≠ none ↔ Starts img k l command := by
  have hexit := execute_exit img k l command
  have hstartable : (execute img k l command).2 ≠ none → Startable img k l command :=
    startable_of_started
  generalize execute img k l command = r at hexit hstartable ⊢
  constructor
  · refine fun h => ⟨?_, hstartable h⟩
    cases hexit with
    | started hchars _ _ _ _ _ _ => exact ⟨_, rfl, hchars⟩
    | _ => exact absurd rfl h
  · rintro ⟨⟨cmd, hcmd, hchars⟩, hfree, hroom, parsed, hparsed, hload⟩ hnone
    cases hexit with
    | noCommand h => exact hchars (h cmd hcmd)
    | noSlot h =>
      rcases h with hactive | hfull
      · exact Bool.false_ne_true (hfree.symm.trans hactive)
      · exact absurd hroom (Int.not_le.mpr hfull)
    | nameTooLong _ _ hparse =>
      exact Option.some_ne_none parsed ((show _ = some parsed from hparsed).symm.trans hparse)
    | notFound _ hparse hfound =>
      obtain rfl := Option.some.inj ((show _ = some parsed from hparsed).symm.trans hparse)
      exact hload.1 hfound
    | notExecutable _ hparse hmagic =>
      obtain rfl := Option.some.inj ((show _ = some parsed from hparsed).symm.trans hparse)
      exact hmagic hload.2
    | started _ _ _ _ _ _ _ => exact absurd hnone (Option.some_ne_none _)

/-! ## The bytes compared -/

/-- Byte `j` of `file_data` when it is compared: of the file as far as it goes, else what the
    buffer held before. -/
def headByte (img : Image) (i : Nat) (fileData : Buf) (j : Nat) : UInt8 :=
  if img.inodeNum i < img.inodeCount ∧ j < img.inodeLength (img.inodeNum i) then
    img.contentByte (img.inodeNum i) j
  else fileData j

/-- The magic number has no NUL, so all four bytes are compared. -/
theorem strncmp_magic_iff (b : Buf) :
    strncmp b exeIdentifier 4 = 0 ↔ ∀ j, j < 4 → b j = exeIdentifier j := by
  have hmagic : ∀ j, j < 4 → exeIdentifier j ≠ 0 := by decide
  rw [strncmp_eq_zero_iff_text, eq_comm, Buf.text_eq_iff]
  refine forall_congr' fun j => forall_congr' fun hj => ?_
  rw [eq_comm (a := b j)]
  exact ⟨fun h => h fun m hm => hmagic m (Nat.lt_trans hm hj), fun h _ => h⟩

/-- What `read_data` leaves in the first four bytes of `file_data`. -/
theorem readData_head {img : Image} (hwf : img.WellFormed) (i : Nat) (fileData : Buf) {j : Nat}
    (hj : j < 4) : (readData img (img.inodeNum i) 0 fileData img.lenInodes).2 j =
      headByte img i fileData j := by
  unfold headByte
  by_cases hin : img.inodeNum i < img.inodeCount
  · have hroom : 4 ≤ img.lenInodes := by
      have hfits := hwf.fits
      unfold Image.lenInodes
      simp only [absBlockSize] at hfits ⊢
      rw [Nat.mod_eq_of_lt (by omega)]
      omega
    rw [readData_eq img _ 0 fileData _ hin (hwf.lengths _ hin) (by decide)]
    refine if_congr ?_ (by rw [Nat.zero_add]) rfl
    rw [and_iff_right hin, Nat.sub_zero]
    omega
  · rw [if_neg fun h => hin h.1]
    unfold readData
    rw [if_pos (Nat.le_of_not_lt hin)]

/-- A file name can be loaded exactly if the bytes compared are the magic number. -/
theorem loadable_iff {img : Image} (hwf : img.WellFormed) (l : Locals) {name : List UInt8}
    (hnul : 0 ∉ name) (hlen : name.length ≤ filenameLen) : Loadable img l name ↔
      ∃ i, img.FirstNamed name i ∧ ∀ j, j < 4 → headByte img i l.fileData j = exeIdentifier j := by
  have hkey : CString.key ⟨name, hnul⟩ = name := List.take_of_length_le hlen
  have hfound := readDentryByName_found_iff img ⟨name, hnul⟩ l.dentry
  have hhead : ∀ i, img.FirstNamed name i →
      (strncmp (readData img (readDentryByName img (Buf.ofList name) l.dentry).2.inodeNum 0
        l.fileData img.lenInodes).2 exeIdentifier 4 = 0 ↔
          ∀ j, j < 4 → headByte img i l.fileData j = exeIdentifier j) := by
    intro i hi
    have hentry := readDentryByName_first (s := ⟨name, hnul⟩) (hkey.symm ▸ hi) l.dentry
    have hinode :
        (readDentryByName img (Buf.ofList name) l.dentry).2.inodeNum = img.inodeNum i := by
      refine (congrArg (fun r => r.2.inodeNum) hentry).trans ?_
      unfold readDentryByIndex
      rw [if_neg (Nat.not_le_of_lt hi.listed)]
    rw [hinode, strncmp_magic_iff]
    exact forall_congr' fun j => forall_congr' fun hj => by rw [readData_head hwf i _ hj]
  rw [hkey] at hfound
  constructor
  · rintro ⟨hname, hmagic⟩
    obtain ⟨i, hi⟩ := hfound.mp hname
    exact ⟨i, hi, (hhead i hi).mp hmagic⟩
  · rintro ⟨i, hi, hbytes⟩
    exact ⟨hfound.mpr ⟨i, hi⟩, (hhead i hi).mpr hbytes⟩

/-! ## Only executables -/

/-- Entry `i` is a regular file that starts with the magic number. -/
structure IsExecutable (img : Image) (i : Nat) : Prop where
  regular : img.fileType i = 2
  long : 4 ≤ img.inodeLength (img.inodeNum i)
  magic : ∀ j, j < 4 → img.contentByte (img.inodeNum i) j = exeIdentifier j

/-- The command's file name is that of an executable. -/
def NamesExecutable (img : Image) (command : Option CString) : Prop :=
  ∃ parsed ∈ command.bind parse, ∃ i, img.FirstNamed parsed.1 i ∧ IsExecutable img i

/-- The call gets to the comparison, with an entry that is not a regular file of four bytes or
    more, and the bytes compared are the magic number all the same. -/
structure Impostor (img : Image) (k : Kernel) (l : Locals) (command : Option CString) : Prop where
  given : ∃ cmd ∈ command, cmd.chars ≠ []
  free : k.allActive = false
  room : k.term.numProc ≤ 3
  entry : ∃ parsed ∈ command.bind parse, ∃ i, img.FirstNamed parsed.1 i ∧
    ¬ (img.fileType i = 2 ∧ 4 ≤ img.inodeLength (img.inodeNum i)) ∧
      ∀ j, j < 4 → headByte img i l.fileData j = exeIdentifier j

/-- The bytes compared of a regular file of four bytes or more are the file's. -/
theorem headByte_regular {img : Image} (hwf : img.WellFormed) {i : Nat} (hi : i < img.dirCount)
    (hregular : img.fileType i = 2) (hlong : 4 ≤ img.inodeLength (img.inodeNum i)) (fileData : Buf)
    {j : Nat} (hj : j < 4) :
    headByte img i fileData j = img.contentByte (img.inodeNum i) j :=
  if_pos ⟨hwf.inodes i hi hregular, Nat.lt_of_lt_of_le hj hlong⟩

/-- `execute` starts executables only, and returns -1 for everything else, exactly if the command
    does not name an impostor. -/
theorem execute_real_iff {img : Image} (hwf : img.WellFormed) (k : Kernel) {l : Locals}
    {command : Option CString} (_ : ArgFits (.execute l command)) :
    ((execute img k l command).2 ≠ none → NamesExecutable img command) ↔
      ¬ Impostor img k l command := by
  rw [execute_starts_iff]
  have hload : ∀ parsed ∈ command.bind parse, (Loadable img l parsed.1 ↔ ∃ i,
      img.FirstNamed parsed.1 i ∧ ∀ j, j < 4 → headByte img i l.fileData j = exeIdentifier j) := by
    intro parsed hparsed
    obtain ⟨cmd, _, hparse⟩ := Option.bind_eq_some_iff.mp hparsed
    obtain ⟨hnul, hlen, _⟩ := parse_parts (show parse cmd = some (parsed.1, parsed.2) from hparse)
    exact loadable_iff hwf l hnul hlen
  constructor
  · rintro h ⟨hgiven, hfree, hroom, parsed, hparsed, i, hi, hnot, hbytes⟩
    have hstarts : Starts img k l command :=
      ⟨hgiven, hfree, hroom, parsed, hparsed, (hload parsed hparsed).mpr ⟨i, hi, hbytes⟩⟩
    obtain ⟨parsed', hparsed', i', hi', hexec⟩ := h hstarts
    obtain rfl := Option.some.inj (hparsed.symm.trans hparsed')
    obtain rfl := hi.unique hi'
    exact hnot ⟨hexec.regular, hexec.long⟩
  · rintro hnone ⟨hgiven, hfree, hroom, parsed, hparsed, hloadable⟩
    obtain ⟨i, hi, hbytes⟩ := (hload parsed hparsed).mp hloadable
    have hfile : img.fileType i = 2 ∧ 4 ≤ img.inodeLength (img.inodeNum i) := by
      by_contra hnot
      exact hnone ⟨hgiven, hfree, hroom, parsed, hparsed, i, hi, hnot, hbytes⟩
    refine ⟨parsed, hparsed, i, hi, hfile.1, hfile.2, fun j hj => ?_⟩
    rw [← headByte_regular hwf hi.listed hfile.1 hfile.2 l.fileData hj]
    exact hbytes j hj

/-- The directory ".", with an empty inode, and an executable "shell". -/
def dotImage : Image where
  mem := fun o => (List.lookup o [(0, 2), (4, 2), (8, 1),
    (64, 0x2e), (96, 1), (100, 1),
    (128, 0x73), (129, 0x68), (130, 0x65), (131, 0x6c), (132, 0x6c), (160, 2),
    (4096, 4), (12288, 0x7f), (12289, 0x45), (12290, 0x4c), (12291, 0x46)]).getD 0

theorem dotImage_wellFormed : dotImage.WellFormed where
  fits := by decide
  dirs := by decide
  types := by decide
  inodes := by decide
  lengths := by decide
  blocks := by
    have hcount : dotImage.inodeCount = 2 := by decide
    have hlen : dotImage.inodeLength 0 = 4 ∧ dotImage.inodeLength 1 = 0 := by decide
    intro n j hn hj
    rw [hcount] at hn
    simp only [absBlockSize] at hj
    obtain rfl | rfl : n = 0 ∨ n = 1 := by omega
    · rw [hlen.1] at hj
      obtain rfl : j = 0 := by omega
      decide
    · rw [hlen.2] at hj
      exact absurd hj (Nat.not_lt_zero _)

/-- The base shell after boot. -/
def dotShell : Kernel := (entry dotImage Kernel.loaded ⟨0, 0⟩ (Locals.zero ⟨0, 0⟩)).1

/-- Its command. -/
def dotCommand : CString := ⟨[0x2e], by decide⟩

theorem execute_real_iff_shell :
    ((execute dotImage dotShell (Locals.zero ⟨0, 0⟩) (some shellCommand)).2 ≠ none →
        NamesExecutable dotImage (some shellCommand)) ↔
      ¬ Impostor dotImage dotShell (Locals.zero ⟨0, 0⟩) (some shellCommand) :=
  execute_real_iff dotImage_wellFormed dotShell (by decide)

/-- The shell executes ".", and the magic number is still on the stack. -/
theorem starts_directory : ¬ ∀ img : Image, img.WellFormed →
    ∀ (k : Kernel) (l : Locals) (command : Option CString),
      (execute img k l command).2 ≠ none → NamesExecutable img command := by
  intro hclaim
  have hstart : (execute dotImage dotShell ⟨⟨0, 0⟩, exeIdentifier, ⟨fun _ => 0, 0, 0⟩⟩
      (some dotCommand)).2 ≠ none := by decide
  obtain ⟨parsed, hparsed, i, hi, hexec⟩ := hclaim dotImage dotImage_wellFormed dotShell
    ⟨⟨0, 0⟩, exeIdentifier, ⟨fun _ => 0, 0, 0⟩⟩ (some dotCommand) hstart
  obtain rfl : parsed = ([0x2e], []) := Option.some.inj (hparsed.symm.trans (by decide))
  have hfirst : dotImage.FirstNamed [0x2e] 0 := ⟨by decide, by decide, fun j hj => by omega⟩
  obtain rfl := hi.unique hfirst
  have htype : dotImage.fileType 0 ≠ 2 := by decide
  exact htype hexec.regular

end LmaOS
