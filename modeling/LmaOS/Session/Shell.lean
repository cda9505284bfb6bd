import LmaOS.Session.Lifecycle

/-
  Images with a valid executable named "shell".

  `HasShell img i`: entry `i` is the first one named "shell" and its file starts with the
  executable's magic number. With such an image the kernel's own `execute("shell")` fails only for
  lack of a slot (`execute_shell`). `shellImage` is the smallest such image.
-/
namespace LmaOS

open Util

structure HasShell (img : Image) (index : Nat) : Prop where
  listed : index < img.dirCount
  named : strncmp (img.fileName index) (Buf.ofList shellName) filenameLen = 0
  first : ∀ j, j < index → strncmp (img.fileName j) (Buf.ofList shellName) filenameLen ≠ 0
  inode : img.inodeNum index < img.inodeCount
  fits : img.inodeLength (img.inodeNum index) ≤ datablockSize * absBlockSize
  long : 4 ≤ img.inodeLength (img.inodeNum index)
  magic : ∀ i, i < 4 → img.contentByte (img.inodeNum index) i = exeIdentifier i
  /-- `execute` reads the file into a buffer of `len_inodes` bytes. -/
  room : 4 ≤ img.lenInodes

theorem HasShell.lookup {img : Image} {index : Nat} (h : HasShell img index) (d : Dentry) :
    (readDentryByName img (Buf.ofList shellName) d).1 = 0 ∧
      (readDentryByName img (Buf.ofList shellName) d).2.inodeNum = img.inodeNum index := by
  unfold readDentryByName
  rw [readDentryLoop_first d h.named _ 0 (Nat.zero_le _) (by have := h.listed; omega)
    (fun j _ hj => h.first j hj), readDentryByIndex, if_neg (by have := h.listed; omega)]
  exact ⟨rfl, rfl⟩

/-- The first four bytes `execute` reads are the magic number. -/
theorem HasShell.executable {img : Image} {index : Nat} (h : HasShell img index) (buf : Buf) :
    strncmp (readData img (img.inodeNum index) 0 buf img.lenInodes).2 exeIdentifier 4 = 0 := by
  rw [readData_eq img _ 0 buf _ h.inode h.fits (by decide), strncmp_eq_zero_iff]
  intro j hj _
  have hlong := h.long
  have hroom := h.room
  dsimp only
  rw [if_pos (by omega), Nat.zero_add]
  exact h.magic j hj

theorem execute_shell {img : Image} {index : Nat} (h : HasShell img index) {k : Kernel}
    (l : Locals) (hfree : k.allActive = false) (hroom : k.term.numProc ≤ 3) :
    (execute img k l (some shellCommand)).2 ≠ none := by
  obtain ⟨hfound, hinode⟩ := h.lookup l.dentry
  have hchars : ¬ shellCommand.chars = [] := by decide
  have hactive : ({ k with shellFlag := 1 } : Kernel).allActive = false := hfree
  unfold execute
  dsimp only
  rw [if_neg hchars, hactive, if_neg (by decide), if_neg (Int.not_lt.mpr hroom),
    parse_shellCommand]
  dsimp only
  rw [hfound, if_neg (by decide), hinode, if_neg (fun hne => hne (h.executable l.fileData))]
  exact Option.some_ne_none _

/-! ## A smallest image -/

/-- One entry, "shell", whose file of four bytes is the magic number. -/
def shellImage : Image where
  mem := fun o => (List.lookup o [(0, 1), (4, 1), (8, 1),
    (64, 0x73), (65, 0x68), (66, 0x65), (67, 0x6c), (68, 0x6c), (96, 2),
    (4096, 4), (8192, 0x7f), (8193, 0x45), (8194, 0x4c), (8195, 0x46)]).getD 0

theorem shellImage_hasShell : HasShell shellImage 0 where
  listed := by decide
  named := by decide
  first := by omega
  inode := by decide
  fits := by decide
  long := by decide
  magic := by decide
  room := by decide

end LmaOS
