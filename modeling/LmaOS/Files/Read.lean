import LmaOS.Session.Effects

/-
  What each kind of descriptor makes of `read`.

  * `readDir_eq`: the next entry's name, cut at 32 characters (`Image.nameLength`), in a cleared
    buffer.
  * `readData_content`: the next bytes of a regular file's content.
  * `read_fdAt`: a read changes no descriptor but its own.
-/
namespace LmaOS

open Util

/-! ## The running process's descriptors -/

/-- Descriptor `fd` of the running process. -/
def Kernel.fdAt (k : Kernel) (fd : Nat) : Fd := (k.pcbs (getPcbAddress k)).file fd

def Kernel.setFd (k : Kernel) (fd : Nat) (f : Fd) : Kernel :=
  k.setPcb (getPcbAddress k) { k.pcbs (getPcbAddress k) with
    file := Function.update (k.pcbs (getPcbAddress k)).file fd f }

theorem setFd_fdAt (k : Kernel) (fd : Nat) (f : Fd) (d : Nat) :
    (k.setFd fd f).fdAt d = if d = fd then f else k.fdAt d := by
  show ((Function.update k.pcbs (getPcbAddress k) _) (getPcbAddress k)).file d = _
  rw [Function.update_self]
  exact Function.update_apply _ _ _ _

/-! ## Directories -/

/-- The length of entry `i`'s name: its field need not hold a NUL. -/
def Image.nameLength (img : Image) (i : Nat) : Nat :=
  firstIdx (fun j => decide (img.fileName i j = 0)) filenameLen

/-- The name of entry `i`. -/
def Image.name (img : Image) (i : Nat) : List UInt8 := (img.fileName i).take (img.nameLength i)

theorem nameLength_le (img : Image) (i : Nat) : img.nameLength i ≤ filenameLen :=
  Buf.textLength_le

theorem fileName_ne_zero {img : Image} {i j : Nat} (hj : j < img.nameLength i) :
    img.fileName i j ≠ 0 := Buf.textLength_ne hj

theorem fileName_end {img : Image} {i : Nat} (h : img.nameLength i < filenameLen) :
    img.fileName i (img.nameLength i) = 0 := Buf.textLength_end h

/-- The entry `read_dir` finds in its local `dentry_t`. -/
def dirEntry (img : Image) (i : Nat) (dentry : Dentry) (tail : Buf) : Buf :=
  (readDentryByIndex img i dentry).2.memory tail

theorem dirEntry_name {img : Image} {i : Nat} (hi : i < img.dirCount) (dentry : Dentry)
    (tail : Buf) {j : Nat} (hj : j < filenameLen) : dirEntry img i dentry tail j =
      if ∀ k, k < j + 1 → img.fileName i k ≠ 0 then img.fileName i j else 0 := by
  unfold dirEntry readDentryByIndex Dentry.memory
  rw [if_pos hj, if_neg (Nat.not_le_of_lt hi)]
  show strncpy dentry.fileName (img.fileName i) filenameLen j = _
  rw [strncpy_apply, if_pos hj]

theorem dirEntry_byte {img : Image} {i : Nat} (hi : i < img.dirCount) (dentry : Dentry)
    (tail : Buf) {j : Nat} (hj : j < img.nameLength i) :
    dirEntry img i dentry tail j = img.fileName i j := by
  have hle := nameLength_le img i
  rw [dirEntry_name hi dentry tail (by omega), if_pos fun k hk => fileName_ne_zero (by omega)]

/-- `strlen` of the entry, cut at 32. -/
theorem strlen_dirEntry {img : Image} {i : Nat} (hi : i < img.dirCount) (dentry : Dentry)
    (tail : Buf) :
    (if strlen (dirEntry img i dentry tail) > 32 then 32 else strlen (dirEntry img i dentry tail)) =
      img.nameLength i := by
  have hname : ∀ j, j < img.nameLength i → dirEntry img i dentry tail j ≠ 0 := by
    intro j hj
    rw [dirEntry_byte hi dentry tail hj]
    exact fileName_ne_zero hj
  rcases Nat.lt_or_eq_of_le (nameLength_le img i) with hlt | heq
  · have hend : dirEntry img i dentry tail (img.nameLength i) = 0 := by
      rw [dirEntry_name hi dentry tail hlt, if_neg fun hall => ?_]
      exact hall _ (Nat.lt_succ_self _) (fileName_end hlt)
    have hlen := strlen_eq (Nat.lt_trans hlt (by decide)) hend hname
    simp only [filenameLen] at hlt
    rw [hlen, if_neg (by omega)]
  · have hge := strlen_ge (m := 32) (by decide) (fun j hj => hname j (by rw [heq]; exact hj))
    simp only [filenameLen] at heq
    split <;> omega

/-- A directory read. -/
theorem readDir_eq (img : Image) (k : Kernel) (dentry : Dentry) (tail : Buf) (fd : Nat) (buf : Buf)
    (nbytes : Nat) : readDir img k dentry tail fd buf nbytes =
      if (k.fdAt fd).pos < img.dirCount then
        ⟨img.nameLength (k.fdAt fd).pos,
          strncpy (clearBuf (filenameLen + 1) buf) (dirEntry img (k.fdAt fd).pos dentry tail)
            nbytes,
          k.setFd fd { k.fdAt fd with pos := ((k.fdAt fd).pos + 1) % 4294967296 }⟩
      else ⟨0, buf, k⟩ := by
  unfold readDir
  dsimp only
  have hfd : (k.pcbs (getPcbAddress k)).file fd = k.fdAt fd := rfl
  rw [hfd]
  by_cases hpos : (k.fdAt fd).pos < img.dirCount
  · have hfound : (readDentryByIndex img (k.fdAt fd).pos dentry).1 = 0 := by
      unfold readDentryByIndex
      rw [if_neg (Nat.not_le_of_lt hpos)]
    rw [if_pos hfound, if_pos hpos, ← strlen_dirEntry hpos dentry tail]
    rfl
  · have hend : (readDentryByIndex img (k.fdAt fd).pos dentry).1 = -1 := by
      unfold readDentryByIndex
      rw [if_pos (Nat.le_of_not_lt hpos)]
    rw [hend, if_neg (by decide), if_neg hpos]

/-! ## Regular files -/

theorem readFile_eq (img : Image) (k : Kernel) (fd : Nat) (buf : Buf) (nbytes : Nat) :
    readFile img k fd buf nbytes =
      let f := k.fdAt fd
      let r := readData img f.inode f.pos buf nbytes
      ⟨r.1, r.2, k.setFd fd { f with pos := (f.pos + r.1) % 4294967296 }⟩ := rfl

/-- The bytes `read_data` returns are the next ones of the content. -/
theorem readData_content {img : Image} {inode offset : Nat} (buf : Buf) (length : Nat)
    (hin : inode < img.inodeCount)
    (hlen : img.inodeLength inode ≤ datablockSize * absBlockSize) (hoff : offset < 4294967296) :
    (readData img inode offset buf length).2.take (readData img inode offset buf length).1 =
      ((img.content inode).drop offset).take length := by
  rw [readData_eq img inode offset buf length hin hlen hoff]
  have hsize : min length (img.inodeLength inode - offset) =
      (((img.content inode).drop offset).take length).length := by
    rw [List.length_take, List.length_drop, Image.content_length]
  refine List.ext_getElem ?_ (fun j hj _ => ?_)
  · rw [Buf.take_length, hsize]
  · rw [Buf.take_length] at hj
    simp only [Buf.take, Image.content, List.getElem_map, List.getElem_range, List.getElem_take,
      List.getElem_drop]
    rw [if_pos hj]

/-- A read of a regular file returns the next bytes of its content and moves behind them. -/
theorem readFile_next {img : Image} (k : Kernel) (fd : Nat)
    (hin : (k.fdAt fd).inode < img.inodeCount)
    (hlen : img.inodeLength (k.fdAt fd).inode ≤ datablockSize * absBlockSize)
    (hpos : (k.fdAt fd).pos ≤ img.inodeLength (k.fdAt fd).inode) (buf : Buf) (nbytes : Nat) :
    let count := min nbytes (img.inodeLength (k.fdAt fd).inode - (k.fdAt fd).pos)
    let r := readFile img k fd buf nbytes
    r.ret = count ∧
      r.buf.take count = ((img.content (k.fdAt fd).inode).drop (k.fdAt fd).pos).take nbytes ∧
      r.kernel.fdAt fd = { k.fdAt fd with pos := (k.fdAt fd).pos + count } := by
  have hoff : (k.fdAt fd).pos < 4294967296 := by
    simp only [datablockSize, absBlockSize] at hlen
    omega
  have hcount := congrArg Prod.fst (readData_eq img _ _ buf nbytes hin hlen hoff)
  have hbytes := readData_content buf nbytes hin hlen hoff
  dsimp only at hcount ⊢
  rw [readFile_eq]
  dsimp only
  rw [hcount] at hbytes ⊢
  refine ⟨rfl, hbytes, ?_⟩
  rw [setFd_fdAt, if_pos rfl, Nat.mod_eq_of_lt]
  simp only [datablockSize, absBlockSize] at hlen
  omega

/-! ## Dispatch -/

/-- `read` of an open descriptor. -/
theorem read_open (img : Image) (k : Kernel) (dentry : Dentry) (tail : Buf) {fd : Nat} (buf : Buf)
    (nbytes : Nat) (hfd : fd < 8) (hopen : (k.fdAt fd).flags ≠ 0) :
    read img k dentry tail fd (some buf) nbytes =
      (k.fdAt fd).fileOp.read img k dentry tail fd buf nbytes := by
  have hargs : ¬ ((fd : Int) < 0 ∨ (fd : Int) > 7 ∨ (nbytes : Int) < 0) := by omega
  unfold read
  dsimp only
  rw [if_neg hargs, Int.toNat_natCast, Int.toNat_natCast]
  exact if_neg hopen

/-- A read through a table changes no descriptor but its own. -/
theorem fileOpsRead_fdAt (ops : FileOps) (img : Image) (k : Kernel) (dentry : Dentry) (tail : Buf)
    (fd : Nat) (buf : Buf) (nbytes : Nat) {r : ReadResult}
    (h : ops.read img k dentry tail fd buf nbytes = some r) {d : Nat} (hd : d ≠ fd) :
    r.kernel.fdAt d = k.fdAt d := by
  cases ops with
  | fileOp =>
    cases h
    exact (setFd_fdAt k fd _ d).trans (if_neg hd)
  | dirOp =>
    obtain rfl := Option.some.inj h
    rw [readDir_eq]
    dsimp only
    split
    · exact (setFd_fdAt k fd _ d).trans (if_neg hd)
    · rfl
  | stdinOp =>
    by_cases hn : nbytes = 0
    · subst hn
      cases h
      rfl
    · by_cases hflag : k.keyboard.enterFlag = 1
      · have h : terminalRead k buf nbytes = some r := h
        rw [terminalRead_eq buf hn hflag] at h
        cases h
        rfl
      · have h : terminalRead k buf nbytes = some r := h
        rw [terminalRead_waits buf hn hflag] at h
        cases h
  | rtcOp => cases h; rfl
  | stdoutOp => cases h; rfl
  | doNothing => cases h; rfl

theorem read_fdAt (img : Image) (k : Kernel) (dentry : Dentry) (tail : Buf) (fd : Nat) (buf : Buf)
    (nbytes : Nat) {r : ReadResult} (h : read img k dentry tail fd (some buf) nbytes = some r)
    {d : Nat} (hd : d ≠ fd) : r.kernel.fdAt d = k.fdAt d := by
  unfold read at h
  dsimp only at h
  split at h
  · cases h
    rfl
  · split at h
    · cases h
      rfl
    · rw [Int.toNat_natCast, Int.toNat_natCast] at h
      exact fileOpsRead_fdAt _ img k dentry tail fd buf nbytes h hd

end LmaOS
