import LmaOS.Files.Lookup
import LmaOS.Files.Open

/-
  Which operations `open` records for a descriptor.

  The type of the named entry should decide (`Dispatched`). `open` asks for the type and for the
  first characters of the name in turn (`openOps`): a name that begins with "rtc" gets the clock's
  operations and, unless its type is that of the clock, a name that begins with "." those of a
  directory. `TypeDecides` says that the name does not get in between.

  `open_dispatches_iff`: the right operations are recorded exactly when the type decides, also for
  the entry behind the table (`Pcb.opsAddrAt`). `opens_clock` is a regular file named "rtc0".
-/
namespace LmaOS

open Util

/-! ## What is recorded -/

/-- `pcb->file[fd].file_op`, where index 8 lies in `arg`. -/
def Pcb.opsAddrAt (p : Pcb) (fd : Nat) : Nat :=
  if fd < 8 then (p.file fd).fileOp.addr else p.arg.word 0

/-- `pcb->file[fd].inode`, where index 8 lies in `arg`. -/
def Pcb.inodeAt (p : Pcb) (fd : Nat) : Nat := if fd < 8 then (p.file fd).inode else p.arg.word 4

theorem addr_inj {ops ops' : FileOps} (h : ops.addr = ops'.addr) : ops = ops' := by
  cases ops <;> cases ops' <;> first | rfl | exact absurd h (by decide)

theorem setFile_opsAddrAt (p : Pcb) (fd : Nat) (f : Fd) :
    (p.setFile fd f).opsAddrAt fd = f.fileOp.addr := by
  unfold Pcb.opsAddrAt Pcb.setFile
  split
  · exact congrArg (fun f : Fd => f.fileOp.addr) (Function.update_self fd f p.file)
  · have hbytes : ∀ n, n < 4 → (fun i => if i < 4 then wordByte f.fileOp.addr i
        else if i < 8 then wordByte f.inode (i - 4)
        else if i < 12 then wordByte f.pos (i - 8)
        else if i < 16 then wordByte f.flags (i - 12)
        else p.arg i) (0 + n) = wordByte f.fileOp.addr n := by
      intro n hn
      dsimp only
      rw [Nat.zero_add, if_pos hn]
    refine (Buf.word_of_bytes hbytes).trans ?_
    cases f.fileOp <;> rfl

theorem setFile_inodeAt (p : Pcb) (fd : Nat) {f : Fd} (hinode : f.inode < 4294967296) :
    (p.setFile fd f).inodeAt fd = f.inode := by
  unfold Pcb.inodeAt Pcb.setFile
  split
  · exact congrArg Fd.inode (Function.update_self fd f p.file)
  · have hbytes : ∀ n, n < 4 → (fun i => if i < 4 then wordByte f.fileOp.addr i
        else if i < 8 then wordByte f.inode (i - 4)
        else if i < 12 then wordByte f.pos (i - 8)
        else if i < 16 then wordByte f.flags (i - 12)
        else p.arg i) (4 + n) = wordByte f.inode n := by
      intro n hn
      dsimp only
      rw [if_neg (by omega), if_pos (by omega), Nat.add_sub_cancel_left]
    rw [Buf.word_of_bytes hbytes, Nat.mod_eq_of_lt hinode]

/-- What the type of entry `i` asks for: the clock, the directory, or the regular file with its
    inode. -/
structure Dispatched (img : Image) (i : Nat) (p : Pcb) (fd : Nat) : Prop where
  clock : img.fileType i = 0 → p.opsAddrAt fd = FileOps.rtcOp.addr
  directory : img.fileType i = 1 → p.opsAddrAt fd = FileOps.dirOp.addr
  regular : img.fileType i = 2 →
    p.opsAddrAt fd = FileOps.fileOp.addr ∧ p.inodeAt fd = img.inodeNum i

/-! ## What decides -/

/-- The first characters of the name do not override the type. -/
def TypeDecides (img : Image) (i : Nat) (filename : CString) : Prop :=
  img.fileType i = 0 ∨
    ¬ bytes "rtc" <+: filename.chars ∧ (img.fileType i = 1 ∨ ¬ bytes "." <+: filename.chars)

/-- `strncmp` with a text of the source, over its length. -/
theorem prefix_iff (s : CString) (text : List UInt8) (h : 0 ∉ text) :
    strncmp s.buf (Buf.ofList text) text.length = 0 ↔ text <+: s.chars := by
  rw [strncmp_eq_zero_iff_text, CString.text_buf, Buf.text_ofList h, List.take_length,
    List.prefix_iff_eq_take, eq_comm]

section Dispatch

variable {img : Image} {filename : CString} {i : Nat}

/-- The table chosen is that of the type exactly if the type decides. -/
theorem openOps_iff (htype : img.fileType i ≤ 2) {ops : FileOps}
    (hops : openOps (img.fileType i) filename = some ops) :
    ((img.fileType i = 0 → ops = .rtcOp) ∧ (img.fileType i = 1 → ops = .dirOp) ∧
      (img.fileType i = 2 → ops = .fileOp)) ↔ TypeDecides img i filename := by
  have hclock := prefix_iff filename (bytes "rtc") (by decide)
  have hdot := prefix_iff filename (bytes ".") (by decide)
  rw [show (bytes "rtc").length = 3 by decide] at hclock
  rw [show (bytes ".").length = 1 by decide] at hdot
  unfold openOps at hops
  unfold TypeDecides
  rw [← hclock, ← hdot]
  split at hops
  · -- the clock: by the type, or by the name
    rename_i hrtc
    obtain rfl := Option.some.inj hops
    constructor
    · rintro ⟨_, hdir, hfile⟩
      by_cases hone : img.fileType i = 1
      · cases hdir hone
      · by_cases htwo : img.fileType i = 2
        · cases hfile htwo
        · exact Or.inl (by omega)
    · rintro (hzero | ⟨hother, _⟩)
      · simp [hzero]
      · simp [hrtc.resolve_right hother]
  · rename_i hrtc
    obtain ⟨hzero, hother⟩ := not_or.mp hrtc
    split at hops
    · -- a directory: by the type, or by the name
      rename_i hdirectory
      obtain rfl := Option.some.inj hops
      constructor
      · rintro ⟨_, _, hfile⟩
        by_cases htwo : img.fileType i = 2
        · cases hfile htwo
        · exact Or.inr ⟨hother, Or.inl (by omega)⟩
      · rintro (h | ⟨_, hone | hplain⟩)
        · exact absurd h hzero
        · simp [hone]
        · simp [hdirectory.resolve_right hplain]
    · rename_i hplain
      obtain ⟨hone, hplain⟩ := not_or.mp hplain
      have htwo : img.fileType i = 2 := by omega
      rw [if_pos htwo] at hops
      obtain rfl := Option.some.inj hops
      exact iff_of_true (by simp [htwo]) (Or.inr ⟨hother, Or.inr hplain⟩)

/-- A successful `open` records the table it chose, and the inode of a regular file. -/
theorem open_records {k : Kernel} {dentry : Dentry} {fd : Nat}
    (hopen : (openCall img k dentry filename).1 = fd) (hname : img.FirstNamed filename.key i) :
    ∃ ops, openOps (img.fileType i) filename = some ops ∧
      let p := (openCall img k dentry filename).2.pcbs (getPcbAddress k)
      p.opsAddrAt fd = ops.addr ∧ (ops = .fileOp → p.inodeAt fd = img.inodeNum i) := by
  have hentry : (readDentryByName img filename.buf dentry).2 =
      ⟨strncpy dentry.fileName (img.fileName i) filenameLen, img.fileType i, img.inodeNum i⟩ := by
    rw [readDentryByName_first hname]
    unfold readDentryByIndex
    rw [if_neg (Nat.not_le_of_lt hname.listed)]
  rcases openCall_cases img k dentry filename with ⟨ops, hops, hret, rtcA, hkernel⟩ | ⟨_, hfail⟩
  · have hkind := hops.kind
    rw [hentry] at hkind hkernel
    have hfd : fd = (k.pcbs (getPcbAddress k)).openFd := Int.ofNat.inj (hopen.symm.trans hret)
    have hpcb : (openCall img k dentry filename).2.pcbs (getPcbAddress k) =
        (k.pcbs (getPcbAddress k)).setFile fd
          (openedFd ops (if ops = FileOps.fileOp then img.inodeNum i else 0)) := by
      rw [hkernel, hfd]
      exact Function.update_self _ _ _
    refine ⟨ops, hkind, ?_⟩
    rw [hpcb]
    refine ⟨setFile_opsAddrAt _ fd _, fun hfile => ?_⟩
    rw [if_pos hfile]
    exact setFile_inodeAt _ fd (Buf.word_lt _ _)
  · rw [hfail] at hopen
    exact absurd hopen (by dsimp only; omega)

end Dispatch

/-- `open` records what the entry's type asks for exactly if the type decides. -/
theorem open_dispatches_iff {img : Image} (hwf : img.WellFormed) {k : Kernel} {dentry : Dentry}
    {filename : CString} {fd i : Nat} (hopen : (openCall img k dentry filename).1 = fd)
    (hname : img.FirstNamed filename.key i) :
    Dispatched img i ((openCall img k dentry filename).2.pcbs (getPcbAddress k)) fd ↔
      TypeDecides img i filename := by
  obtain ⟨ops, hops, haddr, hinode⟩ := open_records hopen hname
  rw [← openOps_iff (hwf.types i hname.listed) hops]
  constructor
  · intro h
    refine ⟨fun htype => ?_, fun htype => ?_, fun htype => ?_⟩
    · exact addr_inj (haddr.symm.trans (h.clock htype))
    · exact addr_inj (haddr.symm.trans (h.directory htype))
    · exact addr_inj (haddr.symm.trans (h.regular htype).1)
  · rintro ⟨hclock, hdir, hfile⟩
    refine ⟨fun htype => ?_, fun htype => ?_, fun htype => ⟨?_, hinode (hfile htype)⟩⟩
    · rw [haddr, hclock htype]
    · rw [haddr, hdir htype]
    · rw [haddr, hfile htype]

/-- The file "shell" is opened as a regular file. -/
theorem open_dispatches_iff_shell :
    Dispatched clockImage 0
        ((openCall clockImage clockShell ⟨fun _ => 0, 0, 0⟩ shellCommand).2.pcbs
          (getPcbAddress clockShell)) 2 ↔
      TypeDecides clockImage 0 shellCommand :=
  open_dispatches_iff clockImage_wellFormed (by decide) ⟨by decide, by decide, by decide⟩

/-- The regular file "rtc0" is opened as the clock. -/
theorem opens_clock : ¬ ∀ img : Image, img.WellFormed → ∀ (k : Kernel) (dentry : Dentry)
    (filename : CString) (fd i : Nat), (openCall img k dentry filename).1 = fd →
      img.FirstNamed filename.key i →
        Dispatched img i ((openCall img k dentry filename).2.pcbs (getPcbAddress k)) fd := by
  intro hclaim
  have h := (hclaim clockImage clockImage_wellFormed clockShell ⟨fun _ => 0, 0, 0⟩ clockName 2 1
    (by decide) ⟨by decide, by decide, by decide⟩).regular (by decide)
  revert h
  decide

end LmaOS
