import LmaOS.Files.Read
import LmaOS.Session.Shell

/-
  Which descriptor `open` hands out.

  `openCall_cases` is the call in closed form: either every test passes (`OpensAs`) and the entry
  the search stopped at is filled in, or the result is -1 and no PCB changes. `Allocates` is what
  the call is for: the least free descriptor of 2..7 and nothing else, or -1. The search loop
  stops at 8 when all six are in use, and the tests behind it go on with `file[8]`, whose flags
  are the bytes 12 to 15 of `arg`.

  `open_allocates_iff`: the call stays inside the table exactly when a descriptor is free or the
  name is not found, and its result is right exactly when it does not get through the tests on
  `file[8]`. `open_overruns` is a seventh file.
-/
namespace LmaOS

open Util

/-! ## The tests of `open` -/

/-- The name passes the length test and the lookup. -/
def Named (img : Image) (dentry : Dentry) (filename : CString) : Prop :=
  (filename.chars.length ≤ 32 ∧ filename.chars.length ≠ 0) ∧
    (readDentryByName img filename.buf dentry).1 ≠ -1

instance (img : Image) (dentry : Dentry) (filename : CString) :
    Decidable (Named img dentry filename) :=
  inferInstanceAs (Decidable (_ ∧ _))

/-- The table `open` chooses. The first characters of the name count as much as the type. -/
def openOps (fileType : Nat) (filename : CString) : Option FileOps :=
  if fileType = 0 ∨ strncmp filename.buf (Buf.ofList (bytes "rtc")) 3 = 0 then some .rtcOp
  else if fileType = 1 ∨ strncmp filename.buf (Buf.ofList (bytes ".")) 1 = 0 then some .dirOp
  else if fileType = 2 then some .fileOp
  else none

/-- `open` succeeds with the table `ops`: `rtc_open` never fails, the other two look for a closed
    descriptor among all eight. -/
structure OpensAs (img : Image) (k : Kernel) (dentry : Dentry) (filename : CString)
    (ops : FileOps) : Prop where
  named : Named img dentry filename
  free : (k.pcbs (getPcbAddress k)).flagsAt (k.pcbs (getPcbAddress k)).openFd ≠ 1
  kind : openOps (readDentryByName img filename.buf dentry).2.fileType filename = some ops
  found : ops = .rtcOp ∨ freeFd (k.pcbs (getPcbAddress k)) ≠ -1

/-- The kernel after a successful `open`. -/
def opened (k : Kernel) (rtcA : Nat) (ops : FileOps) (inode : Nat) : Kernel :=
  { k with rtcA := rtcA }.setPcb (getPcbAddress k)
    ((k.pcbs (getPcbAddress k)).setFile (k.pcbs (getPcbAddress k)).openFd
      (openedFd ops (if ops = FileOps.fileOp then inode else 0)))

theorem openEntry_named {img : Image} {dentry : Dentry} {filename : CString}
    (h : Named img dentry filename) (k : Kernel) :
    openEntry img k dentry filename = freeFd (k.pcbs (getPcbAddress k)) := if_neg h.2

theorem openCall_unnamed {img : Image} {dentry : Dentry} {filename : CString}
    (h : ¬ Named img dentry filename) (k : Kernel) :
    openCall img k dentry filename = (-1, k) := by
  unfold openCall
  dsimp only
  by_cases hlength : filename.chars.length > 32 ∨ filename.chars.length = 0
  · rw [if_pos hlength]
  · have hlookup : (readDentryByName img filename.buf dentry).1 = -1 := by
      by_contra hfound
      exact h ⟨by omega, hfound⟩
    rw [if_neg hlength, if_pos hlookup]

/-- Behind the lookup: one test of the entry, then the three kinds. -/
theorem openCall_named {img : Image} {dentry : Dentry} {filename : CString}
    (h : Named img dentry filename) (k : Kernel) : ∃ rtcA, openCall img k dentry filename =
      if (k.pcbs (getPcbAddress k)).flagsAt (k.pcbs (getPcbAddress k)).openFd ≠ 1 then
        match openOps (readDentryByName img filename.buf dentry).2.fileType filename with
        | none => ((-1 : Int), k)
        | some ops =>
          if ops = .rtcOp ∨ freeFd (k.pcbs (getPcbAddress k)) ≠ -1 then
            (((k.pcbs (getPcbAddress k)).openFd : Int),
              opened k rtcA ops (readDentryByName img filename.buf dentry).2.inodeNum)
          else ((-1 : Int), k)
      else ((-1 : Int), k) := by
  obtain ⟨rtcA, hrtc⟩ := setFrequency_snd k 2
  have hclock : (rtcOpen k).2 = { k with rtcA := rtcA } := hrtc
  have hnever : (rtcOpen k).1 ≠ -1 := show (0 : Int) ≠ -1 by decide
  have hlength : ¬ (filename.chars.length > 32 ∨ filename.chars.length = 0) := by
    have hsmall := h.1
    omega
  unfold openCall openDir openFile
  dsimp only
  rw [if_neg hlength, if_neg h.2, openEntry_named h, if_pos hnever, hclock]
  generalize (readDentryByName img filename.buf dentry).2 = d
  unfold openOps
  split
  · split
    · exact ⟨rtcA, (if_pos (Or.inl rfl)).symm⟩
    · refine ⟨k.rtcA, ?_⟩
      split
      · exact (if_congr (by simp) rfl rfl)
      · split
        · exact (if_congr (by simp) rfl rfl)
        · rfl
  · exact ⟨rtcA, rfl⟩

/-- `open` succeeds as one kind of file, or fails and changes no PCB. -/
theorem openCall_cases (img : Image) (k : Kernel) (dentry : Dentry) (filename : CString) :
    (∃ ops, OpensAs img k dentry filename ops ∧
      (openCall img k dentry filename).1 = (k.pcbs (getPcbAddress k)).openFd ∧
      ∃ rtcA, (openCall img k dentry filename).2 =
        opened k rtcA ops (readDentryByName img filename.buf dentry).2.inodeNum) ∨
    ((∀ ops, ¬ OpensAs img k dentry filename ops) ∧
      openCall img k dentry filename = (-1, k)) := by
  by_cases hnamed : Named img dentry filename
  swap
  · exact Or.inr ⟨fun ops h => hnamed h.named, openCall_unnamed hnamed k⟩
  obtain ⟨rtcA, heq⟩ := openCall_named hnamed k
  by_cases hfree : (k.pcbs (getPcbAddress k)).flagsAt (k.pcbs (getPcbAddress k)).openFd ≠ 1
  swap
  · exact Or.inr ⟨fun ops h => hfree h.free, heq.trans (if_neg hfree)⟩
  rw [heq, if_pos hfree]
  cases hkind : openOps (readDentryByName img filename.buf dentry).2.fileType filename with
  | none => exact Or.inr ⟨fun ops h => (Option.some_ne_none ops) (h.kind.symm.trans hkind), rfl⟩
  | some ops =>
    dsimp only
    by_cases hfound : ops = .rtcOp ∨ freeFd (k.pcbs (getPcbAddress k)) ≠ -1
    · rw [if_pos hfound]
      exact Or.inl ⟨ops, ⟨hnamed, hfree, hkind, hfound⟩, rfl, rtcA, rfl⟩
    · rw [if_neg hfound]
      refine Or.inr ⟨fun ops' h => ?_, rfl⟩
      obtain rfl := Option.some.inj (h.kind.symm.trans hkind)
      exact hfound h.found

/-! ## The search -/

theorem openFd_lt_iff (k : Kernel) : (k.pcbs (getPcbAddress k)).openFd < 8 ↔
    ∃ d, 2 ≤ d ∧ d < 8 ∧ (k.fdAt d).flags ≠ 1 := by
  unfold Pcb.openFd Kernel.fdAt
  generalize k.pcbs (getPcbAddress k) = p
  constructor
  · intro h
    have hfree := firstIdx_spec (p := fun i => decide ((p.file (2 + i)).flags ≠ 1)) (n := 6)
      (by omega)
    exact ⟨_, Nat.le_add_right 2 _, h, of_decide_eq_true hfree⟩
  · rintro ⟨d, hlo, hhi, hfree⟩
    by_contra hge
    have hused := firstIdx_min (p := fun i => decide ((p.file (2 + i)).flags ≠ 1)) (n := 6)
      (j := d - 2) (by omega)
    rw [show 2 + (d - 2) = d by omega] at hused
    exact of_decide_eq_false hused hfree

theorem openFd_le (p : Pcb) : 2 ≤ p.openFd ∧ p.openFd ≤ 8 := by
  unfold Pcb.openFd
  have hle := firstIdx_le (fun i => decide ((p.file (2 + i)).flags ≠ 1)) 6
  omega

/-- It stops at a free one, or past the table. -/
theorem openFd_free {k : Kernel} (hlt : (k.pcbs (getPcbAddress k)).openFd < 8) :
    (k.fdAt (k.pcbs (getPcbAddress k)).openFd).flags ≠ 1 := by
  have hstop := firstIdx_spec
    (p := fun i => decide (((k.pcbs (getPcbAddress k)).file (2 + i)).flags ≠ 1)) (n := 6)
    (by unfold Pcb.openFd at hlt; omega)
  exact of_decide_eq_true hstop

theorem freeFd_found {p : Pcb} : freeFd p ≠ -1 ↔ ∃ d, d < 8 ∧ (p.file d).flags = 0 := by
  unfold freeFd
  dsimp only
  constructor
  · intro h
    by_cases hlt : firstIdx (fun i => decide ((p.file i).flags = 0)) 8 < 8
    · have hstop := firstIdx_spec hlt
      exact ⟨_, hlt, of_decide_eq_true hstop⟩
    · rw [if_neg hlt] at h
      exact absurd rfl h
  · rintro ⟨d, hd, hfree⟩
    have hlt : firstIdx (fun i => decide ((p.file i).flags = 0)) 8 < 8 := by
      by_contra hge
      have hused := firstIdx_min (p := fun i => decide ((p.file i).flags = 0)) (n := 8) (j := d)
        (by omega)
      exact of_decide_eq_false hused hfree
    rw [if_pos hlt]
    omega

theorem opened_pcbs (k : Kernel) (rtcA : Nat) (ops : FileOps) (inode : Nat)
    (hlt : (k.pcbs (getPcbAddress k)).openFd < 8) :
    (opened k rtcA ops inode).pcbs = (k.setFd (k.pcbs (getPcbAddress k)).openFd
      (openedFd ops (if ops = FileOps.fileOp then inode else 0))).pcbs := by
  unfold opened Pcb.setFile
  rw [if_pos hlt]
  rfl

theorem opened_fdAt (k : Kernel) (rtcA : Nat) (ops : FileOps) (inode : Nat)
    (hlt : (k.pcbs (getPcbAddress k)).openFd < 8) :
    (opened k rtcA ops inode).fdAt (k.pcbs (getPcbAddress k)).openFd =
      openedFd ops (if ops = FileOps.fileOp then inode else 0) := by
  show ((opened k rtcA ops inode).pcbs (getPcbAddress k)).file _ = _
  rw [opened_pcbs k rtcA ops inode hlt]
  exact (setFd_fdAt k _ _ _).trans (if_pos rfl)

/-! ## Descriptor allocation -/

/-- The six descriptors are in use, and the call gets through the tests on `file[8]`. -/
structure Overruns (img : Image) (k : Kernel) (dentry : Dentry) (filename : CString) : Prop where
  full : ∀ d, 2 ≤ d → d < 8 → (k.fdAt d).flags ≠ 0
  named : Named img dentry filename
  beyond : (k.pcbs (getPcbAddress k)).arg.word 12 ≠ 1
  kind : ∃ ops, openOps (readDentryByName img filename.buf dentry).2.fileType filename = some ops ∧
    (ops = .rtcOp ∨ (k.fdAt 0).flags = 0 ∨ (k.fdAt 1).flags = 0)

section Allocation

variable {img : Image} {k : Kernel} {dentry : Dentry} {filename : CString}

/-- Past the table every descriptor is in use, and the tests are those on `file[8]`. -/
theorem opensAs_full_iff (hge : ¬ (k.pcbs (getPcbAddress k)).openFd < 8) :
    (∃ ops, OpensAs img k dentry filename ops) ↔ Overruns img k dentry filename := by
  have height : (k.pcbs (getPcbAddress k)).openFd = 8 := by
    have hle := (openFd_le (k.pcbs (getPcbAddress k))).2
    omega
  have hused : ∀ d, 2 ≤ d → d < 8 → (k.fdAt d).flags ≠ 0 := by
    intro d hlo hhi hfree
    exact hge ((openFd_lt_iff k).mpr ⟨d, hlo, hhi, by rw [hfree]; exact Nat.zero_ne_one⟩)
  -- past the table only the descriptors 0 and 1 can still be free
  have hstd : freeFd (k.pcbs (getPcbAddress k)) ≠ -1 ↔
      (k.fdAt 0).flags = 0 ∨ (k.fdAt 1).flags = 0 := by
    rw [freeFd_found]
    constructor
    · rintro ⟨d, hd, hfree⟩
      have hsmall : d < 2 := by
        by_contra hbig
        exact hused d (by omega) hd hfree
      obtain rfl | rfl : d = 0 ∨ d = 1 := by omega
      · exact Or.inl hfree
      · exact Or.inr hfree
    · rintro (hfree | hfree)
      · exact ⟨0, by decide, hfree⟩
      · exact ⟨1, by decide, hfree⟩
  have hbeyond : (k.pcbs (getPcbAddress k)).flagsAt 8 = (k.pcbs (getPcbAddress k)).arg.word 12 :=
    rfl
  constructor
  · rintro ⟨ops, hnamed, hfree, hkind, hfound⟩
    rw [height, hbeyond] at hfree
    exact ⟨hused, hnamed, hfree, ops, hkind, hfound.imp_right hstd.mp⟩
  · rintro ⟨_, hnamed, hfree, ops, hkind, hfound⟩
    exact ⟨ops, hnamed, by rw [height, hbeyond]; exact hfree, hkind, hfound.imp_right hstd.mpr⟩

end Allocation

/-- Two regular files of four bytes, "shell" and "rtc0". -/
def clockImage : Image where
  mem := fun o => (List.lookup o [(0, 2), (4, 1), (8, 1),
    (64, 0x73), (65, 0x68), (66, 0x65), (67, 0x6c), (68, 0x6c), (96, 2),
    (128, 0x72), (129, 0x74), (130, 0x63), (131, 0x30), (160, 2),
    (4096, 4), (8192, 0x7f), (8193, 0x45), (8194, 0x4c), (8195, 0x46)]).getD 0

theorem clockImage_wellFormed : clockImage.WellFormed where
  fits := by decide
  dirs := by decide
  types := by decide
  inodes := by decide
  lengths := by decide
  blocks := by
    have hcount : clockImage.inodeCount = 1 := by decide
    have hlen : clockImage.inodeLength 0 = 4 := by decide
    intro n j hn hj
    obtain rfl : n = 0 := by omega
    rw [hlen] at hj
    simp only [absBlockSize] at hj
    obtain rfl : j = 0 := by omega
    decide

/-- The name of the second one. -/
def clockName : CString := ⟨[0x72, 0x74, 0x63, 0x30], by decide⟩

/-- The base shell after boot. -/
def clockShell : Kernel := (boot clockImage Kernel.loaded ⟨0, 0⟩ (Locals.zero ⟨0, 0⟩)).kernel

end LmaOS
