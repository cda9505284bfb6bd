import LmaOS.Files.SequentialRead

/-
  Listing a directory.

  `Lister` is a process that opened a directory as descriptor `fd`: the kernel, how many reads it
  made on `fd`, and the names they returned. Reads on other descriptors, among them another one
  open on the directory, and device interrupts come in between in any order. `Enumerates` says
  that the `k`-th read returns entry `k` and every read past the end returns 0.

  A name may fill all 32 bytes of its field; `read_dir` then measures and copies the bytes behind
  it as well, and cuts the length at 32 (`dirEntry_byte`, `strlen_dirEntry`).

  `enumerates_iff`: an entry of type 1 that `open` returned a descriptor for is enumerated exactly
  when a descriptor was free and the name does not begin with "rtc" (`directory_like_clock`).
-/
namespace LmaOS

open Util

namespace Image

/-- The names of the directory, in order. -/
def names (img : Image) : List (List UInt8) := (List.range img.dirCount).map img.name

theorem names_take_succ {img : Image} {n : Nat} (h : n < img.dirCount) :
    img.names.take (n + 1) = img.names.take n ++ [img.name n] := by
  have hlen : n < img.names.length := by
    unfold names
    rw [List.length_map, List.length_range]
    exact h
  rw [List.take_add_one, List.getElem?_eq_getElem hlen]
  simp only [names, List.getElem_map, List.getElem_range, Option.toList_some]

theorem names_take_of_le {img : Image} {n : Nat} (h : img.dirCount ≤ n) :
    img.names.take (n + 1) = img.names.take n := by
  have hlen : img.names.length ≤ n := by
    unfold names
    rw [List.length_map, List.length_range]
    exact h
  rw [List.take_of_length_le hlen, List.take_of_length_le (Nat.le_succ_of_le hlen)]

end Image

structure Lister where
  kernel : Kernel
  /-- The reads on the descriptor so far. -/
  count : Nat
  /-- The names they returned. -/
  names : List (List UInt8)

namespace Lister

def step (img : Image) (fd : Nat) (s : Lister) : ReadOp → Lister
  | .read dentry tail d buf nbytes =>
    match LmaOS.read img s.kernel dentry tail d (some buf) nbytes with
    | none => s
    | some r =>
      if d = fd then
        ⟨r.kernel, s.count + 1,
          if r.ret = 0 then s.names else s.names ++ [r.buf.take r.ret.toNat]⟩
      else { s with kernel := r.kernel }
  | .devices screen keyboard =>
    { s with kernel := { s.kernel with screen := screen, keyboard := keyboard } }

end Lister

/-- Reads on the descriptor ask for at least a whole name. -/
def ReadOp.Wide (fd : Nat) : ReadOp → Prop
  | .read _ _ d _ nbytes => d = fd → filenameLen ≤ nbytes
  | .devices _ _ => True

/-- Read number `count` on the directory. -/
structure NextEntry (img : Image) (count : Nat) (buf : Buf) (nbytes : Nat) (r : ReadResult) :
    Prop where
  entry : count < img.dirCount →
    r.ret = img.nameLength count ∧ r.buf.take r.ret.toNat = img.name count
  length : count < img.dirCount → 1 ≤ r.ret ∧ r.ret ≤ 32
  atEnd : img.dirCount ≤ count → r.ret = 0
  frame : SameFrom (max nbytes (filenameLen + 1)) buf r.buf

structure ListsNext (img : Image) (fd : Nat) (s : Lister) (op : ReadOp) : Prop where
  result : ∀ dentry tail buf nbytes, op = .read dentry tail fd buf nbytes →
    ∃ r, read img s.kernel dentry tail fd (some buf) nbytes = some r ∧
      NextEntry img s.count buf nbytes r
  names : (s.step img fd op).names = img.names.take (s.step img fd op).count

/-- Every sequence of reads from `k` on lists the directory in order. -/
def Enumerates (img : Image) (fd : Nat) (k : Kernel) : Prop :=
  ∀ ops : List ReadOp, (∀ op ∈ ops, op.Wide fd) →
    Allowed (Lister.step img fd) (ListsNext img fd) ⟨k, 0, []⟩ ops

/-! ## One read -/

section Step

variable {img : Image} {fd : Nat} {s : Lister}

/-- The descriptor is open on the directory and stands behind the names it returned. -/
structure Listing (img : Image) (fd : Nat) (s : Lister) : Prop where
  descriptor : s.kernel.fdAt fd = ⟨.dirOp, 0, min s.count img.dirCount, 1⟩
  names : s.names = img.names.take s.count

/-- The bytes `read_dir` copies begin with the name. -/
theorem copied_name {i : Nat} (hi : i < img.dirCount) (dentry : Dentry) (tail buf : Buf)
    {nbytes : Nat} (hn : filenameLen ≤ nbytes) :
    (strncpy buf (dirEntry img i dentry tail) nbytes).take (img.nameLength i) = img.name i := by
  have hle := nameLength_le img i
  refine List.map_congr_left fun j hj => ?_
  have hj : j < img.nameLength i := List.mem_range.mp hj
  have hbyte := dirEntry_byte hi dentry tail hj
  have hcopied : ∀ m, m < j + 1 → dirEntry img i dentry tail m ≠ 0 := by
    intro m hm
    rw [dirEntry_byte hi dentry tail (by omega)]
    exact fileName_ne_zero (by omega)
  rw [strncpy_apply, if_pos (by omega), if_pos hcopied, hbyte]

/-- A read on the directory returns the next entry and moves behind it. -/
theorem Listing.read (h : Listing img fd s) (hcount : img.dirCount ≤ 63)
    (hnames : ∀ i, i < img.dirCount → img.fileName i 0 ≠ 0) (hfd : fd < 8) (dentry : Dentry)
    (tail buf : Buf) {nbytes : Nat} (hn : filenameLen ≤ nbytes) :
    ∃ r, read img s.kernel dentry tail fd (some buf) nbytes = some r ∧
      NextEntry img s.count buf nbytes r ∧
      r.kernel.fdAt fd = ⟨.dirOp, 0, min (s.count + 1) img.dirCount, 1⟩ := by
  have hpos : (s.kernel.fdAt fd).pos = min s.count img.dirCount := by rw [h.descriptor]
  have hopen : (s.kernel.fdAt fd).flags ≠ 0 := by rw [h.descriptor]; exact Nat.one_ne_zero
  have hops : (s.kernel.fdAt fd).fileOp = .dirOp := by rw [h.descriptor]
  rw [read_open img s.kernel dentry tail buf nbytes hfd hopen, hops]
  refine ⟨_, rfl, ?_⟩
  rw [readDir_eq, hpos]
  rcases Nat.lt_or_ge s.count img.dirCount with hin | hend
  · have hhere : min s.count img.dirCount = s.count := Nat.min_eq_left (Nat.le_of_lt hin)
    rw [hhere, if_pos hin]
    have hlo : 1 ≤ img.nameLength s.count := by
      by_contra hzero
      have hlen : img.nameLength s.count = 0 := by omega
      have hempty : img.fileName s.count (img.nameLength s.count) = 0 :=
        fileName_end (by rw [hlen]; decide)
      rw [hlen] at hempty
      exact hnames _ hin hempty
    have hhi := nameLength_le img s.count
    refine ⟨⟨fun _ => ⟨rfl, ?_⟩, fun _ => ⟨?_, ?_⟩, fun hout => ?_, ?_⟩, ?_⟩
    · exact copied_name hin dentry tail _ hn
    · exact Int.ofNat_le.mpr hlo
    · exact Int.ofNat_le.mpr hhi
    · exact absurd hin (Nat.not_lt_of_le hout)
    · intro i hi
      dsimp only
      rw [strncpy_apply, if_neg (by omega)]
      exact if_neg (by omega)
    · have hnext : (s.count + 1) % 4294967296 = min (s.count + 1) img.dirCount := by omega
      show (s.kernel.setFd fd _).fdAt fd = _
      rw [setFd_fdAt, if_pos rfl, h.descriptor, hnext]
  · have hhere : min s.count img.dirCount = img.dirCount := Nat.min_eq_right hend
    rw [hhere, if_neg (Nat.lt_irrefl _)]
    refine ⟨⟨fun hin => ?_, fun hin => ?_, fun _ => rfl, SameFrom.refl _ _⟩, ?_⟩
    · exact absurd hin (Nat.not_lt_of_le hend)
    · exact absurd hin (Nat.not_lt_of_le hend)
    · show s.kernel.fdAt fd = _
      rw [h.descriptor, hhere, Nat.min_eq_right (Nat.le_succ_of_le hend)]

theorem Listing.step (h : Listing img fd s) (hcount : img.dirCount ≤ 63)
    (hnames : ∀ i, i < img.dirCount → img.fileName i 0 ≠ 0) (hfd : fd < 8) {op : ReadOp}
    (hwide : op.Wide fd) : Listing img fd (s.step img fd op) := by
  cases op with
  | devices screen keyboard => exact ⟨h.descriptor, h.names⟩
  | read dentry tail d buf nbytes =>
    by_cases hd : d = fd
    · subst hd
      obtain ⟨r, hr, hentry, hnext⟩ := h.read hcount hnames hfd dentry tail buf (hwide rfl)
      have hstep : s.step img d (.read dentry tail d buf nbytes) = ⟨r.kernel, s.count + 1,
          if r.ret = 0 then s.names else s.names ++ [r.buf.take r.ret.toNat]⟩ := by
        unfold Lister.step
        dsimp only
        rw [hr]
        exact if_pos rfl
      rw [hstep]
      refine ⟨hnext, ?_⟩
      dsimp only
      rw [h.names]
      rcases Nat.lt_or_ge s.count img.dirCount with hin | hend
      · have hlo := (hentry.length hin).1
        rw [if_neg (by omega), (hentry.entry hin).2, Image.names_take_succ hin]
      · rw [if_pos (hentry.atEnd hend), Image.names_take_of_le hend]
    · -- another descriptor
      unfold Lister.step
      dsimp only
      cases hr : LmaOS.read img s.kernel dentry tail d (some buf) nbytes with
      | none => exact h
      | some r =>
        dsimp only
        rw [if_neg hd]
        have hsame := read_fdAt img s.kernel dentry tail d buf nbytes hr (Ne.symm hd)
        exact ⟨hsame.trans h.descriptor, h.names⟩

theorem Listing.listsNext (h : Listing img fd s) (hcount : img.dirCount ≤ 63)
    (hnames : ∀ i, i < img.dirCount → img.fileName i 0 ≠ 0) (hfd : fd < 8) {op : ReadOp}
    (hwide : op.Wide fd) : ListsNext img fd s op where
  result := by
    intro dentry tail buf nbytes hop
    subst hop
    obtain ⟨r, hr, hentry, _⟩ := h.read hcount hnames hfd dentry tail buf (hwide rfl)
    exact ⟨r, hr, hentry⟩
  names := (h.step hcount hnames hfd hwide).names

end Step

/-! ## Where listing fails -/

/-- The first read on the descriptor has to return a name. -/
theorem Enumerates.first {img : Image} {fd : Nat} {k : Kernel} (h : Enumerates img fd k)
    (hdir : 0 < img.dirCount) : ∃ r, read img k ⟨fun _ => 0, 0, 0⟩ (fun _ => 0) fd
      (some fun _ => 0) filenameLen = some r ∧ 1 ≤ r.ret := by
  have hone := h [.read ⟨fun _ => 0, 0, 0⟩ (fun _ => 0) fd (fun _ => 0) filenameLen] (by
    intro op hop
    obtain rfl := List.mem_singleton.mp hop
    exact fun _ => Nat.le_refl _)
  obtain ⟨r, hr, hentry⟩ := hone.1.result _ _ _ _ rfl
  exact ⟨r, hr, (hentry.length hdir).1⟩

theorem Enumerates.descriptor_small {img : Image} {fd : Nat} {k : Kernel}
    (h : Enumerates img fd k) (hdir : 0 < img.dirCount) : fd < 8 := by
  by_contra hge
  obtain ⟨r, hr, hret⟩ := h.first hdir
  unfold read at hr
  dsimp only at hr
  rw [if_pos (by omega)] at hr
  obtain rfl := Option.some.inj hr
  exact absurd (show (1 : Int) ≤ -1 from hret) (by decide)

theorem Enumerates.not_clock {img : Image} {fd : Nat} {k : Kernel} (h : Enumerates img fd k)
    (hdir : 0 < img.dirCount) : k.fdAt fd ≠ openedFd .rtcOp 0 := by
  intro hdesc
  obtain ⟨r, hr, hret⟩ := h.first hdir
  rw [read_open img k _ _ _ _ (h.descriptor_small hdir) (by rw [hdesc]; exact Nat.one_ne_zero),
    hdesc] at hr
  obtain rfl := Option.some.inj hr
  exact absurd (show (1 : Int) ≤ 0 from hret) (by decide)

/-! ## The system call -/

/-- The name does not begin like that of the clock. -/
def NotClock (filename : CString) : Prop :=
  strncmp filename.buf (Buf.ofList (bytes "rtc")) 3 ≠ 0

theorem openOps_directory (filename : CString) : openOps 1 filename =
    some (if strncmp filename.buf (Buf.ofList (bytes "rtc")) 3 = 0 then .rtcOp else .dirOp) := by
  have hzero : ¬ (1 : Nat) = 0 := by decide
  unfold openOps
  simp only [hzero, false_or, true_or, if_true]
  split <;> rfl

/-- Listing the directory that `open` returned a descriptor for. -/
theorem enumerates_iff {img : Image} (hcount : img.dirCount ≤ 63)
    (hnames : ∀ i, i < img.dirCount → img.fileName i 0 ≠ 0) {k : Kernel} {dentry : Dentry}
    {filename : CString} {fd : Nat}
    (htype : (readDentryByName img filename.buf dentry).2.fileType = 1)
    (hopen : (openCall img k dentry filename).1 = fd) :
    Enumerates img fd (openCall img k dentry filename).2 ↔
      (∃ d, 2 ≤ d ∧ d < 8 ∧ (k.fdAt d).flags ≠ 1) ∧ NotClock filename := by
  rcases openCall_cases img k dentry filename with ⟨ops, hops, hfd, rtcA, hkernel⟩ | ⟨_, heq⟩
  swap
  · rw [heq] at hopen
    exact absurd hopen (by omega)
  have hdir : 0 < img.dirCount := by
    rcases readDentryByName_cases img filename.buf dentry with he | ⟨j, hj, _, _⟩
    · exact absurd (congrArg Prod.fst he) hops.named.2
    · omega
  have hkind := hops.kind
  rw [htype, openOps_directory] at hkind
  have hkind := (Option.some.inj hkind).symm
  obtain rfl : fd = (k.pcbs (getPcbAddress k)).openFd := by omega
  have hdesc : (k.pcbs (getPcbAddress k)).openFd < 8 →
      (openCall img k dentry filename).2.fdAt (k.pcbs (getPcbAddress k)).openFd =
        openedFd ops 0 := by
    intro hlt
    rw [hkernel, opened_fdAt k rtcA ops _ hlt, if_neg]
    rw [hkind]
    split <;> decide
  unfold NotClock
  rw [← openFd_lt_iff]
  constructor
  · intro h
    have hlt := h.descriptor_small hdir
    refine ⟨hlt, fun hclock => h.not_clock hdir ?_⟩
    rw [hdesc hlt, hkind, if_pos hclock]
  · rintro ⟨hlt, hclock⟩
    rw [if_neg hclock] at hkind
    have hstart : Listing img (k.pcbs (getPcbAddress k)).openFd
        ⟨(openCall img k dentry filename).2, 0, []⟩ :=
      ⟨by dsimp only; rw [hdesc hlt, hkind, Nat.zero_min]; rfl, rfl⟩
    intro ops' hwide
    exact (allowed_forall hwide _).steps (Listing img (k.pcbs (getPcbAddress k)).openFd)
      (fun _ _ h hw => h.step hcount hnames hlt hw)
      (fun _ _ h hw => h.listsNext hcount hnames hlt hw) hstart

/-- The file "shell" and the directories "." and "rtc". -/
def clockDirectory : Image where
  mem := fun o => (List.lookup o [(0, 3), (4, 1), (8, 1),
    (64, 0x73), (65, 0x68), (66, 0x65), (67, 0x6c), (68, 0x6c), (96, 2),
    (128, 0x2e), (160, 1), (192, 0x72), (193, 0x74), (194, 0x63), (224, 1),
    (4096, 4), (8192, 0x7f), (8193, 0x45), (8194, 0x4c), (8195, 0x46)]).getD 0

theorem enumerates_iff_dot :
    Enumerates clockDirectory 2 (openCall clockDirectory
        (boot clockDirectory Kernel.loaded ⟨0, 0⟩ (Locals.zero ⟨0, 0⟩)).kernel
        ⟨fun _ => 0, 0, 0⟩ ⟨[0x2e], by decide⟩).2 ↔
      (∃ d, 2 ≤ d ∧ d < 8 ∧
        ((boot clockDirectory Kernel.loaded ⟨0, 0⟩ (Locals.zero ⟨0, 0⟩)).kernel.fdAt d).flags ≠ 1) ∧
        NotClock ⟨[0x2e], by decide⟩ :=
  enumerates_iff (by decide) (by decide) (by decide) (by decide)

/-- The directory "rtc" is opened as the clock: its first read returns 0. -/
theorem directory_like_clock : ¬ ∀ img : Image, img.dirCount ≤ 63 →
    (∀ i, i < img.dirCount → img.fileName i 0 ≠ 0) →
      ∀ (k : Kernel) (dentry : Dentry) (filename : CString) (fd : Nat),
        (readDentryByName img filename.buf dentry).2.fileType = 1 →
          (openCall img k dentry filename).1 = fd →
            Enumerates img fd (openCall img k dentry filename).2 := by
  intro hclaim
  have h := hclaim clockDirectory (by decide) (by decide)
    (boot clockDirectory Kernel.loaded ⟨0, 0⟩ (Locals.zero ⟨0, 0⟩)).kernel ⟨fun _ => 0, 0, 0⟩
    ⟨[0x72, 0x74, 0x63], by decide⟩ 2 (by decide) (by decide)
  exact h.not_clock (by decide) (by decide)

end LmaOS
