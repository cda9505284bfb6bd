import LmaOS.Files.Open

/-
  Sequential reading of a regular file.

  `Reader` is a process that opened a file as descriptor `fd`: the kernel, the bytes all reads on
  `fd` have returned, and how many were asked for. Its steps are reads on any descriptor and
  whatever interrupts do to screen and keyboard in between. `SequentialReads` says that the bytes
  are the content read once from start to end, however it is cut into reads.

  `sequential_reads_iff`: this holds exactly when `open` found a free descriptor and took the file
  for a regular one. It goes by the first characters of the name as well as by the type:
  a file "rtc0" is opened as the clock (`named_like_clock`), a file ".x" as the directory.
-/
namespace LmaOS

open Util

inductive ReadOp where
  | read (dentry : Dentry) (tail : Buf) (fd : Nat) (buf : Buf) (nbytes : Nat)
  /-- Device interrupts between two calls. -/
  | devices (screen : Screen) (keyboard : Keyboard)

structure Reader where
  kernel : Kernel
  /-- The bytes returned on the descriptor so far. -/
  got : List UInt8
  /-- The sum of the sizes asked for. -/
  asked : Nat

namespace Reader

/-- A call that still waits for a line changes nothing. -/
def step (img : Image) (fd : Nat) (s : Reader) : ReadOp → Reader
  | .read dentry tail d buf nbytes =>
    match LmaOS.read img s.kernel dentry tail d (some buf) nbytes with
    | none => s
    | some r =>
      if d = fd then ⟨r.kernel, s.got ++ r.buf.take r.ret.toNat, s.asked + nbytes⟩
      else { s with kernel := r.kernel }
  | .devices screen keyboard =>
    { s with kernel := { s.kernel with screen := screen, keyboard := keyboard } }

end Reader

/-- The bytes returned are the beginning of the content, and `pos` counts them. -/
structure InSequence (img : Image) (inode fd : Nat) (s : Reader) : Prop where
  got : s.got = (img.content inode).take (min s.asked (img.inodeLength inode))
  pos : (s.kernel.fdAt fd).pos = s.got.length
  bound : s.got.length ≤ img.inodeLength inode

/-- What the claims say of one step: the bytes stay in sequence, a read returns 0 exactly at the
    end of the file, and no other descriptor moves. -/
structure ReadsOn (img : Image) (inode fd : Nat) (s : Reader) (op : ReadOp) : Prop where
  after : InSequence img inode fd (s.step img fd op)
  atEnd : ∀ dentry tail buf nbytes, op = .read dentry tail fd buf nbytes → 0 < nbytes →
    ∀ r, read img s.kernel dentry tail fd (some buf) nbytes = some r →
      (r.ret = 0 ↔ s.got.length = img.inodeLength inode)
  others : ∀ dentry tail d buf nbytes, op = .read dentry tail d buf nbytes → ∀ e, e ≠ d →
    ((s.step img fd op).kernel.fdAt e).pos = (s.kernel.fdAt e).pos

/-- Every sequence of reads from `k` on returns the content of the inode on `fd` in order. -/
def SequentialReads (img : Image) (inode fd : Nat) (k : Kernel) : Prop :=
  InSequence img inode fd ⟨k, [], 0⟩ ∧
    ∀ ops, Allowed (Reader.step img fd) (ReadsOn img inode fd) ⟨k, [], 0⟩ ops

/-- A descriptor is free, and the name is none that `open` takes for the clock or a directory. An
    empty file may be taken for the clock, whose reads return nothing. -/
def OpensAsFile (img : Image) (k : Kernel) (filename : CString) (inode : Nat) : Prop :=
  (∃ d, 2 ≤ d ∧ d < 8 ∧ (k.fdAt d).flags ≠ 1) ∧
    if strncmp filename.buf (Buf.ofList (bytes "rtc")) 3 = 0 then img.inodeLength inode = 0
    else strncmp filename.buf (Buf.ofList (bytes ".")) 1 ≠ 0

/-! ## open -/

/-- The table `open` gives a regular file of that name. -/
def openedOps (filename : CString) : FileOps :=
  if strncmp filename.buf (Buf.ofList (bytes "rtc")) 3 = 0 then .rtcOp
  else if strncmp filename.buf (Buf.ofList (bytes ".")) 1 = 0 then .dirOp
  else .fileOp

theorem openOps_regular (filename : CString) : openOps 2 filename = some (openedOps filename) := by
  have hzero : ¬ (2 : Nat) = 0 := by decide
  have hone : ¬ (2 : Nat) = 1 := by decide
  unfold openOps openedOps
  simp only [hzero, hone, false_or, if_true]
  split
  · rfl
  · split <;> rfl

/-- A successful `open` of an entry of type 2. -/
theorem openCall_regular {img : Image} {k : Kernel} {dentry : Dentry} {filename : CString}
    (htype : (readDentryByName img filename.buf dentry).2.fileType = 2)
    (hopen : (openCall img k dentry filename).1 ≠ -1) :
    (∃ j, j < img.dirCount ∧ img.fileType j = 2 ∧
        (readDentryByName img filename.buf dentry).2.inodeNum = img.inodeNum j) ∧
      (openCall img k dentry filename).1 = (k.pcbs (getPcbAddress k)).openFd ∧
      ∃ rtcA, (openCall img k dentry filename).2 = opened k rtcA (openedOps filename)
        (readDentryByName img filename.buf dentry).2.inodeNum := by
  rcases openCall_cases img k dentry filename with ⟨ops, hops, hfd, rtcA, hkernel⟩ | ⟨_, heq⟩
  swap
  · rw [heq] at hopen
    exact absurd rfl hopen
  have hkind := hops.kind
  rw [htype, openOps_regular] at hkind
  obtain rfl := Option.some.inj hkind
  refine ⟨?_, hfd, rtcA, hkernel⟩
  rcases readDentryByName_cases img filename.buf dentry with he | ⟨j, hj, _, he⟩
  · exact absurd (congrArg Prod.fst he) hops.named.2
  · rw [he] at htype ⊢
    exact ⟨j, hj, htype, rfl⟩

/-! ## One step -/

section Step

variable {img : Image} {inode fd : Nat} {s : Reader}

/-- Reads on one descriptor leave all others alone. -/
theorem step_others (dentry : Dentry) (tail : Buf) (d : Nat) (buf : Buf) (nbytes : Nat) {e : Nat}
    (he : e ≠ d) : (s.step img fd (.read dentry tail d buf nbytes)).kernel.fdAt e =
      s.kernel.fdAt e := by
  unfold Reader.step
  dsimp only
  cases hr : read img s.kernel dentry tail d (some buf) nbytes with
  | none => rfl
  | some r =>
    dsimp only
    have hsame := read_fdAt img s.kernel dentry tail d buf nbytes hr he
    split <;> exact hsame

/-- The descriptor stands behind the bytes it returned, which are the beginning of the content: it
    is open as the file, or as the clock if the file is empty. -/
structure Reading (img : Image) (inode fd : Nat) (s : Reader) : Prop where
  descriptor : s.kernel.fdAt fd = ⟨.fileOp, inode, s.got.length, 1⟩ ∨
    img.inodeLength inode = 0 ∧ s.kernel.fdAt fd = ⟨.rtcOp, 0, s.got.length, 1⟩
  got : s.got = (img.content inode).take s.asked

theorem Reading.inSequence (h : Reading img inode fd s) : InSequence img inode fd s where
  got := by
    rw [h.got, ← Image.content_length, List.take_eq_take_iff, Nat.min_assoc, Nat.min_self]
  pos := by
    rcases h.descriptor with hfd | ⟨_, hfd⟩
    all_goals rw [hfd]
  bound := by
    rw [h.got, List.length_take, Image.content_length]
    exact Nat.min_le_right _ _

/-- A read on the descriptor returns the next bytes of the content. -/
theorem Reading.read (h : Reading img inode fd s) (hwf : img.WellFormed)
    (hin : inode < img.inodeCount) (hfd : fd < 8) (dentry : Dentry) (tail buf : Buf)
    (nbytes : Nat) : ∃ r, read img s.kernel dentry tail fd (some buf) nbytes = some r ∧
      r.ret = (min nbytes (img.inodeLength inode - s.got.length) : Nat) ∧
      r.buf.take r.ret.toNat = ((img.content inode).drop s.got.length).take nbytes ∧
      r.kernel.fdAt fd = { s.kernel.fdAt fd with pos := s.got.length + r.ret.toNat } := by
  have hlen := hwf.lengths inode hin
  have hbound := h.inSequence.bound
  rcases h.descriptor with hdesc | ⟨hempty, hdesc⟩
  · have hnext := readFile_next s.kernel fd (by rw [hdesc]; exact hin)
      (by rw [hdesc]; exact hlen) (by rw [hdesc]; exact hbound) buf nbytes
    rw [hdesc] at hnext
    obtain ⟨hret, hbytes, hmoved⟩ := hnext
    rw [read_open img s.kernel dentry tail buf nbytes hfd (by rw [hdesc]; exact Nat.one_ne_zero),
      hdesc]
    have hcount := congrArg Int.toNat hret
    rw [Int.toNat_natCast] at hcount
    refine ⟨_, rfl, hret, ?_, ?_⟩
    · rw [← hcount] at hbytes
      exact hbytes
    · rw [← hcount] at hmoved
      exact hmoved
  · -- the file is empty and reads on the clock return nothing
    rw [read_open img s.kernel dentry tail buf nbytes hfd (by rw [hdesc]; exact Nat.one_ne_zero),
      hdesc]
    have hcontent : img.content inode = [] := by
      rw [← List.length_eq_zero_iff, Image.content_length, hempty]
    refine ⟨_, rfl, ?_, ?_, hdesc⟩
    · rw [hempty, Nat.zero_sub, Nat.min_zero]
      rfl
    · rw [hcontent, List.drop_nil, List.take_nil]
      rfl

/-- The content up to the next position. -/
theorem Reading.append (h : Reading img inode fd s) (nbytes : Nat) :
    s.got ++ ((img.content inode).drop s.got.length).take nbytes =
      (img.content inode).take (s.asked + nbytes) := by
  have hlen : s.got.length = min s.asked (img.content inode).length := by
    rw [h.got, List.length_take]
  rw [List.take_add, ← h.got, hlen]
  congr 2
  rcases Nat.le_total s.asked (img.content inode).length with hle | hge
  · rw [Nat.min_eq_left hle]
  · rw [Nat.min_eq_right hge, List.drop_length, List.drop_eq_nil_of_le hge]

theorem Reading.step (h : Reading img inode fd s) (hwf : img.WellFormed)
    (hin : inode < img.inodeCount) (hfd : fd < 8) (op : ReadOp) :
    Reading img inode fd (s.step img fd op) := by
  cases op with
  | devices screen keyboard => exact ⟨h.descriptor, h.got⟩
  | read dentry tail d buf nbytes =>
    by_cases hd : d = fd
    · subst hd
      obtain ⟨r, hr, hret, hbytes, hnext⟩ := h.read hwf hin hfd dentry tail buf nbytes
      have hstep : s.step img d (.read dentry tail d buf nbytes) =
          ⟨r.kernel, s.got ++ r.buf.take r.ret.toNat, s.asked + nbytes⟩ := by
        unfold Reader.step
        dsimp only
        rw [hr]
        exact if_pos rfl
      have hpos : s.got.length + r.ret.toNat = (s.got ++ r.buf.take r.ret.toNat).length := by
        rw [List.length_append, Buf.take_length]
      rw [hstep]
      refine ⟨?_, ?_⟩
      · rw [hpos] at hnext
        refine h.descriptor.imp (fun hdesc => ?_) fun ⟨hempty, hdesc⟩ => ⟨hempty, ?_⟩
        all_goals rw [hdesc] at hnext; exact hnext
      · dsimp only
        rw [hbytes]
        exact h.append nbytes
    · -- another descriptor
      have hstep : (s.step img fd (.read dentry tail d buf nbytes)).got = s.got ∧
          (s.step img fd (.read dentry tail d buf nbytes)).asked = s.asked := by
        unfold Reader.step
        dsimp only
        split
        · exact ⟨rfl, rfl⟩
        · rw [if_neg hd]
          exact ⟨rfl, rfl⟩
      have hsame : (s.step img fd (.read dentry tail d buf nbytes)).kernel.fdAt fd =
          s.kernel.fdAt fd := step_others dentry tail d buf nbytes (Ne.symm hd)
      exact ⟨by rw [hsame, hstep.1]; exact h.descriptor, by rw [hstep.1, hstep.2]; exact h.got⟩

theorem Reading.readsOn (h : Reading img inode fd s) (hwf : img.WellFormed)
    (hin : inode < img.inodeCount) (hfd : fd < 8) (op : ReadOp) : ReadsOn img inode fd s op where
  after := (h.step hwf hin hfd op).inSequence
  atEnd := by
    intro dentry tail buf nbytes _ hn r hr
    obtain ⟨r', hr', hret, _, _⟩ := h.read hwf hin hfd dentry tail buf nbytes
    obtain rfl : r' = r := Option.some.inj (hr'.symm.trans hr)
    have hbound := h.inSequence.bound
    rw [hret]
    omega
  others := by
    intro dentry tail d buf nbytes hop e he
    subst hop
    rw [step_others dentry tail d buf nbytes he]

end Step

/-! ## Where sequential reading fails -/

/-- What one read on the descriptor, the first one, has to do. -/
theorem SequentialReads.first {img : Image} {inode fd : Nat} {k : Kernel}
    (h : SequentialReads img inode fd k) {dentry : Dentry} {tail buf : Buf} {nbytes : Nat}
    {r : ReadResult} (hr : read img k dentry tail fd (some buf) nbytes = some r) :
    r.buf.take r.ret.toNat =
        (img.content inode).take (min nbytes (img.inodeLength inode)) ∧
      (r.kernel.fdAt fd).pos = r.ret.toNat ∧
      (0 < nbytes → (r.ret = 0 ↔ img.inodeLength inode = 0)) := by
  obtain ⟨⟨hafter, hatEnd, _⟩, _⟩ := h.2 [.read dentry tail fd buf nbytes]
  have hstep : Reader.step img fd ⟨k, [], 0⟩ (.read dentry tail fd buf nbytes) =
      ⟨r.kernel, r.buf.take r.ret.toNat, nbytes⟩ := by
    unfold Reader.step
    dsimp only
    rw [hr]
    dsimp only
    rw [if_pos rfl, List.nil_append, Nat.zero_add]
  rw [hstep] at hafter
  refine ⟨hafter.got, ?_, fun hn => ?_⟩
  · rw [hafter.pos, Buf.take_length]
  · rw [hatEnd dentry tail buf nbytes rfl hn r hr]
    exact eq_comm

theorem SequentialReads.descriptor_small {img : Image} {inode fd : Nat} {k : Kernel}
    (h : SequentialReads img inode fd k) : fd < 8 := by
  by_contra hge
  have hr : read img k ⟨fun _ => 0, 0, 0⟩ (fun _ => 0) fd (some fun _ => 0) (1 : Nat) =
      some ⟨-1, fun _ => 0, k⟩ := by
    unfold read
    exact if_pos (by omega)
  obtain ⟨hbytes, _, hend⟩ := h.first hr
  have hsize := congrArg List.length hbytes
  have hret : ¬ (-1 : Int) = 0 := by decide
  have hzero := (hend Nat.one_pos).not.mp hret
  rw [List.length_take, Image.content_length] at hsize
  simp only [Buf.take_length] at hsize
  have hnone : ((-1 : Int)).toNat = 0 := rfl
  omega

/-- A file opened as the clock has to be empty. -/
theorem SequentialReads.clock {img : Image} {inode fd : Nat} {k : Kernel}
    (h : SequentialReads img inode fd k) {f : Fd} (hdesc : k.fdAt fd = f)
    (hops : f.fileOp = .rtcOp) (hopen : f.flags = 1) : img.inodeLength inode = 0 := by
  have hr : read img k ⟨fun _ => 0, 0, 0⟩ (fun _ => 0) fd (some fun _ => 0) (1 : Nat) =
      some ⟨0, fun _ => 0, k⟩ := by
    rw [read_open img k _ _ _ 1 h.descriptor_small (by rw [hdesc, hopen]; decide), hdesc, hops]
    rfl
  obtain ⟨_, _, hend⟩ := h.first hr
  exact (hend Nat.one_pos).mp rfl

/-- A file opened as a directory moves its position by one even on a read of size 0. -/
theorem SequentialReads.not_directory {img : Image} {inode fd : Nat} {k : Kernel}
    (h : SequentialReads img inode fd k) {f : Fd} (hdesc : k.fdAt fd = f)
    (hopen : f.flags = 1) (hpos : f.pos = 0) (hdir : 0 < img.dirCount) : f.fileOp ≠ .dirOp := by
  intro hops
  have hr : read img k ⟨fun _ => 0, 0, 0⟩ (fun _ => 0) fd (some fun _ => 0) (0 : Nat) =
      some (readDir img k ⟨fun _ => 0, 0, 0⟩ (fun _ => 0) fd (fun _ => 0) 0) := by
    rw [read_open img k _ _ _ 0 h.descriptor_small (by rw [hdesc, hopen]; decide), hdesc, hops]
    rfl
  obtain ⟨hbytes, hnext, _⟩ := h.first hr
  have hsize := congrArg List.length hbytes
  rw [Buf.take_length, Nat.zero_min, List.take_zero, List.length_nil] at hsize
  rw [hsize, readDir_eq, hdesc, hpos, if_pos hdir, setFd_fdAt, if_pos rfl] at hnext
  cases hnext

/-! ## The system call -/

/-- Reading the file that `open` returned a descriptor for. -/
theorem sequential_reads_iff {img : Image} (hwf : img.WellFormed) {k : Kernel} {dentry : Dentry}
    {filename : CString} {fd : Nat}
    (htype : (readDentryByName img filename.buf dentry).2.fileType = 2)
    (hopen : (openCall img k dentry filename).1 = fd) :
    SequentialReads img (readDentryByName img filename.buf dentry).2.inodeNum fd
        (openCall img k dentry filename).2 ↔
      OpensAsFile img k filename (readDentryByName img filename.buf dentry).2.inodeNum := by
  obtain ⟨⟨j, hj, htwo, hinode⟩, hfd, rtcA, hkernel⟩ :=
    openCall_regular htype (by rw [hopen]; omega)
  obtain rfl : fd = (k.pcbs (getPcbAddress k)).openFd := by omega
  have hin : (readDentryByName img filename.buf dentry).2.inodeNum < img.inodeCount := by
    rw [hinode]
    exact hwf.inodes j hj htwo
  generalize (readDentryByName img filename.buf dentry).2.inodeNum = inode at hin hkernel ⊢
  generalize (openCall img k dentry filename).2 = k' at hkernel ⊢
  have hdesc : (k.pcbs (getPcbAddress k)).openFd < 8 →
      k'.fdAt (k.pcbs (getPcbAddress k)).openFd = openedFd (openedOps filename)
        (if openedOps filename = FileOps.fileOp then inode else 0) := by
    intro hlt
    rw [hkernel]
    exact opened_fdAt k rtcA _ _ hlt
  unfold OpensAsFile
  rw [← openFd_lt_iff]
  constructor
  · intro hseq
    have hlt := hseq.descriptor_small
    refine ⟨hlt, ?_⟩
    split <;> rename_i hclock
    · exact hseq.clock (hdesc hlt) (if_pos hclock) rfl
    · intro hdot
      refine hseq.not_directory (hdesc hlt) rfl rfl (by omega) ?_
      show openedOps filename = .dirOp
      unfold openedOps
      rw [if_neg hclock, if_pos hdot]
  · rintro ⟨hlt, hname⟩
    have hstart : Reading img inode (k.pcbs (getPcbAddress k)).openFd ⟨k', [], 0⟩ := by
      refine ⟨?_, rfl⟩
      dsimp only
      rw [hdesc hlt]
      unfold openedOps
      split at hname <;> rename_i hclock
      · rw [if_pos hclock]
        exact Or.inr ⟨hname, rfl⟩
      · rw [if_neg hclock, if_neg hname]
        exact Or.inl rfl
    refine ⟨hstart.inSequence, fun ops => ?_⟩
    exact (allowed_true _ ops).steps (Reading img inode (k.pcbs (getPcbAddress k)).openFd)
      (fun _ op h _ => h.step hwf hin hlt op) (fun _ op h _ => h.readsOn hwf hin hlt op) hstart

theorem sequential_reads_iff_shell :
    SequentialReads clockImage
        (readDentryByName clockImage shellCommand.buf ⟨fun _ => 0, 0, 0⟩).2.inodeNum 2
        (openCall clockImage (boot clockImage Kernel.loaded ⟨0, 0⟩ (Locals.zero ⟨0, 0⟩)).kernel
          ⟨fun _ => 0, 0, 0⟩ shellCommand).2 ↔
      OpensAsFile clockImage (boot clockImage Kernel.loaded ⟨0, 0⟩ (Locals.zero ⟨0, 0⟩)).kernel
        shellCommand (readDentryByName clockImage shellCommand.buf ⟨fun _ => 0, 0, 0⟩).2.inodeNum :=
  sequential_reads_iff clockImage_wellFormed (by decide) (by decide)

/-- "rtc0" is a regular file of four bytes and opened as the clock: nothing can be read. -/
theorem named_like_clock : ¬ ∀ img : Image, img.WellFormed → ∀ (k : Kernel) (dentry : Dentry)
    (filename : CString) (fd : Nat),
      (readDentryByName img filename.buf dentry).2.fileType = 2 →
        (openCall img k dentry filename).1 = fd →
          SequentialReads img (readDentryByName img filename.buf dentry).2.inodeNum fd
            (openCall img k dentry filename).2 := by
  intro hclaim
  have h := hclaim clockImage clockImage_wellFormed
    (boot clockImage Kernel.loaded ⟨0, 0⟩ (Locals.zero ⟨0, 0⟩)).kernel ⟨fun _ => 0, 0, 0⟩
    ⟨[0x72, 0x74, 0x63, 0x30], by decide⟩ 2 (by decide) (by decide)
  have hempty := h.clock rfl (by decide) (by decide)
  revert hempty
  decide

end LmaOS
