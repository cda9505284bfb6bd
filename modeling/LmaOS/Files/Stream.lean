import LmaOS.Files.Directory
import LmaOS.Files.Lookup

/-
  The file system as a program sees it: names that open, and descriptors that are read to their
  end.

  `Image.opens` is the descriptor a name opens as, `Image.next` what one read of a descriptor
  returns, and `Image.rest` what all further reads return together, up to the first that returns
  nothing. None of them mentions the kernel.

  * `openCall_opens`, `openCall_refuses`: `open` hands out what `opens` says, in a process with a
    free descriptor.
  * `read_next`: `read` returns what `next` says, and moves no other descriptor.
  * `rest_next`: the pieces put together are the rest.
-/
namespace LmaOS

open Util

namespace Image

/-! ## Names -/

/-- The first entry of that name. -/
def find (img : Image) (name : List UInt8) : Option Nat :=
  (List.range img.dirCount).find? fun i => decide (img.name i = name)

theorem find_eq_some {img : Image} {name : List UInt8} {i : Nat} :
    img.find name = some i ↔ img.FirstNamed name i := by
  unfold find
  rw [List.find?_range_eq_some]
  simp only [decide_eq_true_eq, Bool.not_eq_true', decide_eq_false_iff_not, List.mem_range]
  constructor
  · rintro ⟨hname, hi, hfirst⟩
    exact ⟨hi, hname, hfirst⟩
  · rintro ⟨hi, hname, hfirst⟩
    exact ⟨hname, hi, hfirst⟩

/-- The descriptor `open` makes of a name, if it knows it: by the entry's type and by the first
    characters of the name. -/
def opens (img : Image) (filename : CString) : Option Fd :=
  if filename.chars.length > 32 ∨ filename.chars = [] then none
  else
    (img.find filename.key).bind fun i =>
      (openOps (img.fileType i) filename).map fun ops =>
        openedFd ops (if ops = .fileOp then img.inodeNum i else 0)

/-! ## Descriptors -/

/-- The names of the directory from entry `pos` on, up to the first empty one. -/
def entries (img : Image) (pos : Nat) : List (List UInt8) :=
  (img.names.drop pos).takeWhile fun name => decide (name ≠ [])

/-- What a read of `n` bytes returns, and the descriptor behind it. -/
def next (img : Image) (f : Fd) (n : Nat) : List UInt8 × Fd :=
  match f.fileOp with
  | .fileOp =>
    let bytes := ((img.content f.inode).drop f.pos).take n
    (bytes, { f with pos := f.pos + bytes.length })
  | .dirOp =>
    if f.pos < img.dirCount then (img.name f.pos, { f with pos := f.pos + 1 }) else ([], f)
  | .rtcOp | .stdinOp | .stdoutOp | .doNothing => ([], f)

/-- What all further reads return together, up to the first one that returns nothing. -/
def rest (img : Image) (f : Fd) : List UInt8 :=
  match f.fileOp with
  | .fileOp => (img.content f.inode).drop f.pos
  | .dirOp => (img.entries f.pos).flatten
  | .rtcOp | .stdinOp | .stdoutOp | .doNothing => []

/-- An open descriptor of a file, of a directory or of the clock, not past its end. -/
structure Readable (img : Image) (f : Fd) : Prop where
  opened : f.flags = 1
  kind : (f.fileOp = .fileOp ∧ f.inode < img.inodeCount ∧ f.pos ≤ img.inodeLength f.inode) ∨
    (f.fileOp = .dirOp ∧ f.pos ≤ img.dirCount) ∨ f.fileOp = .rtcOp

/-- How far the end is: bytes of a file, entries of a directory. -/
def left (img : Image) (f : Fd) : Nat :=
  match f.fileOp with
  | .fileOp => img.inodeLength f.inode - f.pos
  | .dirOp => img.dirCount - f.pos
  | .rtcOp | .stdinOp | .stdoutOp | .doNothing => 0

section Next

variable {img : Image} {f : Fd} {n : Nat}

/-! Reading by kind of descriptor. -/

theorem next_file (hops : f.fileOp = .fileOp) : img.next f n =
    (((img.content f.inode).drop f.pos).take n,
      { f with pos := f.pos + (((img.content f.inode).drop f.pos).take n).length }) := by
  unfold next
  split
  · rfl
  all_goals
    rename_i hother
    rw [hops] at hother
    cases hother

theorem next_dir (hops : f.fileOp = .dirOp) : img.next f n =
    if f.pos < img.dirCount then (img.name f.pos, { f with pos := f.pos + 1 }) else ([], f) := by
  unfold next
  split
  · rename_i hother
    rw [hops] at hother
    cases hother
  · rfl
  all_goals
    rename_i hother
    rw [hops] at hother
    cases hother

theorem next_clock (hops : f.fileOp = .rtcOp) : img.next f n = ([], f) := by
  unfold next
  rw [hops]

theorem next_fileOp (n : Nat) : (img.next f n).2.fileOp = f.fileOp := by
  unfold next
  split
  · rfl
  · split <;> rfl
  all_goals rfl

theorem next_inode (n : Nat) : (img.next f n).2.inode = f.inode := by
  unfold next
  split
  · rfl
  · split <;> rfl
  all_goals rfl

theorem rest_file (hops : f.fileOp = .fileOp) : img.rest f = (img.content f.inode).drop f.pos := by
  unfold rest
  rw [hops]

theorem rest_dir (hops : f.fileOp = .dirOp) : img.rest f = (img.entries f.pos).flatten := by
  unfold rest
  rw [hops]

theorem next_readable (h : img.Readable f) (n : Nat) : img.Readable (img.next f n).2 := by
  obtain ⟨hopen, ⟨hops, hin, hpos⟩ | ⟨hops, hpos⟩ | hops⟩ := h
  · rw [next_file hops]
    refine ⟨hopen, Or.inl ⟨hops, hin, ?_⟩⟩
    dsimp only
    rw [List.length_take, List.length_drop, content_length]
    omega
  · rw [next_dir hops]
    split
    · rename_i hlt
      exact ⟨hopen, Or.inr (Or.inl ⟨hops, hlt⟩)⟩
    · exact ⟨hopen, Or.inr (Or.inl ⟨hops, hpos⟩)⟩
  · rw [next_clock hops]
    exact ⟨hopen, Or.inr (Or.inr hops)⟩

theorem entries_of_lt {pos : Nat} (h : pos < img.dirCount) : img.entries pos =
    if img.name pos = [] then [] else img.name pos :: img.entries (pos + 1) := by
  have hlen : pos < img.names.length := by
    unfold names
    rw [List.length_map, List.length_range]
    exact h
  unfold entries
  rw [List.drop_eq_getElem_cons hlen, List.takeWhile_cons]
  have hname : img.names[pos] = img.name pos := by
    simp only [names, List.getElem_map, List.getElem_range]
  rw [hname]
  split <;> simp_all

theorem entries_of_le {pos : Nat} (h : img.dirCount ≤ pos) : img.entries pos = [] := by
  unfold entries names
  rw [List.drop_of_length_le (by rw [List.length_map, List.length_range]; exact h)]
  rfl

/-- A read that returns nothing is the end, and any other returns the next piece of the rest. -/
theorem rest_next (h : img.Readable f) (hn : 0 < n) : img.rest f =
    if (img.next f n).1 = [] then [] else (img.next f n).1 ++ img.rest (img.next f n).2 := by
  have hkind : (img.next f n).2.fileOp = f.fileOp := next_fileOp n
  obtain ⟨_, ⟨hops, _⟩ | ⟨hops, _⟩ | hops⟩ := h
  · rw [rest_file (hkind.trans hops), rest_file hops, next_file hops]
    dsimp only
    generalize (img.content f.inode) = content
    rw [← List.drop_drop]
    generalize content.drop f.pos = text
    rw [List.length_take]
    by_cases hend : text = []
    · rw [hend, List.take_nil, if_pos rfl]
    · rw [if_neg (by rw [List.take_eq_nil_iff]; exact not_or.mpr ⟨by omega, hend⟩)]
      rcases Nat.le_total n text.length with hle | hge
      · rw [Nat.min_eq_left hle, List.take_append_drop]
      · rw [Nat.min_eq_right hge, List.take_of_length_le hge,
          List.drop_of_length_le (Nat.le_refl _), List.append_nil]
  · rw [rest_dir (hkind.trans hops), rest_dir hops, next_dir hops]
    by_cases hlt : f.pos < img.dirCount
    · rw [if_pos hlt, entries_of_lt hlt]
      dsimp only
      split
      · rfl
      · exact List.flatten_cons
    · rw [if_neg hlt, entries_of_le (Nat.le_of_not_lt hlt)]
      rfl
  · rw [next_clock hops]
    unfold rest
    rw [hops]
    rfl

/-- A read of a file returns at most what was asked for. -/
theorem next_length_le (hkind : f.fileOp ≠ .dirOp) (h : img.Readable f) :
    (img.next f n).1.length ≤ n := by
  obtain ⟨_, ⟨hops, _⟩ | ⟨hops, _⟩ | hops⟩ := h
  · rw [next_file hops]
    exact List.length_take_le _ _
  · exact absurd hops hkind
  · rw [next_clock hops]
    exact Nat.zero_le n

/-- A read of a file that returns less than was asked for reaches the end. -/
theorem rest_short (hkind : f.fileOp ≠ .dirOp) (h : img.Readable f)
    (hshort : (img.next f n).1.length < n) : img.rest (img.next f n).2 = [] := by
  have hsame : (img.next f n).2.fileOp = f.fileOp := next_fileOp n
  obtain ⟨_, ⟨hops, _⟩ | ⟨hops, _⟩ | hops⟩ := h
  · rw [rest_file (hsame.trans hops)]
    rw [next_file hops] at hshort ⊢
    dsimp only at hshort ⊢
    rw [← List.drop_drop]
    rw [List.length_take] at hshort ⊢
    refine List.drop_of_length_le ?_
    omega
  · exact absurd hops hkind
  · unfold rest
    rw [hsame, hops]

/-- What is left is the next piece and what is left behind it. -/
theorem rest_eq (hkind : f.fileOp ≠ .dirOp) (h : img.Readable f) (hn : 0 < n) :
    img.rest f = (img.next f n).1 ++ img.rest (img.next f n).2 := by
  rw [rest_next h hn]
  split
  · rename_i hend
    rw [hend, rest_short hkind h (by rw [hend]; exact hn)]
    rfl
  · rfl

/-- Every read that returns something comes nearer to the end. -/
theorem left_next (h : img.Readable f) (hne : (img.next f n).1 ≠ []) :
    img.left (img.next f n).2 < img.left f := by
  have hkind : (img.next f n).2.fileOp = f.fileOp := next_fileOp n
  unfold left
  rw [hkind, next_inode]
  obtain ⟨_, ⟨hops, _, hpos⟩ | ⟨hops, hpos⟩ | hops⟩ := h
  · rw [next_file hops] at hne ⊢
    have hsome := List.length_pos_of_ne_nil hne
    have hlen : (((img.content f.inode).drop f.pos).take n).length ≤
        img.inodeLength f.inode - f.pos := by
      rw [List.length_take, List.length_drop, content_length]
      exact Nat.min_le_right _ _
    rw [hops]
    dsimp only at hsome ⊢
    omega
  · rw [next_dir hops] at hne ⊢
    rw [hops]
    split at hne
    · rename_i hlt
      rw [if_pos hlt]
      dsimp only
      omega
    · exact absurd rfl hne
  · rw [next_clock hops] at hne
    exact absurd rfl hne

end Next

end Image

/-! ## The system calls -/

section Open

variable {img : Image} {k : Kernel} {filename : CString}

/-- A name that opens as nothing is refused. -/
theorem openCall_refuses (h : img.opens filename = none) (dentry : Dentry) :
    openCall img k dentry filename = (-1, k) := by
  rcases openCall_cases img k dentry filename with ⟨ops, hops, _⟩ | ⟨_, heq⟩
  swap
  · exact heq
  obtain ⟨i, hi⟩ := (readDentryByName_found_iff img filename dentry).mp hops.named.2
  have hkind := hops.kind
  have hsize : ¬ (filename.chars.length > 32 ∨ filename.chars = []) := by
    have hlen := hops.named.1
    rw [← List.length_eq_zero_iff]
    omega
  have htype : (readDentryByIndex img i dentry).2.fileType = img.fileType i := by
    unfold readDentryByIndex
    rw [if_neg (Nat.not_le_of_lt hi.listed)]
  rw [readDentryByName_first hi, htype] at hkind
  unfold Image.opens at h
  rw [if_neg hsize, Image.find_eq_some.mpr hi, Option.bind_some, hkind] at h
  exact absurd h (Option.some_ne_none _)

/-- What `open` finds out about a name that opens as `f`. -/
theorem opens_named {f : Fd} (h : img.opens filename = some f) (dentry : Dentry) :
    Named img dentry filename ∧
      openOps (readDentryByName img filename.buf dentry).2.fileType filename = some f.fileOp ∧
      f = openedFd f.fileOp (if f.fileOp = .fileOp then
        (readDentryByName img filename.buf dentry).2.inodeNum else 0) := by
  unfold Image.opens at h
  split at h
  · exact absurd h (Option.some_ne_none f).symm
  rename_i hsize
  obtain ⟨i, hfind, h⟩ := Option.bind_eq_some_iff.mp h
  obtain ⟨ops, hops, rfl⟩ := Option.map_eq_some_iff.mp h
  have hi := Image.find_eq_some.mp hfind
  have hnamed : Named img dentry filename := by
    refine ⟨?_, (readDentryByName_found_iff img filename dentry).mpr ⟨i, hi⟩⟩
    rw [← List.length_eq_zero_iff] at hsize
    omega
  have hentry : (readDentryByName img filename.buf dentry).2.fileType = img.fileType i ∧
      (readDentryByName img filename.buf dentry).2.inodeNum = img.inodeNum i := by
    rw [readDentryByName_first hi]
    unfold readDentryByIndex
    rw [if_neg (Nat.not_le_of_lt hi.listed)]
    exact ⟨rfl, rfl⟩
  rw [hentry.1, hentry.2]
  exact ⟨hnamed, hops, rfl⟩

/-- A name that opens as `f` gets the least free descriptor, and no other changes. -/
theorem openCall_opens {f : Fd} (h : img.opens filename = some f) (dentry : Dentry)
    (hfree : ∃ d, 2 ≤ d ∧ d < 8 ∧ (k.fdAt d).flags = 0) :
    let fd := (k.pcbs (getPcbAddress k)).openFd
    2 ≤ fd ∧ fd < 8 ∧ (openCall img k dentry filename).1 = fd ∧
      ∀ d, (openCall img k dentry filename).2.fdAt d = if d = fd then f else k.fdAt d := by
  obtain ⟨d, hlo, hhi, hd⟩ := hfree
  obtain ⟨hnamed, hkind, hf⟩ := opens_named h dentry
  have hlt : (k.pcbs (getPcbAddress k)).openFd < 8 :=
    (openFd_lt_iff k).mpr ⟨d, hlo, hhi, by rw [hd]; exact Nat.zero_ne_one⟩
  have hopens : OpensAs img k dentry filename f.fileOp := by
    refine ⟨hnamed, ?_, hkind, Or.inr ?_⟩
    · unfold Pcb.flagsAt
      rw [if_pos hlt]
      exact openFd_free hlt
    · exact freeFd_found.mpr ⟨d, hhi, hd⟩
  rcases openCall_cases img k dentry filename with ⟨ops, hops, hfd, rtcA, hkernel⟩ | ⟨hnone, _⟩
  swap
  · exact absurd hopens (hnone _)
  obtain rfl := Option.some.inj (hkind.symm.trans hops.kind)
  refine ⟨(openFd_le _).1, hlt, hfd, fun d => ?_⟩
  rw [hkernel]
  show ((opened k rtcA f.fileOp _).pcbs (getPcbAddress k)).file d = _
  rw [opened_pcbs k rtcA f.fileOp _ hlt, ← hf]
  exact setFd_fdAt k _ _ d

/-- With every descriptor in use, only the clock still opens. -/
theorem openCall_full {f : Fd} (h : img.opens filename = some f) (hkind : f.fileOp ≠ .rtcOp)
    (dentry : Dentry) (hfull : ∀ d, d < 8 → (k.fdAt d).flags = 1) :
    openCall img k dentry filename = (-1, k) := by
  obtain ⟨_, hops, _⟩ := opens_named h dentry
  rcases openCall_cases img k dentry filename with ⟨ops, hopens, _⟩ | ⟨_, heq⟩
  · obtain rfl := Option.some.inj (hops.symm.trans hopens.kind)
    obtain ⟨d, hd, hzero⟩ := freeFd_found.mp (hopens.found.resolve_left hkind)
    have hone : ((k.pcbs (getPcbAddress k)).file d).flags = 1 := hfull d hd
    exact absurd (hzero.symm.trans hone) Nat.zero_ne_one
  · exact heq

/-- What opens is readable from the start. -/
theorem opens_readable (hwf : img.WellFormed) {f : Fd} (h : img.opens filename = some f) :
    img.Readable f ∧ f.pos = 0 := by
  unfold Image.opens at h
  split at h
  · exact absurd h (Option.some_ne_none f).symm
  obtain ⟨i, hfind, h⟩ := Option.bind_eq_some_iff.mp h
  obtain ⟨ops, hops, rfl⟩ := Option.map_eq_some_iff.mp h
  have hi := Image.find_eq_some.mp hfind
  refine ⟨⟨rfl, ?_⟩, rfl⟩
  unfold openOps at hops
  split at hops
  · obtain rfl := Option.some.inj hops
    exact Or.inr (Or.inr rfl)
  split at hops
  · obtain rfl := Option.some.inj hops
    exact Or.inr (Or.inl ⟨rfl, Nat.zero_le _⟩)
  split at hops
  · rename_i htype
    obtain rfl := Option.some.inj hops
    exact Or.inl ⟨rfl, hwf.inodes i hi.listed htype, Nat.zero_le _⟩
  · exact absurd hops (Option.some_ne_none ops).symm

end Open

/-- A read of a descriptor returns the next piece and moves no other descriptor. Behind the piece
    only a directory read changes the buffer. -/
structure ReadsNext (img : Image) (k : Kernel) (fd : Nat) (buf : Buf) (n : Nat) (r : ReadResult) :
    Prop where
  ret : r.ret = ((img.next (k.fdAt fd) n).1.length : Nat)
  bytes : r.buf.take (img.next (k.fdAt fd) n).1.length = (img.next (k.fdAt fd) n).1
  files : ∀ d, r.kernel.fdAt d = if d = fd then (img.next (k.fdAt fd) n).2 else k.fdAt d
  frame : (k.fdAt fd).fileOp ≠ .dirOp →
    SameFrom (img.next (k.fdAt fd) n).1.length buf r.buf

section ReadNext

variable {img : Image} {k : Kernel} {fd n : Nat} {dentry : Dentry} {tail buf : Buf}

theorem read_moves {r : ReadResult} (hr : read img k dentry tail fd (some buf) n = some r) {f : Fd}
    (hf : r.kernel.fdAt fd = f) (d : Nat) :
    r.kernel.fdAt d = if d = fd then f else k.fdAt d := by
  split
  · rename_i hd
    rw [hd, hf]
  · rename_i hd
    exact read_fdAt img k dentry tail fd buf n hr hd

theorem read_next_file (hwf : img.WellFormed) (hops : (k.fdAt fd).fileOp = .fileOp)
    (hin : (k.fdAt fd).inode < img.inodeCount)
    (hpos : (k.fdAt fd).pos ≤ img.inodeLength (k.fdAt fd).inode)
    (hread : read img k dentry tail fd (some buf) n =
      FileOps.fileOp.read img k dentry tail fd buf n) :
    ∃ r, read img k dentry tail fd (some buf) n = some r ∧ ReadsNext img k fd buf n r := by
  have hlen := hwf.lengths _ hin
  have hdata := readData_eq img (k.fdAt fd).inode (k.fdAt fd).pos buf n hin hlen (by
    simp only [datablockSize, absBlockSize] at hlen
    omega)
  obtain ⟨hret, hbytes, hmoved⟩ := readFile_next k fd hin hlen hpos buf n
  have hcount : min n (img.inodeLength (k.fdAt fd).inode - (k.fdAt fd).pos) =
      (img.next (k.fdAt fd) n).1.length := by
    rw [Image.next_file hops]
    dsimp only
    rw [List.length_take, List.length_drop, Image.content_length]
  rw [hcount] at hret hbytes hmoved hdata
  refine ⟨_, hread, hret, ?_, read_moves hread ?_, fun _ i hi => ?_⟩
  · exact hbytes.trans (by rw [Image.next_file hops])
  · exact hmoved.trans (by rw [Image.next_file hops])
  · show (readData img (k.fdAt fd).inode (k.fdAt fd).pos buf n).2 i = _
    rw [hdata]
    exact if_neg (by omega)

theorem read_next_dir (hwf : img.WellFormed) (hops : (k.fdAt fd).fileOp = .dirOp)
    (hn : filenameLen ≤ n) (hread : read img k dentry tail fd (some buf) n =
      FileOps.dirOp.read img k dentry tail fd buf n) :
    ∃ r, read img k dentry tail fd (some buf) n = some r ∧ ReadsNext img k fd buf n r := by
  have hcount := hwf.dirs
  have hentry : FileOps.dirOp.read img k dentry tail fd buf n =
      some (readDir img k dentry tail fd buf n) := rfl
  rw [hentry, readDir_eq] at hread
  by_cases hlt : (k.fdAt fd).pos < img.dirCount
  · rw [if_pos hlt] at hread
    have hnext : img.next (k.fdAt fd) n =
        (img.name (k.fdAt fd).pos, { k.fdAt fd with pos := (k.fdAt fd).pos + 1 }) := by
      rw [Image.next_dir hops, if_pos hlt]
    refine ⟨_, hread, ?_, ?_, ?_, fun hne => absurd hops hne⟩
    all_goals rw [hnext]
    · exact congrArg _ (Image.name_length _).symm
    · dsimp only
      rw [Image.name_length]
      exact copied_name hlt dentry tail _ hn
    · refine read_moves hread ?_
      dsimp only
      rw [setFd_fdAt, if_pos rfl, Nat.mod_eq_of_lt (by omega)]
  · rw [if_neg hlt] at hread
    have hnext : img.next (k.fdAt fd) n = ([], k.fdAt fd) := by
      rw [Image.next_dir hops, if_neg hlt]
    refine ⟨_, hread, ?_, ?_, ?_, fun hne => absurd hops hne⟩
    all_goals rw [hnext]
    · rfl
    · rfl
    · exact read_moves hread rfl

theorem read_next (hwf : img.WellFormed) (hfd : fd < 8) (h : img.Readable (k.fdAt fd))
    (dentry : Dentry) (tail buf : Buf) (hn : (k.fdAt fd).fileOp = .dirOp → filenameLen ≤ n) :
    ∃ r, read img k dentry tail fd (some buf) n = some r ∧ ReadsNext img k fd buf n r := by
  obtain ⟨hopen, hkind⟩ := h
  have hread := read_open img k dentry tail buf n hfd (by rw [hopen]; exact Nat.one_ne_zero)
  obtain ⟨hops, hin, hpos⟩ | ⟨hops, -⟩ | hops := hkind
  · rw [hops] at hread
    exact read_next_file hwf hops hin hpos hread
  · rw [hops] at hread
    exact read_next_dir hwf hops (hn hops) hread
  · rw [hops] at hread
    refine ⟨_, hread, ?_, ?_, ?_, fun _ => ?_⟩
    all_goals rw [Image.next_clock hops]
    · rfl
    · rfl
    · exact read_moves hread rfl
    · exact SameFrom.refl _ _

end ReadNext

end LmaOS
