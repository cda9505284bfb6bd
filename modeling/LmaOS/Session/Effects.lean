import LmaOS.Terminal

/-
  What one call can do to the kernel.

  * `ActsOn pid k k'`: only descriptors and argument of `pid`'s PCB, the screen, the keyboard and
    the RTC may differ. The file system calls act on the PCB `get_pcb_address` finds, and all but
    `open` leave its argument alone (`ActsOnFiles`).
  * `FileCall k k'`: the same for any number of PCBs. The closing loop of `halt` is one.
  * `ClosingRel pid R`: what the closing loop of `halt` keeps, from what one `close` keeps.
  * `execute_exit`: the exits of `execute`, one case each (`ExecuteExit`). `execute_cases` is the
    short form: it fails, with a message and possibly a slot it keeps, or it starts a process
    (`startProcess`).
  * `newPcb_of_fits`: the new PCB, when the argument fits its field.
-/
namespace LmaOS

open Util

/-! ## File system calls -/

def ActsOn (pid : Int) (k k' : Kernel) : Prop :=
  ∃ file arg screen keyboard rtcA, k' =
    { k with
      pcbs := Function.update k.pcbs pid { k.pcbs pid with file := file, arg := arg }
      screen := screen
      keyboard := keyboard
      rtcA := rtcA }

/-- The same with the argument left alone: what every call but `open` does. -/
def ActsOnFiles (pid : Int) (k k' : Kernel) : Prop :=
  ∃ file screen keyboard rtcA, k' =
    { k with
      pcbs := Function.update k.pcbs pid { k.pcbs pid with file := file }
      screen := screen
      keyboard := keyboard
      rtcA := rtcA }

theorem ActsOnFiles.actsOn {pid : Int} {k k' : Kernel} (h : ActsOnFiles pid k k') :
    ActsOn pid k k' := by
  obtain ⟨file, screen, keyboard, rtcA, rfl⟩ := h
  exact ⟨file, (k.pcbs pid).arg, screen, keyboard, rtcA, rfl⟩

theorem actsOnFiles_devices (pid : Int) (k : Kernel) (screen : Screen) (keyboard : Keyboard)
    (rtcA : Nat) :
    ActsOnFiles pid k { k with screen := screen, keyboard := keyboard, rtcA := rtcA } :=
  ⟨(k.pcbs pid).file, screen, keyboard, rtcA, by
    rw [show { k.pcbs pid with file := (k.pcbs pid).file } = k.pcbs pid from rfl,
      Function.update_eq_self]⟩

theorem ActsOnFiles.refl (pid : Int) (k : Kernel) : ActsOnFiles pid k k :=
  actsOnFiles_devices pid k k.screen k.keyboard k.rtcA

theorem actsOnFiles_file (pid : Int) (k : Kernel) (file : Nat → Fd) :
    ActsOnFiles pid k (k.setPcb pid { k.pcbs pid with file := file }) :=
  ⟨file, k.screen, k.keyboard, k.rtcA, rfl⟩

theorem ActsOn.refl (pid : Int) (k : Kernel) : ActsOn pid k k := (ActsOnFiles.refl pid k).actsOn

theorem ActsOn.trans {pid : Int} {k k' k'' : Kernel} (h : ActsOn pid k k')
    (h' : ActsOn pid k' k'') : ActsOn pid k k'' := by
  obtain ⟨file, arg, screen, keyboard, rtcA, rfl⟩ := h
  obtain ⟨file', arg', screen', keyboard', rtcA', rfl⟩ := h'
  refine ⟨file', arg', screen', keyboard', rtcA', ?_⟩
  dsimp only
  rw [Function.update_idem, Function.update_self]

/-- The running process stays the same. -/
theorem ActsOn.getPcbAddress {pid : Int} {k k' : Kernel} (h : ActsOn pid k k') :
    getPcbAddress k' = LmaOS.getPcbAddress k := by
  obtain ⟨file, arg, screen, keyboard, rtcA, rfl⟩ := h
  rfl

theorem ActsOn.others {pid p : Int} {k k' : Kernel} (h : ActsOn pid k k') (hne : p ≠ pid) :
    k'.pcbs p = k.pcbs p := by
  obtain ⟨file, arg, screen, keyboard, rtcA, rfl⟩ := h
  exact Function.update_of_ne hne _ _

theorem actsOn_setFile (pid : Int) (k : Kernel) (rtcA : Nat) (fd : Nat) (f : Fd) :
    ActsOn pid k ({ k with rtcA := rtcA }.setPcb pid ((k.pcbs pid).setFile fd f)) := by
  unfold Pcb.setFile
  split
  · exact ⟨_, (k.pcbs pid).arg, k.screen, k.keyboard, rtcA, rfl⟩
  · exact ⟨(k.pcbs pid).file, _, k.screen, k.keyboard, rtcA, rfl⟩

theorem setFrequency_snd (k : Kernel) (f : Int) :
    ∃ rtcA, (setFrequency k f).2 = { k with rtcA := rtcA } := by
  unfold setFrequency
  split
  · exact ⟨_, rfl⟩
  · exact ⟨k.rtcA, rfl⟩

theorem close_actsOnFiles (k : Kernel) (fd : Int) :
    ActsOnFiles (getPcbAddress k) k (close k fd).2 := by
  unfold close
  split
  · exact .refl _ k
  · dsimp only
    split
    · exact .refl _ k
    · exact actsOnFiles_file _ k _

theorem openCall_actsOn (img : Image) (k : Kernel) (d : Dentry) (filename : CString) :
    ActsOn (getPcbAddress k) k (openCall img k d filename).2 := by
  obtain ⟨rtcA, hrtc⟩ := setFrequency_snd k 2
  have hopen : (rtcOpen k).2 = { k with rtcA := rtcA } := hrtc
  have hsame : k = { k with rtcA := k.rtcA } := rfl
  have hrefl := ActsOn.refl (getPcbAddress k) k
  unfold openCall
  dsimp only
  split
  · exact hrefl
  · split
    · exact hrefl
    · split
      · -- a descriptor is free: by the entry's type
        split
        · split
          · rw [hopen]; exact actsOn_setFile _ k rtcA _ _
          · rw [hopen]; exact (actsOnFiles_devices _ k k.screen k.keyboard rtcA).actsOn
        · split
          · split
            · exact actsOn_setFile _ k k.rtcA _ _
            · exact hrefl
          · split
            · split
              · exact actsOn_setFile _ k k.rtcA _ _
              · exact hrefl
            · exact hrefl
      · exact hrefl

theorem fileOpsRead_actsOnFiles (ops : FileOps) (img : Image) (k : Kernel) (d : Dentry) (tail : Buf)
    (fd : Nat) (buf : Buf) (nbytes : Nat) {r : ReadResult}
    (h : ops.read img k d tail fd buf nbytes = some r) :
    ActsOnFiles (getPcbAddress k) k r.kernel := by
  cases ops <;> simp only [FileOps.read, Option.some.injEq] at h
  case fileOp => subst h; exact actsOnFiles_file _ k _
  case rtcOp => subst h; exact .refl _ k
  case dirOp =>
    subst h
    unfold readDir
    dsimp only
    split
    · exact actsOnFiles_file _ k _
    · exact .refl _ k
  case stdinOp =>
    unfold terminalRead at h
    dsimp only at h
    split at h
    · cases h; exact .refl _ k
    · split at h
      · cases h; exact actsOnFiles_devices _ k k.screen _ k.rtcA
      · cases h
  case stdoutOp => subst h; exact .refl _ k
  case doNothing => subst h; exact .refl _ k

theorem read_actsOnFiles (img : Image) (k : Kernel) (d : Dentry) (tail : Buf) (fd : Int)
    (buf : Option Buf) (nbytes : Int) {r : ReadResult}
    (h : read img k d tail fd buf nbytes = some r) :
    ActsOnFiles (getPcbAddress k) k r.kernel := by
  unfold read at h
  split at h
  · cases h; exact .refl _ k
  · split at h
    · cases h; exact .refl _ k
    · dsimp only at h
      split at h
      · cases h; exact .refl _ k
      · exact fileOpsRead_actsOnFiles _ img k d tail _ _ _ h

theorem fileOpsWrite_actsOnFiles (ops : FileOps) (k : Kernel) (pid : Int) (fd : Nat) (buf : Buf)
    (nbytes : Nat) : ActsOnFiles pid k (ops.write k fd buf nbytes).2 := by
  obtain ⟨rtcA, hrtc⟩ := setFrequency_snd k (int32 (buf.word 0))
  cases ops <;> simp only [FileOps.write]
  case rtcOp =>
    unfold rtcWrite
    dsimp only
    split
    · exact .refl _ k
    · split
      all_goals rw [hrtc]; exact actsOnFiles_devices _ k k.screen k.keyboard rtcA
  case stdoutOp =>
    unfold terminalWrite
    dsimp only
    split
    · exact .refl _ k
    · exact actsOnFiles_devices _ k _ _ k.rtcA
  all_goals exact .refl _ k

/-- `write` acts on no PCB, so `pid` can be any. -/
theorem write_actsOnFiles (k : Kernel) (pid : Int) (fd : Int) (buf : Option Buf) (nbytes : Int) :
    ActsOnFiles pid k (write k fd buf nbytes).2 := by
  unfold write
  split
  · exact .refl _ k
  · split
    · exact .refl _ k
    · dsimp only
      split
      · exact .refl _ k
      · exact fileOpsWrite_actsOnFiles _ k pid _ _ _

/-! ## The closing loop -/

def FileCall (k k' : Kernel) : Prop :=
  ∃ pcbs screen keyboard rtcA,
    k' = { k with pcbs := pcbs, screen := screen, keyboard := keyboard, rtcA := rtcA } ∧
      ∀ p, ∃ file arg, pcbs p = { k.pcbs p with file := file, arg := arg }

theorem FileCall.refl (k : Kernel) : FileCall k k :=
  ⟨k.pcbs, k.screen, k.keyboard, k.rtcA, rfl, fun p => ⟨(k.pcbs p).file, (k.pcbs p).arg, rfl⟩⟩

theorem FileCall.trans {k k' k'' : Kernel} (h : FileCall k k') (h' : FileCall k' k'') :
    FileCall k k'' := by
  obtain ⟨pcbs, screen, keyboard, rtcA, rfl, hp⟩ := h
  obtain ⟨pcbs', screen', keyboard', rtcA', rfl, hp'⟩ := h'
  refine ⟨pcbs', screen', keyboard', rtcA', rfl, fun p => ?_⟩
  obtain ⟨file, arg, he⟩ := hp p
  obtain ⟨file', arg', he'⟩ := hp' p
  refine ⟨file', arg', ?_⟩
  rw [he']
  dsimp only
  rw [he]

theorem ActsOn.fileCall {pid : Int} {k k' : Kernel} (h : ActsOn pid k k') : FileCall k k' := by
  obtain ⟨file, arg, screen, keyboard, rtcA, rfl⟩ := h
  refine ⟨_, screen, keyboard, rtcA, rfl, fun p => ?_⟩
  rw [Function.update_apply]
  split
  · subst p; exact ⟨file, arg, rfl⟩
  · exact ⟨(k.pcbs p).file, (k.pcbs p).arg, rfl⟩

/-- What a call of `close` and the change of an operation table do to the kernel. -/
structure ClosingRel (pid : Int) (R : Kernel → Kernel → Prop) : Prop where
  refl : ∀ k, R k k
  trans : ∀ {k k' k''}, R k k' → R k' k'' → R k k''
  closed : ∀ k fd, R k (close k fd).2
  disabled : ∀ k i, R k (k.setPcb pid { k.pcbs pid with
    file := Function.update (k.pcbs pid).file i { (k.pcbs pid).file i with
      fileOp := .doNothing } })

theorem ClosingRel.closeStep {pid : Int} {R : Kernel → Kernel → Prop} (h : ClosingRel pid R)
    (k : Kernel) (i : Nat) : R k (closeStep pid k i) := by
  have hclose : R k
      (if i > 1 ∧ ((k.pcbs pid).file i).flags = 1 then (close k i).2 else k) := by
    split
    · exact h.closed k i
    · exact h.refl k
  exact h.trans hclose (h.disabled _ i)

theorem ClosingRel.closeSteps {pid : Int} {R : Kernel → Kernel → Prop} (h : ClosingRel pid R)
    (is : List Nat) (k : Kernel) : R k (is.foldl (LmaOS.closeStep pid) k) := by
  induction is generalizing k with
  | nil => exact h.refl k
  | cons i is ih => exact h.trans (h.closeStep k i) (ih _)

theorem fileCall_closingRel (pid : Int) : ClosingRel pid FileCall where
  refl := FileCall.refl
  trans := FileCall.trans
  closed := fun k fd => (close_actsOnFiles k fd).actsOn.fileCall
  disabled := fun k _ => (actsOnFiles_file pid k _).actsOn.fileCall

/-! ## execute -/

/-- The messages of the failing exits of `execute`. -/
def executeErrors : List String :=
  ["execute error: command error\n", "execute: no available process(es)\n",
    "execute error: filename too long\n", "execute error: file not found\n",
    "execute error: file not an executable\n"]

/-- The first free slot is taken. -/
def Kernel.claimed (k : Kernel) : Kernel :=
  { k with shellFlag := 1, processState := Function.update k.processState k.freePid 1 }

/-- What a failing `execute` makes of the slots: nothing, or the first free slot stays taken, or
    is taken and given back. -/
def SlotsAfterError (k : Kernel) (states : Int → Nat) : Prop :=
  states = k.processState ∨
    k.allActive = false ∧ (states = Function.update k.processState k.freePid 1 ∨
      states = Function.update (Function.update k.processState k.freePid 1) k.freePid 0)

/-- `execute` failed. -/
def ExecuteFailed (k : Kernel) (r : Kernel × Option Int) : Prop :=
  ∃ message ∈ executeErrors, ∃ states, SlotsAfterError k states ∧
    r = ({ k with shellFlag := 1, processState := states, screen := k.screen.printf message }, none)

/-- `execute` started the process in the first free slot. -/
def ExecuteStarted (k : Kernel) (l : Locals) (command : Option CString)
    (r : Kernel × Option Int) : Prop :=
  ∃ cmd name arg fileData nbytes, command = some cmd ∧ parse cmd = some (name, arg) ∧
    k.allActive = false ∧ k.term.numProc ≤ 3 ∧
      r = (startProcess k.claimed l.regs k.freePid name arg fileData nbytes, some (k.freePid : Int))

/-- The slot that was taken is given back. -/
def Kernel.released (k : Kernel) : Kernel :=
  { k.claimed with processState := Function.update k.claimed.processState k.freePid 0 }

/-- The exits of `execute` in the order of the source, with what was found on the way. -/
inductive ExecuteExit (img : Image) (k : Kernel) (l : Locals) :
    Option CString → Kernel × Option Int → Prop where
  | noCommand {command : Option CString} (h : ∀ cmd ∈ command, cmd.chars = []) :
      ExecuteExit img k l command
        ({ k with shellFlag := 1 }.printf "execute error: command error\n", none)
  | noSlot {cmd : CString} (h : k.allActive = true ∨ 3 < k.term.numProc) :
      ExecuteExit img k l (some cmd)
        ({ k with shellFlag := 1 }.printf "execute: no available process(es)\n", none)
  | nameTooLong {cmd : CString} (hfree : k.allActive = false) (hroom : k.term.numProc ≤ 3)
      (hparse : parse cmd = none) : ExecuteExit img k l (some cmd)
        (k.claimed.printf "execute error: filename too long\n", none)
  | notFound {cmd : CString} {name arg : List UInt8} (hfree : k.allActive = false)
      (hparse : parse cmd = some (name, arg))
      (hfound : (readDentryByName img (Buf.ofList name) l.dentry).1 = -1) :
      ExecuteExit img k l (some cmd)
        (k.released.printf "execute error: file not found\n", none)
  | notExecutable {cmd : CString} {name arg : List UInt8} (hfree : k.allActive = false)
      (hparse : parse cmd = some (name, arg))
      (hmagic : strncmp (readData img (readDentryByName img (Buf.ofList name) l.dentry).2.inodeNum 0
        l.fileData img.lenInodes).2 exeIdentifier 4 ≠ 0) :
      ExecuteExit img k l (some cmd)
        (k.released.printf "execute error: file not an executable\n", none)
  | started {cmd : CString} {name arg : List UInt8} {r : Nat × Buf} (hchars : cmd.chars ≠ [])
      (hfree : k.allActive = false) (hroom : k.term.numProc ≤ 3)
      (hparse : parse cmd = some (name, arg))
      (hfound : (readDentryByName img (Buf.ofList name) l.dentry).1 ≠ -1)
      (hread : readData img (readDentryByName img (Buf.ofList name) l.dentry).2.inodeNum 0
        l.fileData img.lenInodes = r)
      (hmagic : strncmp r.2 exeIdentifier 4 = 0) :
      ExecuteExit img k l (some cmd)
        (startProcess k.claimed l.regs k.freePid name arg r.2 (r.1 % 65536),
          some (k.freePid : Int))

theorem execute_exit (img : Image) (k : Kernel) (l : Locals) (command : Option CString) :
    ExecuteExit img k l command (execute img k l command) := by
  unfold execute
  dsimp only
  cases command with
  | none => exact .noCommand fun _ h => nomatch h
  | some cmd =>
    dsimp only
    split
    · rename_i hnil
      exact .noCommand fun _ h => Option.some.inj h ▸ hnil
    · rename_i hchars
      split
      · rename_i hactive
        exact .noSlot (Or.inl hactive)
      · rename_i hfree
        have hfree : k.allActive = false := Bool.eq_false_iff.mpr hfree
        split
        · rename_i hroom
          exact .noSlot (Or.inr hroom)
        · rename_i hroom
          have hroom : k.term.numProc ≤ 3 := Int.not_lt.mp hroom
          cases hparse : parse cmd with
          | none => exact .nameTooLong hfree hroom hparse
          | some parsed =>
            obtain ⟨name, arg⟩ := parsed
            dsimp only
            split
            · rename_i hfound
              exact .notFound hfree hparse hfound
            · rename_i hfound
              split
              · rename_i hmagic
                exact .notExecutable hfree hparse hmagic
              · rename_i hmagic
                exact .started hchars hfree hroom hparse hfound rfl (not_not.mp hmagic)

theorem execute_cases (img : Image) (k : Kernel) (l : Locals) (command : Option CString) :
    ExecuteFailed k (execute img k l command) ∨
      ExecuteStarted k l command (execute img k l command) := by
  have hexit := execute_exit img k l command
  generalize execute img k l command = r at hexit
  cases hexit with
  | noCommand _ => exact Or.inl ⟨_, by simp [executeErrors], _, Or.inl rfl, rfl⟩
  | noSlot _ => exact Or.inl ⟨_, by simp [executeErrors], _, Or.inl rfl, rfl⟩
  | nameTooLong hfree _ _ =>
    exact Or.inl ⟨_, by simp [executeErrors], _, Or.inr ⟨hfree, Or.inl rfl⟩, rfl⟩
  | notFound hfree _ _ =>
    exact Or.inl ⟨_, by simp [executeErrors], _, Or.inr ⟨hfree, Or.inr rfl⟩, rfl⟩
  | notExecutable hfree _ _ =>
    exact Or.inl ⟨_, by simp [executeErrors], _, Or.inr ⟨hfree, Or.inr rfl⟩, rfl⟩
  | started _ hfree hroom hparse _ _ _ =>
    exact Or.inr ⟨_, _, _, _, _, rfl, hparse, hfree, hroom, rfl⟩

/-- What a successful `execute` found, and the state it leaves for user mode in. -/
theorem execute_started {img : Image} {k : Kernel} {l : Locals} {command : Option CString}
    {pid : Int} (h : (execute img k l command).2 = some pid) :
    ∃ cmd name arg, command = some cmd ∧ parse cmd = some (name, arg) ∧
      k.allActive = false ∧ k.term.numProc ≤ 3 ∧ pid = k.freePid ∧
      (readDentryByName img (Buf.ofList name) l.dentry).1 ≠ -1 ∧
      let r := readData img (readDentryByName img (Buf.ofList name) l.dentry).2.inodeNum 0
        l.fileData img.lenInodes
      strncmp r.2 exeIdentifier 4 = 0 ∧
        (execute img k l command).1 =
          startProcess k.claimed l.regs k.freePid name arg r.2 (r.1 % 65536) := by
  have hexit := execute_exit img k l command
  generalize execute img k l command = r at h hexit ⊢
  cases hexit with
  | started _ hfree hroom hparse hfound hread hmagic =>
    subst hread
    exact ⟨_, _, _, rfl, hparse, hfree, hroom, (Option.some.inj h).symm, hfound, hmagic, rfl⟩
  | _ => exact absurd h.symm (Option.some_ne_none pid)

/-! ## The started process -/

/-- All slots are marked free or in use. -/
def Kernel.SlotsMarked (k : Kernel) : Prop := ∀ p, k.processState p = 0 ∨ k.processState p = 1

theorem freePid_spec {k : Kernel} (hm : k.SlotsMarked) (hfree : k.allActive = false) :
    k.freePid < 6 ∧ k.processState k.freePid = 0 := by
  have hlt : k.freePid < 6 := by
    rcases Nat.lt_or_eq_of_le (firstIdx_le (fun i => decide (k.processState i = 0)) 6)
      with h | h
    · exact h
    · refine absurd hfree ?_
      rw [Bool.not_eq_false]
      unfold Kernel.allActive
      rw [List.all_eq_true]
      intro i hi
      have hne : decide (k.processState i = 0) = false :=
        firstIdx_min (p := fun i : Nat => decide (k.processState i = 0)) (n := 6)
          (by rw [h]; exact List.mem_range.mp hi)
      rw [decide_eq_false_iff_not] at hne
      exact decide_eq_true ((hm i).resolve_left hne)
  have hz := firstIdx_spec (p := fun i : Nat => decide (k.processState i = 0)) hlt
  exact ⟨hlt, of_decide_eq_true hz⟩

section NewTerminals

variable (k : Kernel) (pid : Int) (u : Fin 3)

/-- The running terminal's record changes in `term_proc` only. -/
theorem newTerminals_apply : ∃ proc, k.newTerminals pid u =
    { (if u = k.curTerm then
        { k.term with
          processes := k.term.enlist pid
          firstRun := false
          numProc := k.term.numProc + 1 } else k.terminals u) with termProc := proc } := by
  unfold Kernel.newTerminals
  simp only [Function.update_apply]
  by_cases hu : u = k.curTerm
  · by_cases hr : u = k.runningTerm
    · exact ⟨some pid, by rw [if_pos hr, if_pos hu, ← hr, if_pos hu]⟩
    · exact ⟨some pid, by rw [if_neg hr, if_pos hu, if_pos hu]⟩
  · by_cases hr : u = k.runningTerm
    · exact ⟨some pid, by rw [if_pos hr, if_neg hu, ← hr, if_neg hu]⟩
    · exact ⟨(k.terminals u).termProc, by rw [if_neg hr, if_neg hu, if_neg hu]⟩

theorem newTerminals_processes : (k.newTerminals pid u).processes =
    if u = k.curTerm then k.term.enlist pid else (k.terminals u).processes := by
  obtain ⟨proc, h⟩ := newTerminals_apply k pid u
  rw [h]
  split <;> rfl

theorem newTerminals_numProc : (k.newTerminals pid u).numProc =
    if u = k.curTerm then k.term.numProc + 1 else (k.terminals u).numProc := by
  obtain ⟨proc, h⟩ := newTerminals_apply k pid u
  rw [h]
  split <;> rfl

theorem newTerminals_firstRun : (k.newTerminals pid u).firstRun =
    if u = k.curTerm then false else (k.terminals u).firstRun := by
  obtain ⟨proc, h⟩ := newTerminals_apply k pid u
  rw [h]
  split <;> rfl

end NewTerminals

/-- A word whose overlay is empty. -/
theorem overlayWord_nil (w : Nat) : overlayWord w [] = w % 4294967296 := by
  have hb : ∀ n : Nat, (UInt8.ofNat (n % 256)).toNat = n % 256 := by
    intro n
    rw [UInt8.toNat_ofNat']
    omega
  unfold overlayWord Buf.word
  simp only [List.length_nil, Nat.not_lt_zero, if_false, wordByte, hb]
  omega

theorem int32_overlayWord_nil {z : Int} (hlo : 0 ≤ z) (hhi : z < 2147483648) :
    int32 (overlayWord (word32 z) []) = z := by
  rw [overlayWord_nil]
  unfold int32 word32
  split <;> omega

/-- The descriptors of a new process: 0 and 1 set up, the others as they were. -/
def newFiles (file : Nat → Fd) : Nat → Fd :=
  let file := Function.update file 0 { file 0 with flags := 1, fileOp := .stdinOp, pos := 0 }
  Function.update file 1 { file 1 with flags := 1, fileOp := .stdoutOp, pos := 0 }

theorem newPcb_file (k : Kernel) (regs : Regs) (pid : Int) (arg : List UInt8) :
    (k.newPcb regs pid arg).file = newFiles (k.pcbs pid).file := rfl

theorem newPcb_regs (k : Kernel) (regs : Regs) (pid : Int) (arg : List UInt8) :
    (k.newPcb regs pid arg).parentEbp = regs.ebp ∧
      (k.newPcb regs pid arg).parentEsp = regs.esp := ⟨rfl, rfl⟩

/-- An argument that fits its field leaves `pid` and `parent_pid` alone. -/
theorem newPcb_of_fits (k : Kernel) (regs : Regs) {pid : Int} {arg : List UInt8}
    (harg : arg.length ≤ cmdLen) (hpid : 0 ≤ pid ∧ pid < 2147483648)
    (hparent : 0 ≤ k.newParent pid ∧ k.newParent pid < 2147483648) :
    (k.newPcb regs pid arg).pid = pid ∧ (k.newPcb regs pid arg).parentPid = k.newParent pid := by
  have hdrop : ∀ n, 132 ≤ n → (arg ++ [0]).drop n = [] := by
    intro n hn
    rw [List.drop_eq_nil_iff, List.length_append, List.length_singleton]
    simp only [cmdLen] at harg
    omega
  constructor
  · have h : (k.newPcb regs pid arg).pid =
        int32 (overlayWord (word32 pid) ((arg ++ [0]).drop 132)) := rfl
    rw [h, hdrop 132 (by decide), int32_overlayWord_nil hpid.1 hpid.2]
  · have h : (k.newPcb regs pid arg).parentPid =
        int32 (overlayWord (word32 (k.newParent pid)) ((arg ++ [0]).drop 136)) := rfl
    rw [h, hdrop 136 (by decide), int32_overlayWord_nil hparent.1 hparent.2]

end LmaOS
