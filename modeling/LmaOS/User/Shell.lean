import LmaOS.Exec.Failure
import LmaOS.User.Execute

/-
  The shell (ece391shell.c).

  `dialogue` is what a session at the shell is for: the user sees the text printed so far, types a
  line, and the shell prints what the command prints and a verdict on its status. A user is any
  function from the text seen to the line typed, and `command` says what the commands do: `cat` and
  `ls` as their sources say, and names that are not in the directory.

  `shell_dialogue`: the shell, `execute`, `halt` and the programs together print the text of the
  dialogue, for every user and every session that ends with "exit". The number of closed
  descriptors that the processes before left in their slot is a part of the state of the dialogue.
-/
namespace LmaOS

open Util User

namespace User

variable (m : Host) (code : Buf → Task World Ending)

/-! ## The program -/

/-- The end of a round. -/
def shellReport (rval : Int) : Task World Unit :=
  if rval = -1 then ece391Fdputs m 1 (literal "no such command\n")
  else if rval = 256 then ece391Fdputs m 1 (literal "program terminated by exception\n")
  else if rval ≠ 0 then ece391Fdputs m 1 (literal "program terminated abnormally\n")
  else pure ()

def shellLoop (buf : Buf) : Task World (Buf ⊕ Int) := do
  ece391Fdputs m 1 (literal "391OS> ")
  let r ← ece391Read m 0 buf 1023
  if r.1 = -1 then
    ece391Fdputs m 1 (literal "read from keyboard failed\n")
    pure (.inr 3)
  else
    let cnt := if r.1 > 0 ∧ r.2 (r.1 - 1).toNat = 0x0A then r.1 - 1 else r.1
    let buf := Function.update r.2 cnt.toNat 0
    if ece391Strcmp buf (literal "exit") = 0 then pure (.inr 0)
    else if buf 0 = 0 then pure (.inl buf)
    else
      let rval ← ece391Execute m code buf
      shellReport m rval
      pure (.inl buf)

def shell (buf : Buf) : Task World Int := do
  ece391Fdputs m 1 (literal "Starting 391 Shell\n")
  Task.loop (shellLoop m code) buf

end User

/-! ## What it is for -/

def prompt : List UInt8 := bytes "391OS> "

/-- What the shell says to the value of a command. -/
def verdict (r : Int) : List UInt8 :=
  if r = -1 then bytes "no such command\n"
  else if r = 256 then bytes "program terminated by exception\n"
  else if r ≠ 0 then bytes "program terminated abnormally\n"
  else []

/-- The text of a session of at most `k` lines. `c n line` is the outcome of a command in a slot
    with `n` closed descriptors; `none` if nothing is said about it. -/
def dialogue (user : List UInt8 → CString) (c : Nat → CString → Option Outcome) :
    Nat → Nat → List UInt8 → Option (List UInt8)
  | 0, _, _ => none
  | k + 1, n, seen =>
    let seen := seen ++ prompt
    let line := user seen
    if line.chars = bytes "exit" then some seen
    else if line.chars = [] then dialogue user c k n seen
    else (c n line).bind fun o => dialogue user c k o.left (seen ++ o.text ++ verdict o.status)

/-- The clock is opened differently, and nothing is said about it. -/
def openingCommand (opened : Option Fd) (full done : List UInt8 × Int)
    (n : Nat) : Option Outcome :=
  if opened.map Fd.fileOp = some .rtcOp then none else some (openingOutcome opened full done n)

/-- The commands of an image with `cat` and `ls`. -/
def Image.command (img : Image) (n : Nat) (line : CString) : Option Outcome :=
  (parse line).bind fun parsed =>
    if h : 0 ∈ parsed.2 then none
    else
      let arg : CString := ⟨parsed.2, h⟩
      if parsed.1 = bytes "cat" then
        openingCommand (img.catOpens arg) (bytes "file not found\n", 2) (img.catText arg) n
      else if parsed.1 = bytes "ls" then
        openingCommand (img.opens dot) (bytes "directory open failed\n", 2) img.lsText n
      else if parsed.1 ≠ [] ∧ ∀ i, i < img.dirCount → img.name i ≠ parsed.1 then
        some ⟨bytes "execute error: file not found\n", -1, n⟩
      else none

/-- At every prompt the user has typed the next line and Enter. -/
def Attended (m : Host) (w₀ : World) (user : List UInt8 → CString) : Prop :=
  ∀ w seen, w.printed = w₀.printed ++ (seen ++ prompt) →
    (m.enter w).keyboard.enterFlag = 1 ∧
      (m.enter w).keyboard.kbBuffer.text 127 = (user (seen ++ prompt)).chars

namespace User

/-! ## Reading a line -/

section Line

variable {m : Host} {w w₀ : World} {files : Nat → Fd} {out : List UInt8}

/-- A read of the keyboard with Enter pressed: 128 bytes, of which the last is a newline. -/
theorem ensures_keyboard (h : w.At m w₀ files out)
    (hin : (files 0).flags = 1 ∧ (files 0).fileOp = .stdinOp)
    (henter : (m.enter w).keyboard.enterFlag = 1) (buf : Buf) :
    (ece391Read m 0 buf 1023).Ensures w fun r w' => r.1 = 128 ∧ r.2 127 = 0x0A ∧
      (∀ i, i < 127 → r.2 i = (m.enter w).keyboard.kbBuffer i) ∧ w'.At m w₀ files out := by
  obtain ⟨hopen, hops⟩ := hin
  rw [← h.entered] at hopen hops
  have hread : read m.img (m.enter w) (m.before w).dentry (m.before w).tail 0 (some buf) 1023 =
      terminalRead (m.enter w) buf 1023 := by
    unfold Kernel.fdAt at hopen hops
    unfold read
    dsimp only
    rw [if_neg (by omega), Int.toNat_zero, hopen, if_neg Nat.one_ne_zero, hops]
    rfl
  rw [terminalRead_eq buf (by decide) henter] at hread
  have hacts := (read_actsOnFiles m.img _ _ _ _ _ _ hread).actsOn
  refine Task.Ensures.of (congrArg (Option.map _) hread) ⟨rfl, rfl, fun i hi => ?_,
    h.silent hacts h.entered rfl⟩
  exact if_pos (show i + 1 < 128 by omega)

/-- The line of a keyboard buffer: up to 127 characters, with the NUL the shell puts behind. -/
theorem line_spells {b kb : Buf} (h : ∀ i, i < 127 → b i = kb i) :
    Buf.Spells (Function.update b 127 0) (kb.text 127) := by
  have hle : kb.textLength 127 ≤ 127 := Buf.textLength_le
  have hlen : (kb.text 127).length = kb.textLength 127 := Buf.take_length _ _
  refine ⟨fun hmem => ?_, Buf.startsWith_append.mpr ⟨fun i hi => ?_, ?_⟩⟩
  · obtain ⟨i, hi, hzero⟩ := List.mem_map.mp hmem
    exact Buf.textLength_ne (List.mem_range.mp hi) hzero
  · rw [Function.update_of_ne (by omega), h i (by omega)]
    exact Buf.take_startsWith kb _ i hi
  · refine Buf.startsWith_cons.mpr ⟨?_, Buf.startsWith_nil⟩
    show Function.update b 127 0 ((kb.text 127).length + 0) = 0
    rw [hlen, Nat.add_zero, Function.update_apply]
    split
    · rfl
    · rename_i hne
      rw [h _ (by omega)]
      exact Buf.textLength_end (by omega)

end Line

end User

/-! ## The shell's world -/

/-- Process `p` has its terminal and its keyboard, and is ready to execute a program. -/
structure World.Serving (w : World) (p : Int) (below : List Int) (slot n : Nat) : Prop where
  ready : w.Ready p below slot n
  keyboard : (w.kernel.fdAt 0).flags = 1 ∧ (w.kernel.fdAt 0).fileOp = .stdinOp
  terminal : (w.kernel.fdAt 1).IsTerminal

section Serving

variable {m : Host} {w w' : World} {p : Int} {below : List Int} {slot n n' : Nat}

theorem World.Ready.pcbAddress (h : w.Ready p below slot n) : getPcbAddress w.kernel = p := by
  obtain ⟨a, hruns⟩ := h.runs
  exact hruns.pcbAddress

/-- Calls on open files change nothing of it. -/
theorem World.Serving.calls (h : w.Serving p below slot n) {out : List UInt8}
    (hat : w'.At m w w.kernel.fdAt out) : w'.Serving p below slot n := by
  obtain ⟨a, hruns⟩ := h.ready.runs
  have haddr := h.ready.pcbAddress
  have hacts := hat.acts
  rw [haddr] at hacts
  have haddr' : getPcbAddress w'.kernel = p := hacts.getPcbAddress.trans haddr
  have hslots := hacts.fileCall.sameTables.processState
  refine ⟨⟨⟨a, hruns.refines.same hacts.fileCall.sameTables, hruns.current,
    (fileCall_exceptionStatus hacts.fileCall).trans hruns.quiet⟩, ?_, ?_, ?_, ?_⟩, ?_, ?_⟩
  · unfold Kernel.allActive
    rw [hslots]
    exact h.ready.free
  · rw [← h.ready.next]
    unfold Kernel.freePid
    rw [hslots]
  · intro d hhi hlo
    have hsame := hat.files d
    unfold Kernel.fdAt at hsame
    rw [haddr, haddr'] at hsame
    rw [hsame]
    exact h.ready.closed d hhi hlo
  · rw [hacts.others (Ne.symm h.ready.other)]
    exact h.ready.spare
  · rw [hat.files]
    exact h.keyboard
  · rw [hat.files]
    exact h.terminal

/-- So does a program, but for the descriptors of its slot. -/
theorem World.Serving.ran (h : w.Serving p below slot n) (hpcb : w'.kernel.pcbs p = w.kernel.pcbs p)
    (hready : w'.Ready p below slot n') : w'.Serving p below slot n' := by
  have hfiles : w'.kernel.fdAt = w.kernel.fdAt := by
    unfold Kernel.fdAt
    rw [hready.pcbAddress, h.ready.pcbAddress, hpcb]
  exact ⟨hready, by rw [hfiles]; exact h.keyboard, by rw [hfiles]; exact h.terminal⟩

end Serving

/-! ## The commands -/

/-- `cat` and `ls` are installed. -/
structure HasPrograms (m : Host) (code : Buf → Task World Ending) : Prop where
  cat : ∃ i, Installed m.img code (bytes "cat") (User.cat m) i
  ls : ∃ i, Installed m.img code (bytes "ls") (User.ls m) i

section Commands

variable {m : Host} {code : Buf → Task World Ending} {w : World} {p : Int} {below : List Int}
  {slot n : Nat} {command : Buf} {o : Outcome}

/-- An argument is not longer than its command. -/
theorem parse_length {cmd : CString} {name arg : List UInt8} (h : parse cmd = some (name, arg)) :
    arg.length ≤ cmd.chars.length := by
  rw [parse_eq] at h
  split at h
  · exact absurd h.symm (Option.some_ne_none _)
  · obtain ⟨rfl, rfl⟩ := Prod.mk.inj (Option.some.inj h)
    exact ((List.dropWhile_suffix _).trans
      ((List.dropWhile_suffix _).trans (List.dropWhile_suffix _))).length_le

/-- A name that is not in the directory. -/
theorem missing_run (h : w.Ready p below slot n) (hroom : below.length ≤ 2)
    {name arg : List UInt8} (hparse : parse (cstring command) = some (name, arg))
    (hname : name ≠ []) (hmissing : ∀ i, i < m.img.dirCount → m.img.name i ≠ name) :
    (ece391Execute m code command).Ensures w fun r w' => r = -1 ∧
      w'.Shown m w (bytes "execute error: file not found\n") ∧
      w'.kernel.pcbs p = w.kernel.pcbs p ∧ w'.Ready p below slot n := by
  obtain ⟨a, hruns⟩ := h.runs
  obtain ⟨hnul, hlen, _⟩ := parse_parts hparse
  have hchars : (cstring command).chars ≠ [] := by
    intro hnil
    rw [parse_eq, hnil] at hparse
    exact hname (congrArg Prod.fst (Option.some.inj hparse)).symm
  have hkey : CString.key ⟨name, hnul⟩ = name := List.take_of_length_le hlen
  have hlookup : readDentryByName m.img (Buf.ofList name) (m.before w).locals.dentry =
      (-1, (m.before w).locals.dentry) :=
    readDentryByName_missing (s := ⟨name, hnul⟩) (by rwa [hkey]) _
  have htaken : ¬ (m.enter w).allActive = true := by
    rw [show (m.enter w).allActive = false from h.free]
    exact Bool.false_ne_true
  have hfull : ¬ 3 < (m.enter w).term.numProc := Int.not_lt.mpr (h.room hroom)
  have hexecute : execute m.img (m.enter w) (m.before w).locals (some (cstring command)) =
      ({ m.enter w with shellFlag := 1 }.printf "execute error: file not found\n", none) := by
    rw [executes_of_parse m.img hparse hname (m.enter w) _ h.free (h.room hroom), hlookup,
      if_pos rfl, released_eq hruns.entered.slots h.free]
  have htext : bytes (executeMessage m.img (m.enter w) (m.before w).locals
      (some (cstring command))) =
      bytes "execute error: file not found\n" := by
    unfold executeMessage
    dsimp only
    rw [if_neg hchars, if_neg htaken, if_neg hfull, hparse]
    dsimp only
    rw [hlookup, if_pos rfl]
  have htables : SameTables (m.enter w)
      ({ m.enter w with shellFlag := 1 }.printf "execute error: file not found\n") :=
    ⟨rfl, fun _ => rfl, fun _ => rfl, fun _ => rfl, rfl, rfl, fun _ => ⟨rfl, rfl, rfl, rfl⟩⟩
  unfold ece391Execute
  refine .bind (.of rfl ?_)
  rw [hexecute, htext]
  exact .pure ⟨rfl, m.shown w rfl, rfl,
    ⟨a, hruns.entered.same htables, hruns.current, hruns.quiet⟩, h.free, h.next, h.closed, h.spare⟩

theorem catText_status (img : Image) (arg : CString) :
    0 ≤ (img.catText arg).2 ∧ (img.catText arg).2 < 256 := by
  unfold Image.catText
  split
  · decide
  · split <;> omega

theorem lsText_status (img : Image) : 0 ≤ img.lsText.2 ∧ img.lsText.2 < 256 := by
  unfold Image.lsText
  split <;> omega

/-- A program that opens a file, from the shell. -/
theorem opening_run (hwf : m.img.WellFormed) {name arg : List UInt8}
    {program : Buf → Task World Int} (hinstalled : ∃ i, Installed m.img code name program i)
    (h : w.Ready p below slot n) (hroom : below.length ≤ 2)
    (hparse : parse (cstring command) = some (name, arg)) (hfits : arg.length ≤ cmdLen)
    {opened : Option Fd} {full done : List UInt8 × Int} (hfull : 0 ≤ full.2 ∧ full.2 < 256)
    (hdone : 0 ≤ done.2 ∧ done.2 < 256)
    (hserves : (∀ f, opened = some f → f.fileOp ≠ .rtcOp) →
      Serves m program arg n (openingOutcome opened full done n))
    (ho : openingCommand opened full done n = some o) :
    (ece391Execute m code command).Ensures w fun r w' => r = o.status ∧
      w'.Shown m w o.text ∧ w'.kernel.pcbs p = w.kernel.pcbs p ∧ w'.Ready p below slot o.left := by
  obtain ⟨i, hinstalled⟩ := hinstalled
  unfold openingCommand at ho
  split at ho
  · exact absurd ho.symm (Option.some_ne_none o)
  rename_i hkind
  obtain rfl := Option.some.inj ho
  have hkind' : ∀ f, opened = some f → f.fileOp ≠ .rtcOp := by
    rintro f rfl hclock
    exact hkind (congrArg some hclock)
  refine (installed_run hwf hinstalled h hroom hparse hfits (hserves hkind')).mono ?_
  rintro r w' ⟨rfl, hran⟩
  refine ⟨?_, hran⟩
  unfold openingOutcome
  split
  · exact Int.emod_eq_of_lt hfull.1 hfull.2
  · exact Int.emod_eq_of_lt hdone.1 hdone.2

theorem command_run (hwf : m.img.WellFormed) (hprograms : HasPrograms m code)
    (h : w.Ready p below slot n) (hroom : below.length ≤ 2)
    (hshort : (cstring command).chars.length ≤ 127)
    (ho : m.img.command n (cstring command) = some o) :
    (ece391Execute m code command).Ensures w fun r w' => r = o.status ∧
      w'.Shown m w o.text ∧ w'.kernel.pcbs p = w.kernel.pcbs p ∧ w'.Ready p below slot o.left := by
  unfold Image.command at ho
  obtain ⟨⟨name, arg⟩, hparse, ho⟩ := Option.bind_eq_some_iff.mp ho
  have hfits : arg.length ≤ cmdLen := Nat.le_trans (parse_length hparse) (Nat.le_succ_of_le hshort)
  split at ho
  · exact absurd ho.symm (Option.some_ne_none o)
  rename_i hnul
  dsimp only at ho
  split at ho
  · rename_i hcat
    obtain rfl : name = bytes "cat" := hcat
    exact opening_run hwf hprograms.cat h hroom hparse hfits (by decide) (catText_status _ _)
      (fun hkind => cat_serves hwf
        (show ∀ f, m.img.catOpens ⟨arg, hnul⟩ = some f → _ from hkind) n) ho
  split at ho
  · rename_i hls
    obtain rfl : name = bytes "ls" := hls
    exact opening_run hwf hprograms.ls h hroom hparse hfits (by decide) (lsText_status _)
      (fun hkind => ls_serves hwf hkind arg n) ho
  split at ho
  · rename_i hname
    obtain rfl := Option.some.inj ho
    exact missing_run h hroom hparse hname.1 hname.2
  · exact absurd ho.symm (Option.some_ne_none o)

end Commands

/-! ## The session -/

section Session

variable {m : Host} {code : Buf → Task World Ending} {w w₀ : World} {p : Int} {below : List Int}
  {slot n k : Nat} {user : List UInt8 → CString} {seen out : List UInt8}

theorem ensures_report (hterm : (w.kernel.fdAt 1).IsTerminal) (r : Int) :
    (shellReport m r).Ensures w fun _ w' => w'.At m w w.kernel.fdAt (verdict r) := by
  have hstart := World.at_start m w
  unfold shellReport verdict
  split
  · exact ensures_literal hstart hterm (by decide) (by decide)
  split
  · exact ensures_literal hstart hterm (by decide) (by decide)
  split
  · exact ensures_literal hstart hterm (by decide) (by decide)
  · exact .pure hstart

/-- Between two rounds: the text seen so far, and a session of at most `k` lines from here on that
    makes it `out`. -/
def Conversing (m : Host) (w₀ : World) (user : List UInt8 → CString) (p : Int) (below : List Int)
    (slot : Nat) (out : List UInt8) (k : Nat) (w : World) : Prop :=
  ∃ n seen, w.Serving p below slot n ∧ w.Shown m w₀ seen ∧
    dialogue user m.img.command k n seen = some out

/-- A line is shorter than the shell's buffer. -/
theorem text_short (kb : Buf) : (kb.text 127).length ≤ 127 := by
  have hle : kb.textLength 127 ≤ 127 := Buf.textLength_le
  unfold Buf.text
  rwa [Buf.take_length]

theorem shellLoop_round (hwf : m.img.WellFormed) (hprograms : HasPrograms m code)
    (hroom : below.length ≤ 2) (hattended : Attended m w₀ user)
    (h : Conversing m w₀ user p below slot out k w) (buf : Buf) :
    (shellLoop m code buf).Ensures w fun r w' =>
      match r with
      | .inl _ => ∃ k', k' < k ∧ Conversing m w₀ user p below slot out k' w'
      | .inr status => status = 0 ∧ w'.Shown m w₀ out := by
  obtain ⟨n, seen, hserving, hshown, hdialogue⟩ := h
  cases k with
  | zero => exact absurd hdialogue.symm (Option.some_ne_none out)
  | succ k =>
    rw [dialogue] at hdialogue
    unfold shellLoop
    -- the prompt
    refine .bind ((ensures_literal (World.at_start m w) hserving.terminal (by decide)
      (by decide)).mono ?_)
    rintro _ w₁ hat₁
    have hprompted : w₁.Shown m w₀ (seen ++ prompt) := hshown.trans hat₁.shown
    obtain ⟨henter, hline⟩ := hattended w₁ seen hprompted.printed
    -- the line
    refine .bind ((ensures_keyboard hat₁ hserving.keyboard henter buf).mono ?_)
    rintro ⟨cnt, b⟩ w₂ ⟨hcnt, hlast, hbytes, hat₂⟩
    dsimp only at hcnt hlast hbytes ⊢
    subst hcnt
    have hserving₂ : w₂.Serving p below slot n := hserving.calls hat₂
    have hshown₂ : w₂.Shown m w₀ (seen ++ prompt) := hshown.trans hat₂.shown
    have hspells := line_spells hbytes
    have hshort := text_short (m.enter w₁).keyboard.kbBuffer
    rw [hline] at hspells hshort
    have hname := cstring_spells hspells (by omega)
    have hexit : ece391Strcmp (Function.update b 127 0) (literal "exit") = 0 ↔
        (user (seen ++ prompt)).chars = bytes "exit" :=
      ece391Strcmp_eq_zero_iff hspells (Buf.spells_ofList (by decide)) (by omega) (by decide)
    have hnewline : (128 : Int) > 0 ∧ b ((128 : Int) - 1).toNat = 0x0A := ⟨by decide, hlast⟩
    rw [if_neg (by decide), if_pos hnewline, show ((128 : Int) - 1).toNat = 127 from rfl]
    generalize Function.update b 127 0 = line at hspells hname hexit ⊢
    by_cases hleave : (user (seen ++ prompt)).chars = bytes "exit"
    · rw [if_pos hleave] at hdialogue
      rw [if_pos (hexit.mpr hleave)]
      obtain rfl := Option.some.inj hdialogue
      exact .pure ⟨rfl, hshown₂⟩
    rw [if_neg hleave] at hdialogue
    rw [if_neg (hexit.not.mpr hleave)]
    by_cases hempty : (user (seen ++ prompt)).chars = []
    · rw [if_pos hempty] at hdialogue
      rw [hempty] at hspells
      have hnul : line 0 = 0 := hspells.nul
      rw [if_pos hnul]
      exact .pure ⟨k, Nat.lt_succ_self k, n, _, hserving₂, hshown₂, hdialogue⟩
    rw [if_neg hempty] at hdialogue
    rw [if_neg (hspells.ne_zero (List.length_pos_of_ne_nil hempty))]
    -- a command
    obtain ⟨o, ho, hdialogue⟩ := Option.bind_eq_some_iff.mp hdialogue
    rw [← hname] at ho hshort
    refine .bind ((command_run hwf hprograms hserving₂.ready hroom hshort ho).mono ?_)
    rintro _ w₃ ⟨rfl, hshown₃, hpcb, hready⟩
    have hserving₃ := hserving₂.ran hpcb hready
    refine .bind ((ensures_report hserving₃.terminal _).mono ?_)
    rintro _ w₄ hat₄
    exact .pure ⟨k, Nat.lt_succ_self k, o.left, _, hserving₃.calls hat₄,
      (hshown₂.trans hshown₃).trans hat₄.shown, hdialogue⟩

/-- The shell prints the text of the dialogue. -/
theorem shell_dialogue (hwf : m.img.WellFormed) (hprograms : HasPrograms m code)
    (h : w₀.Serving p below slot n) (hroom : below.length ≤ 2) (hattended : Attended m w₀ user)
    (hdialogue : dialogue user m.img.command k n (bytes "Starting 391 Shell\n") = some out)
    (buf : Buf) : (shell m code buf).Ensures w₀ fun status w =>
      status = 0 ∧ w.Shown m w₀ out := by
  unfold shell
  refine .bind ((ensures_literal (World.at_start m w₀) h.terminal (by decide)
    (by decide)).mono ?_)
  rintro _ w hat
  refine Task.Ensures.loop_indexed (fun k _ w => Conversing m w₀ user p below slot out k w)
    (fun k buf w hw => ?_) ⟨n, _, h.calls hat, hat.shown, hdialogue⟩
  refine (shellLoop_round hwf hprograms hroom hattended hw buf).mono fun r w' hr => ?_
  cases r with
  | inl _ => exact hr
  | inr _ => exact hr

end Session

/-! ## A session -/

/-- The directory ".", "cat", "ls", and a "shell" that shares the file of `cat`. -/
def twoProgramImage : Image where
  mem := fun o => (List.lookup o [(0, 4), (4, 2), (8, 2), (64, 0x2e), (96, 1),
    (128, 0x63), (129, 0x61), (130, 0x74), (160, 2), (192, 0x6c), (193, 0x73), (224, 2), (228, 1),
    (256, 0x73), (257, 0x68), (258, 0x65), (259, 0x6c), (260, 0x6c), (288, 2),
    (4096, 5), (8192, 5), (8196, 1),
    (12288, 0x7f), (12289, 0x45), (12290, 0x4c), (12291, 0x46), (12292, 0x63),
    (16384, 0x7f), (16385, 0x45), (16386, 0x4c), (16387, 0x46), (16388, 0x6c)]).getD 0

theorem twoProgramImage_wellFormed : twoProgramImage.WellFormed where
  fits := by decide
  dirs := by decide
  types := by decide
  inodes := by decide
  lengths := by decide
  blocks := by
    have hcount : twoProgramImage.inodeCount = 2 := by decide
    have hlen : twoProgramImage.inodeLength 0 = 5 ∧ twoProgramImage.inodeLength 1 = 5 := by decide
    intro n j hn hj
    rw [hcount] at hn
    simp only [absBlockSize] at hj
    obtain rfl | rfl : n = 0 ∨ n = 1 := by omega
    · rw [hlen.1] at hj
      obtain rfl : j = 0 := by omega
      decide
    · rw [hlen.2] at hj
      obtain rfl : j = 0 := by omega
      decide

/-- Types "ls", "cat ls", "rm" and "exit", by what is on the screen. -/
def programUser (seen : List UInt8) : CString :=
  if seen.length = 26 then ⟨bytes "ls", by decide⟩
  else if seen.length = 48 then ⟨bytes "cat ls", by decide⟩
  else if seen.length = 60 then ⟨bytes "rm", by decide⟩
  else ⟨bytes "exit", by decide⟩

def programHost : Host where
  img := twoProgramImage
  before := fun w => ⟨Locals.zero ⟨0, 0⟩, ⟨fun _ => 0, 0, 0⟩, fun _ => 0, fun screen keyboard =>
    (screen, { keyboard with
      enterFlag := 1
      kbBuffer := Buf.ofList (programUser w.printed).chars })⟩

/-- The fifth byte says which program a page holds. -/
def programCode (page : Buf) : Task World Ending :=
  Ending.returns <$>
    if page (programOffset + 4) = 0x63 then cat programHost fun _ => 0
    else ls programHost fun _ => 0

theorem programHost_programs : HasPrograms programHost programCode where
  cat := by
    refine ⟨1, by decide, ⟨by decide, by decide, by decide⟩,
      ⟨by decide, by decide, by decide⟩, by decide, by decide, fun page hpage => ⟨fun _ => 0, ?_⟩⟩
    have hbyte : page (programOffset + 4) = 0x63 := (hpage 4 (by decide)).trans (by decide)
    unfold programCode
    rw [if_pos hbyte]
  ls := by
    refine ⟨2, by decide, ⟨by decide, by decide, by decide⟩,
      ⟨by decide, by decide, by decide⟩, by decide, by decide, fun page hpage => ⟨fun _ => 0, ?_⟩⟩
    have hbyte : page (programOffset + 4) = 0x6c := (hpage 4 (by decide)).trans (by decide)
    unfold programCode
    rw [hbyte, if_neg (by decide)]

/-- The base shell after boot. -/
def programShell : World :=
  .start (entry twoProgramImage Kernel.loaded ⟨0, 0⟩ (Locals.zero ⟨0, 0⟩)).1

theorem programShell_serving : programShell.Serving 0 [] 1 6 where
  ready :=
    { runs := ⟨(boot twoProgramImage Kernel.loaded ⟨0, 0⟩ (Locals.zero ⟨0, 0⟩)).sessions,
        boot_refines loaded_poweredOn _ _ _, by decide, by decide⟩
      free := by decide
      next := by decide
      closed := by
        unfold Kernel.FilesClosed
        decide
      spare := ⟨by decide, by decide⟩ }
  keyboard := by decide
  terminal := ⟨by decide, by decide⟩

theorem programHost_attended : Attended programHost programShell programUser := by
  intro w seen hprinted
  have hprinted' : w.printed = seen ++ prompt := hprinted
  refine ⟨rfl, ?_⟩
  show (Buf.ofList (programUser w.printed).chars).text 127 = _
  rw [hprinted', Buf.text_ofList (programUser _).noNul]
  refine List.take_of_length_le ?_
  unfold programUser
  split
  · decide
  split
  · decide
  split
  · decide
  · decide

theorem shell_dialogue_programShell :
    (shell programHost programCode fun _ => 0).Ensures programShell fun status w =>
      status = 0 ∧ w.Shown programHost programShell
        (bytes "Starting 391 Shell\n391OS> .\ncat\nls\nshell\n391OS> " ++
          [0x7f, 0x45, 0x4c, 0x46, 0x6c] ++
          bytes "391OS> execute error: file not found\nno such command\n391OS> ") :=
  shell_dialogue (m := programHost) (k := 4) twoProgramImage_wellFormed programHost_programs
    programShell_serving (by decide) programHost_attended (by decide +kernel) _

end LmaOS
