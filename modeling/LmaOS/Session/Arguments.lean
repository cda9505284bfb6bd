import LmaOS.Exec.Argument
import LmaOS.Files.Open
import LmaOS.Session.Descriptors

/-
  From a command to `getargs`.

  `CommandForm cs w a`: the command is spaces, the word `w`, and `a` behind spaces. `parse` takes it
  apart in exactly this way, `execute` looks up `w` (`Executes`), and the new PCB holds `a`.
  There it stays: no call of another process and no switch writes the `arg` field of a listed
  process, and its own calls do only where `open` overruns its descriptors
  (`Refines.keepsArgument`).

  `arguments_delivered`: so every `getargs` of the process hands out `a`, in the runs in which every
  argument fits its field and the process does not open past its table. `arguments_overrun` is a
  process with seven files.
-/
namespace LmaOS

open Util Sessions

/-! ## The form of a command -/

structure CommandForm (cs w a : List UInt8) : Prop where
  parts : ∃ lead gap, cs = List.replicate lead 0x20 ++ (w ++ (List.replicate gap 0x20 ++ a)) ∧
    (a = [] ∨ 0 < gap)
  word : 0x20 ∉ w
  short : 1 ≤ w.length ∧ w.length ≤ 32
  rest : a.head? ≠ some 0x20
  fits : a.length ≤ cmdLen

theorem spaces_isSpace (n : Nat) : ∀ c ∈ List.replicate n (0x20 : UInt8), isSpace c = true :=
  fun _ hc => decide_eq_true (List.eq_of_mem_replicate hc)

/-- Skipping spaces stops at once where there is none. -/
theorem dropWhile_isSpace {cs : List UInt8} (h : cs.head? ≠ some 0x20) :
    cs.dropWhile isSpace = cs := by
  cases cs with
  | nil => rfl
  | cons c cs =>
    have hc : ¬ isSpace c = true := fun hs => h (congrArg some (of_decide_eq_true hs))
    rw [List.dropWhile_cons, if_neg hc]

/-- Where a space or the end follows, the word is over. -/
theorem word_over {gap : Nat} {a : List UInt8} (h : a = [] ∨ 0 < gap) :
    ((List.replicate gap 0x20 ++ a).takeWhile fun c => !isSpace c) = [] ∧
      ((List.replicate gap 0x20 ++ a).dropWhile fun c => !isSpace c) =
        List.replicate gap 0x20 ++ a := by
  cases gap with
  | zero =>
    rw [h.resolve_right (Nat.lt_irrefl 0)]
    exact ⟨rfl, rfl⟩
  | succ gap => exact ⟨rfl, rfl⟩

/-- The loop takes such a command apart as its form says. -/
theorem CommandForm.parse {cmd : CString} {w a : List UInt8} (h : CommandForm cmd.chars w a) :
    parse cmd = some (w, a) := by
  obtain ⟨lead, gap, hcs, hgap⟩ := h.parts
  have hletters : ∀ c ∈ w, (!isSpace c) = true := by
    intro c hc
    have hne : c ≠ 0x20 := fun he => h.word (he ▸ hc)
    simpa [isSpace] using hne
  have hhead : (w ++ (List.replicate gap 0x20 ++ a)).head? ≠ some 0x20 := by
    obtain ⟨c, w', rfl⟩ := List.exists_cons_of_length_pos h.short.1
    intro he
    exact h.word (Option.some.inj he ▸ List.mem_cons_self)
  have htrim : trimmed cmd.chars = w ++ (List.replicate gap 0x20 ++ a) := by
    unfold trimmed
    rw [hcs, List.dropWhile_append_of_pos (spaces_isSpace lead), dropWhile_isSpace hhead]
  have hword : firstWord cmd.chars = w := by
    unfold firstWord
    rw [htrim, List.takeWhile_append_of_pos hletters, (word_over hgap).1, List.append_nil]
  have hrest : argument cmd.chars = a := by
    unfold argument
    rw [htrim, List.dropWhile_append_of_pos hletters, (word_over hgap).2,
      List.dropWhile_append_of_pos (spaces_isSpace gap), dropWhile_isSpace h.rest]
  rw [parse_eq, hword, hrest, if_neg (Nat.not_lt_of_le h.short.2)]

/-- Where a slot is free, `execute` of the command is decided by the lookup of `w` and the file it
    finds, and starts the process with `a`. -/
def Executes (img : Image) (cmd : CString) (w a : List UInt8) : Prop :=
  ∀ (k : Kernel) (l : Locals), k.allActive = false → k.term.numProc ≤ 3 →
    let d := readDentryByName img (Buf.ofList w) l.dentry
    let r := readData img d.2.inodeNum 0 l.fileData img.lenInodes
    execute img k l (some cmd) =
      if d.1 = -1 then (k.released.printf "execute error: file not found\n", none)
      else if strncmp r.2 exeIdentifier 4 ≠ 0 then
        (k.released.printf "execute error: file not an executable\n", none)
      else (startProcess k.claimed l.regs k.freePid w a r.2 (r.1 % 65536), some (k.freePid : Int))

theorem executes_of_parse (img : Image) {cmd : CString} {w a : List UInt8}
    (h : parse cmd = some (w, a)) (hw : w ≠ []) : Executes img cmd w a := by
  intro k l hfree hroom
  have hchars : cmd.chars ≠ [] := by
    intro hnil
    rw [parse_eq, hnil] at h
    exact hw (congrArg Prod.fst (Option.some.inj h)).symm
  have hfree' : ({ k with shellFlag := 1 } : Kernel).allActive = false := hfree
  unfold execute
  dsimp only
  rw [if_neg hchars, hfree', if_neg Bool.false_ne_true, if_neg (Int.not_lt.mpr hroom), h]
  rfl

/-! ## The new process -/

theorem Pcb.HoldsArg.congr {p p' : Pcb} {a : List UInt8} (h : p.HoldsArg a) (he : p'.arg = p.arg) :
    p'.HoldsArg a := ⟨by rw [he]; exact h.text, h.fits⟩

/-- `strncpy` stores an argument that fits with its NUL. -/
theorem newPcb_holdsArg (k : Kernel) (regs : Regs) (pid : Int) {a : List UInt8}
    (hnul : 0 ∉ a) (hfits : a.length ≤ cmdLen) : (k.newPcb regs pid a).HoldsArg a := by
  have hspells : (k.newPcb regs pid a).arg.Spells a := by
    refine ⟨hnul, fun i hi => if_pos ⟨hi, ?_⟩⟩
    rw [List.length_append, List.length_singleton] at hi
    exact Nat.lt_of_lt_of_le hi (Nat.succ_le_succ hfits)
  exact ⟨hspells.text (Nat.le_succ_of_le hfits), hfits⟩

theorem execute_holdsArg {img : Image} {k : Kernel} {l : Locals} {cmd : CString}
    {w a : List UInt8} {pid : Int} (hparse : parse cmd = some (w, a)) (hfits : a.length ≤ cmdLen)
    (h : (execute img k l (some cmd)).2 = some pid) :
    ((execute img k l (some cmd)).1.pcbs pid).HoldsArg a := by
  obtain ⟨cmd', w', a', hcmd, hparse', _, _, rfl, _, _, hk⟩ := execute_started h
  obtain rfl := Option.some.inj hcmd
  obtain ⟨rfl, rfl⟩ := Prod.mk.inj (Option.some.inj (hparse.symm.trans hparse'))
  have hnew := newPcb_holdsArg k.claimed l.regs k.freePid (parse_parts hparse).2.2 hfits
  rw [hk]
  refine hnew.congr (congrArg Pcb.arg ?_)
  exact Function.update_self (k.freePid : Int) _ k.claimed.pcbs

/-! ## Calls that write no argument -/

/-- No `arg` field changed. -/
def ArgsKept (k k' : Kernel) : Prop := ∀ p, (k'.pcbs p).arg = (k.pcbs p).arg

theorem ArgsKept.refl (k : Kernel) : ArgsKept k k := fun _ => rfl

theorem ArgsKept.trans {k k' k'' : Kernel} (h : ArgsKept k k') (h' : ArgsKept k' k'') :
    ArgsKept k k'' := fun p => (h' p).trans (h p)

theorem argsKept_of_pcbs {k k' : Kernel} (h : k'.pcbs = k.pcbs) : ArgsKept k k' :=
  fun p => by rw [h]

theorem ActsOnFiles.argsKept {pid : Int} {k k' : Kernel} (h : ActsOnFiles pid k k') :
    ArgsKept k k' := by
  intro p
  obtain ⟨file, screen, keyboard, rtcA, rfl⟩ := h
  dsimp only
  rw [Function.update_apply]
  split
  · subst p; rfl
  · rfl

theorem argsKept_closingRel (pid : Int) : ClosingRel pid ArgsKept where
  refl := ArgsKept.refl
  trans := ArgsKept.trans
  closed := fun k fd => (close_actsOnFiles k fd).argsKept
  disabled := fun k _ => (actsOnFiles_file pid k _).argsKept

theorem haltClosed_argsKept (k : Kernel) (pid : Int) : ArgsKept k (haltClosed k pid) :=
  (argsKept_of_pcbs (unlinked_pcbs k _)).trans ((argsKept_closingRel pid).closeSteps _ _)

/-- `open` writes an argument only past the table, and only the one of its own process. -/
theorem openCall_argKept {img : Image} {k : Kernel} {dentry : Dentry} {filename : CString} {p : Int}
    (hin : getPcbAddress k = p → ¬ Overruns img k dentry filename) :
    ((openCall img k dentry filename).2.pcbs p).arg = (k.pcbs p).arg := by
  by_cases hp : getPcbAddress k = p
  swap
  · exact congrArg Pcb.arg ((openCall_actsOn img k dentry filename).others (Ne.symm hp))
  rcases openCall_cases img k dentry filename with ⟨ops, hops, _, rtcA, hkernel⟩ | ⟨_, heq⟩
  · have hlt : (k.pcbs (getPcbAddress k)).openFd < 8 := by
      by_contra hge
      exact hin hp ((opensAs_full_iff hge).mp ⟨ops, hops⟩)
    rw [hkernel, opened_pcbs k rtcA ops _ hlt]
    exact (actsOnFiles_file _ k _).argsKept p
  · rw [heq]

/-! ## Steps -/

/-- The process is on the list of a terminal. -/
def Sys.Listed (p : Int) (s : Sys) : Prop := ∃ u, p ∈ s.sessions.stack u

/-- The call does not end the process. -/
def Sys.Survives (p : Int) (s : Sys) (op : Op) : Prop :=
  op.isHalt = true → getPcbAddress s.kernel ≠ p

instance (p : Int) (s : Sys) (op : Op) : Decidable (s.Survives p op) :=
  inferInstanceAs (Decidable (op.isHalt = true → getPcbAddress s.kernel ≠ p))

/-- The call is no `open` of the process that overruns its descriptors. -/
def Sys.OpensInside (img : Image) (p : Int) (s : Sys) (op : Op) : Prop :=
  ∀ dentry filename, op = .openCall dentry filename → getPcbAddress s.kernel = p →
    ¬ Overruns img s.kernel dentry filename

section Halt

variable {img : Image} {k₀ k' : Kernel} {p q : Int} {below : List Int} {es : List Event}

/-- `halt` of another process. -/
theorem HaltEffect.argKept (he : HaltEffect img k₀ q below es k') {a : Sessions}
    (href : Refines k₀ a) (hcur : a.current = q :: below) {u : Fin 3} (hp : p ∈ a.stack u)
    (hne : p ≠ q) : (k'.pcbs p).arg = (k₀.pcbs p).arg := by
  have hkept := haltClosed_argsKept k₀ q p
  cases he with
  | resumed _ => exact hkept
  | @restarted _ new _ hs =>
    have hnew : p ≠ new := (href.haltClosed hcur).fresh hs.free.2.2 (mem_finish hcur hp hne)
    rw [hs.others p hnew, hkept]
  | @lost _ r hf _ =>
    show (r.1.pcbs p).arg = _
    rw [hf.pcbs, hkept]

/-- It stays on its list. -/
theorem HaltEffect.listed (he : HaltEffect img k₀ q below es k') {a : Sessions}
    (hcur : a.current = q :: below) {u : Fin 3} (hp : p ∈ a.stack u) (hne : p ≠ q) :
    p ∈ (es.foldl Sessions.apply a).stack u := by
  have hstay := mem_finish hcur hp hne
  cases he with
  | resumed _ => exact hstay
  | restarted _ => exact (mem_update_push rfl).mpr (Or.inr hstay)
  | lost _ _ => exact hstay

end Halt

theorem displayed_argsKept (k : Kernel) (saved : Regs) (tid : Fin 3) :
    ArgsKept k (displayed k saved tid) := by
  intro p
  obtain ⟨_, _, h⟩ := saveTerminal_pcbs k saved tid p
  show ((saveTerminal k saved tid).pcbs p).arg = _
  rw [h]

section Steps

variable {img : Image} {s : Sys} {op : Op} {p : Int}

/-- A listed process that goes on stays listed and keeps its argument, if calls without an event
    keep it. -/
theorem Effect.argKept {es : List Event} {k' : Kernel} (he : Effect img s es k')
    (href : Refines s.kernel s.sessions) (hp : s.Listed p)
    (hlives : ∀ below, s.sessions.current = p :: below → es.head? ≠ some .finish)
    (hsilent : es = [] → (k'.pcbs p).arg = (s.kernel.pcbs p).arg) :
    Sys.Listed p ⟨k', es.foldl Sessions.apply s.sessions⟩ ∧
      (k'.pcbs p).arg = (s.kernel.pcbs p).arg := by
  obtain ⟨u, hu⟩ := hp
  cases he with
  | call _ _ => exact ⟨⟨u, hu⟩, hsilent rfl⟩
  | devices _ _ => exact ⟨⟨u, hu⟩, hsilent rfl⟩
  | failed _ => exact ⟨⟨u, hu⟩, hsilent rfl⟩
  | started _ hs =>
    refine ⟨⟨u, (mem_update_push rfl).mpr (Or.inr hu)⟩, ?_⟩
    rw [hs.others p (href.fresh hs.free.2.2 hu)]
  | @halted k₀ _ q below _ hin hcur he =>
    have hne : p ≠ q := by
      rintro rfl
      exact hlives below hcur (by cases he <;> rfl)
    refine ⟨⟨u, he.listed hcur hu hne⟩, ?_⟩
    rw [he.argKept (href.same (entering_sameTables hin)) hcur hu hne, entering_pcbs hin]
  | displayed _ => exact ⟨⟨u, hu⟩, displayed_argsKept _ _ _ p⟩
  | displayedFailed _ hf =>
    refine ⟨⟨u, hu⟩, ?_⟩
    rw [hf.pcbs]
    exact displayed_argsKept _ _ _ p
  | displayedStarted _ hs =>
    refine ⟨⟨u, (mem_update_push rfl).mpr (Or.inr hu)⟩, ?_⟩
    rw [hs.others p ((href.displayed _ _).fresh hs.free.2.2 hu)]
    exact displayed_argsKept _ _ _ p

/-- A proper call that neither ends the process nor is an `open` of it past its table. -/
structure Sys.KeepsArgument (img : Image) (p : Int) (s : Sys) (op : Op) : Prop where
  proper : s.Proper op
  survives : s.Survives p op
  inside : s.OpensInside img p op

/-- Calls without an event: those on files, and an `execute` that failed. -/
theorem perform_argKept (hin : s.OpensInside img p op) (hgoes : op.isHalt = false)
    (hnil : (perform img s.kernel op).2 = []) :
    ((perform img s.kernel op).1.pcbs p).arg = (s.kernel.pcbs p).arg := by
  unfold perform at hnil ⊢
  cases op with
  | execute l command =>
    rcases execute_cases img s.kernel l command with hf | ⟨_, _, _, _, _, _, _, _, _, hs⟩
    · exact congrArg (fun pcbs => (pcbs p).arg) hf.pcbs
    · -- a started process is reported
      dsimp only at hnil
      rw [hs] at hnil
      exact absurd hnil (List.cons_ne_nil _ _)
  | halt l status => exact absurd hgoes.symm Bool.false_ne_true
  | exception l vector => exact absurd hgoes.symm Bool.false_ne_true
  | openCall dentry filename => exact openCall_argKept (hin dentry filename rfl)
  | close fd => exact (close_actsOnFiles s.kernel fd).argsKept p
  | read dentry tail fd buf nbytes =>
    dsimp only
    cases hr : read img s.kernel dentry tail fd buf nbytes with
    | none => rfl
    | some r => exact (read_actsOnFiles img s.kernel dentry tail fd buf nbytes hr).argsKept p
  | write fd buf nbytes => exact (write_actsOnFiles s.kernel p fd buf nbytes).argsKept p
  | getargs buf nbytes => rfl
  | switchTerminal saved l tid => exact absurd hnil (List.cons_ne_nil _ _)
  | devices screen keyboard => rfl

theorem Refines.keepsArgument (href : Refines s.kernel s.sessions) (hp : s.Listed p)
    (hok : s.KeepsArgument img p op) : (s.step img op).Listed p ∧
      ((s.step img op).kernel.pcbs p).arg = (s.kernel.pcbs p).arg := by
  refine (href.effect hok.proper).argKept href hp (fun below hcur hfin => ?_) (fun hnil => ?_)
  · exact hok.survives (isHalt_of_finish hfin) (href.getPcbAddress hcur)
  · cases hhalt : op.isHalt with
    | false => exact perform_argKept hok.inside hhalt hnil
    | true =>
      -- a halt is always reported
      have hne : s.sessions.current ≠ [] := by
        have hissued := hok.proper.1
        rw [← href.current]
        cases op with
        | halt _ _ => exact hissued
        | exception _ _ => exact hissued
        | _ => exact absurd hhalt Bool.false_ne_true
      obtain ⟨q, below, hcur⟩ := List.exists_cons_of_ne_nil hne
      obtain ⟨k₀, _, he⟩ := href.halt_op img op hhalt hcur
      rw [hnil] at he
      cases he

/-- A process that is listed and holds its argument goes on so. -/
theorem Refines.run_keepsArgument (href : Refines s.kernel s.sessions) (hp : s.Listed p)
    {a : List UInt8} (harg : (s.kernel.pcbs p).HoldsArg a) {ops : List Op}
    (hrun : Allowed (Sys.step img) (Sys.KeepsArgument img p) s ops) :
    Refines (runFrom (Sys.step img) s ops).kernel (runFrom (Sys.step img) s ops).sessions ∧
      ((runFrom (Sys.step img) s ops).kernel.pcbs p).HoldsArg a := by
  have h := hrun.invariant
    (fun s => Refines s.kernel s.sessions ∧ s.Listed p ∧ (s.kernel.pcbs p).HoldsArg a)
    (fun s op hs hok => by
      obtain ⟨hlisted, hkept⟩ := hs.1.keepsArgument hs.2.1 hok
      exact ⟨hs.1.step hok.proper, hlisted, hs.2.2.congr hkept⟩)
    ⟨href, hp, harg⟩
  exact ⟨h.1, h.2.2⟩

end Steps

/-! ## Delivery -/

/-- `getargs` of the running process, with room for more than `a`: `a` and a NUL, or -1 if there is
    no argument. -/
def Delivers (k : Kernel) (a : List UInt8) : Prop :=
  ∀ (buf : Buf) (nbytes : Int), a.length < nbytes → nbytes < 2147483648 →
    if a = [] then (getargs k (some buf) nbytes).1 = -1
    else (getargs k (some buf) nbytes).1 = 0 ∧
      (getargs k (some buf) nbytes).2.StartsWith (a ++ [0])

theorem delivers_of_holdsArg {k : Kernel} {a : List UInt8}
    (h : (k.pcbs (getPcbAddress k)).HoldsArg a) : Delivers k a := by
  intro buf nbytes hroom hn
  by_cases hne : a = []
  · rw [if_pos hne, getargs_eq h, if_pos hne]
  · obtain ⟨hret, hchars, hnul⟩ := getargs_delivers h hne buf hroom hn
    rw [if_neg hne]
    exact ⟨hret, Buf.startsWith_append.mpr
      ⟨hchars, Buf.startsWith_cons.mpr ⟨hnul, Buf.startsWith_nil⟩⟩⟩

/-- `execute` of the command looks up `w`. If it starts a process, then every time this process
    runs, after any calls that `ok` allows, its `getargs` hand out `a`. -/
structure CommandDelivered (img : Image) (ok : Int → Sys → Op → Prop) (s : Sys) (cmd : CString)
    (w a : List UInt8) : Prop where
  looksUp : Executes img cmd w a
  delivers : ∀ l pid, s.Issued (.execute l (some cmd)) →
    (execute img s.kernel l (some cmd)).2 = some pid → ∀ ops,
      Allowed (Sys.step img) (ok pid) (s.step img (.execute l (some cmd))) ops →
      let k := (runFrom (Sys.step img) (s.step img (.execute l (some cmd))) ops).kernel
      (k.procs k.curTerm).head? = some pid → Delivers k a

/-- In every run from boot in which every argument fits and the process does not open past its
    table. -/
theorem arguments_delivered {img : Image} {k : Kernel} (hk : k.PoweredOn) (saved : Regs)
    (l : Locals) (ops : List Op)
    (hrun : Allowed (Sys.step img) Sys.Proper (boot img k saved l) ops) {cmd : CString}
    {w a : List UInt8} (hform : CommandForm cmd.chars w a) :
    CommandDelivered img (Sys.KeepsArgument img)
      (runFrom (Sys.step img) (boot img k saved l) ops) cmd w a := by
  have hparse := hform.parse
  refine ⟨executes_of_parse img hparse (List.ne_nil_of_length_pos hform.short.1), ?_⟩
  intro l' pid hissued hpid ops' hrun'
  have href := (boot_refines hk img saved l).run hrun
  generalize runFrom (Sys.step img) (boot img k saved l) ops = s at hissued hpid hrun' href ⊢
  have hproper : s.Proper (.execute l' (some cmd)) := by
    refine ⟨hissued, fun name arg h => ?_⟩
    obtain ⟨_, rfl⟩ := Prod.mk.inj (Option.some.inj (hparse.symm.trans h))
    exact hform.fits
  have hlisted : (s.step img (.execute l' (some cmd))).Listed pid := by
    refine ⟨s.sessions.shown, ?_⟩
    unfold Sys.step perform
    dsimp only
    rw [hpid]
    exact (mem_update_push rfl).mpr (Or.inl ⟨rfl, rfl⟩)
  obtain ⟨href', harg⟩ := (href.step hproper).run_keepsArgument hlisted
    (execute_holdsArg hparse hform.fits hpid) hrun'
  intro k' hruns
  obtain ⟨below, hcur⟩ : ∃ below, k'.procs k'.curTerm = pid :: below :=
    List.head?_eq_some_iff.mp hruns
  rw [href'.current] at hcur
  refine delivers_of_holdsArg ?_
  rw [href'.getPcbAddress hcur]
  exact harg

/-- The shell with the argument "a", with a space too many before each. -/
def spacedCommand : CString :=
  ⟨[0x20, 0x73, 0x68, 0x65, 0x6c, 0x6c, 0x20, 0x20, 0x61], by decide⟩

theorem spacedCommand_form : CommandForm spacedCommand.chars shellName [0x61] :=
  ⟨⟨1, 2, by decide, Or.inr (by decide)⟩, by decide, by decide, by decide, by decide⟩

/-- A process is started and ended, and the terminal switched away and back. -/
def nestedRun : List Op :=
  [.execute (Locals.zero ⟨3, 4⟩) (some shellCommand), .halt (Locals.zero ⟨5, 6⟩) 0,
    .switchTerminal ⟨7, 8⟩ (Locals.zero ⟨7, 8⟩) terminalB,
    .switchTerminal ⟨9, 10⟩ (Locals.zero ⟨9, 10⟩) terminalA]

theorem arguments_delivered_nestedRun : Delivers (runFrom (Sys.step shellImage)
    ((boot shellImage Kernel.loaded ⟨0, 0⟩ (Locals.zero ⟨0, 0⟩)).step shellImage
      (.execute (Locals.zero ⟨1, 2⟩) (some spacedCommand))) nestedRun).kernel [0x61] :=
  (arguments_delivered loaded_poweredOn ⟨0, 0⟩ (Locals.zero ⟨0, 0⟩) [] trivial
    spacedCommand_form).delivers (Locals.zero ⟨1, 2⟩) 1 (by decide) (by decide +kernel) nestedRun
      ⟨⟨by decide +kernel, by decide +kernel, fun _ _ h => nomatch h⟩,
        ⟨by decide +kernel, by decide +kernel, fun _ _ h => nomatch h⟩,
        ⟨by decide +kernel, by decide +kernel, fun _ _ h => nomatch h⟩,
        ⟨by decide +kernel, by decide +kernel, fun _ _ h => nomatch h⟩, trivial⟩
      (by decide +kernel)

/-- The seventh file of the process is stored over its argument. -/
theorem arguments_overrun : ¬ ∀ (img : Image) (k : Kernel), k.PoweredOn →
    ∀ (saved : Regs) (l : Locals) (ops : List Op),
      Allowed (Sys.step img) Sys.Issued (boot img k saved l) ops →
        ∀ (cmd : CString) (w a : List UInt8), CommandForm cmd.chars w a →
          CommandDelivered img (fun p s op => s.Issued op ∧ s.Survives p op)
            (runFrom (Sys.step img) (boot img k saved l) ops) cmd w a := by
  intro hclaim
  have h := (hclaim clockImage Kernel.loaded loaded_poweredOn ⟨0, 0⟩ (Locals.zero ⟨0, 0⟩) [] trivial
    spacedCommand shellName [0x61] spacedCommand_form).delivers (Locals.zero ⟨1, 2⟩) 1 (by decide)
      (by decide +kernel) (List.replicate 7 (.openCall ⟨fun _ => 0, 0, 0⟩ clockName))
      (by decide +kernel) (by decide +kernel) (fun _ => 0) 2 (by decide) (by decide)
  have hbyte := h.2 0 (by decide)
  revert hbyte
  decide +kernel

end LmaOS
