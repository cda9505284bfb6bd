import LmaOS.Util.Task
import LmaOS.Files.Stream
import LmaOS.Exec.Argument
import LmaOS.User.Support

/-
  The system calls as a user program makes them (ece391syscall.h, ece391support.c).

  A program is a `Task` on a `World`: the kernel, the number of calls made so far and the text
  that the calls so far put on the terminal. `Host` is what a run cannot choose: the file system
  image, and for each call the leftovers on the kernel stack and what device interrupts did to
  screen and keyboard before it. It is arbitrary in every theorem.

  * `writtenText`, `write_screen`: the text of a `write` is what it prints on the screen.
  * `World.Shown m w₀ out`: since the world `w₀` the text `out` was printed.
  * `World.At m w₀ files out`: a world the running process has reached from `w₀` by file system
    calls; it has the descriptors `files` and has printed `out`.
  * `ensures_write`, `ensures_fdputs`, `ensures_read`, `ensures_open`, `ensures_opens`,
    `ensures_close`, `ensures_getargs`: one rule per call.
-/
namespace LmaOS

open Util

/-! ## What a call prints -/

/-- The bytes of a `write` that reach the terminal. -/
def writtenText (k : Kernel) (fd : Int) (buf : Buf) (nbytes : Int) : List UInt8 :=
  if 0 ≤ fd ∧ fd ≤ 7 ∧ 0 ≤ nbytes ∧ (k.fdAt fd.toNat).flags ≠ 0 ∧
      (k.fdAt fd.toNat).fileOp = .stdoutOp then
    buf.take nbytes.toNat
  else []

theorem write_screen (k : Kernel) (fd : Int) (buf : Buf) (nbytes : Int) :
    (write k fd (some buf) nbytes).2.screen = k.screen.puts (writtenText k fd buf nbytes) := by
  unfold write writtenText Kernel.fdAt
  dsimp only
  by_cases hargs : fd < 0 ∨ fd > 7 ∨ nbytes < 0
  · rw [if_pos hargs, if_neg (by omega)]
    rfl
  rw [if_neg hargs]
  by_cases hopen : ((k.pcbs (getPcbAddress k)).file fd.toNat).flags = 0
  · rw [if_pos hopen, if_neg fun h => h.2.2.2.1 hopen]
    rfl
  rw [if_neg hopen]
  cases hops : ((k.pcbs (getPcbAddress k)).file fd.toNat).fileOp with
  | stdoutOp =>
    rw [if_pos ⟨by omega, by omega, by omega, hopen, rfl⟩]
    show (terminalWrite k buf nbytes.toNat).2.screen = _
    unfold terminalWrite
    split
    · rename_i hzero
      rw [hzero]
      rfl
    · rfl
  | rtcOp =>
    rw [if_neg fun h => FileOps.noConfusion h.2.2.2.2]
    show (rtcWrite k fd.toNat buf nbytes.toNat).2.screen = _
    obtain ⟨rtcA, hrtc⟩ := setFrequency_snd k (int32 (buf.word 0))
    unfold rtcWrite
    dsimp only
    split
    · rfl
    · split
      all_goals rw [hrtc]; rfl
  | fileOp | dirOp | stdinOp | doNothing =>
    rw [if_neg fun h => FileOps.noConfusion h.2.2.2.2]
    rfl

/-- `read` prints nothing. -/
theorem read_screen (img : Image) (k : Kernel) (dentry : Dentry) (tail : Buf) (fd : Int)
    (buf : Option Buf) (nbytes : Int) {r : ReadResult}
    (h : read img k dentry tail fd buf nbytes = some r) : r.kernel.screen = k.screen := by
  unfold read at h
  split at h
  · cases h
    rfl
  split at h
  · cases h
    rfl
  dsimp only at h
  split at h
  · cases h
    rfl
  cases hops : ((k.pcbs (getPcbAddress k)).file fd.toNat).fileOp with
  | dirOp =>
    rw [hops] at h
    obtain rfl := Option.some.inj h
    unfold readDir
    dsimp only
    split <;> rfl
  | stdinOp =>
    rw [hops] at h
    unfold FileOps.read terminalRead at h
    dsimp only at h
    split at h
    · cases h
      rfl
    · split at h
      · cases h
        rfl
      · cases h
  | fileOp | rtcOp | stdoutOp | doNothing =>
    rw [hops] at h
    cases h
    rfl

theorem openCall_screen (img : Image) (k : Kernel) (dentry : Dentry) (filename : CString) :
    (openCall img k dentry filename).2.screen = k.screen := by
  rcases openCall_cases img k dentry filename with ⟨ops, _, _, rtcA, heq⟩ | ⟨_, heq⟩
  · rw [heq]
    rfl
  · rw [heq]

theorem close_screen (k : Kernel) (fd : Int) : (close k fd).2.screen = k.screen := by
  unfold close
  split
  · rfl
  · dsimp only
    split <;> rfl

/-! ## Calls as tasks -/

/-- What a call finds: registers and stack leftovers, and what interrupts did since the call
    before. -/
structure Surroundings where
  locals : Locals
  dentry : Dentry
  tail : Buf
  devices : Screen → Keyboard → Screen × Keyboard

structure World where
  kernel : Kernel
  calls : Nat
  printed : List UInt8

structure Host where
  img : Image
  before : World → Surroundings

/-- The kernel as the next call finds it. -/
def Host.enter (m : Host) (w : World) : Kernel :=
  let d := (m.before w).devices w.kernel.screen w.kernel.keyboard
  { w.kernel with screen := d.1, keyboard := d.2 }

/-- The string a pointer points to. -/
def cstring (s : Buf) : CString where
  chars := s.take (strlen s)
  noNul := fun hmem => by
    obtain ⟨i, hi, hzero⟩ := List.mem_map.mp hmem
    exact strlen_ne (List.mem_range.mp hi) hzero

theorem cstring_spells {s : Buf} {a : CString} (h : s.Spells a.chars)
    (ha : a.chars.length < 4294967296) : cstring s = a := by
  have hchars : s.take (strlen s) = a.chars := by
    rw [strlen_spells h ha]
    exact h.startsWith.take
  obtain ⟨chars, hnul⟩ := a
  unfold cstring
  rw [CString.mk.injEq]
  exact hchars

namespace User

variable (m : Host)

def ece391Read (fd : Int) (buf : Buf) (nbytes : Int) : Task World (Int × Buf) :=
  Task.of fun w =>
    let e := m.before w
    (read m.img (m.enter w) e.dentry e.tail fd (some buf) nbytes).map fun r =>
      ((r.ret, r.buf), ⟨r.kernel, w.calls + 1, w.printed⟩)

def ece391Write (fd : Int) (buf : Buf) (nbytes : Int) : Task World Int :=
  Task.of fun w =>
    let k := m.enter w
    let r := write k fd (some buf) nbytes
    some (r.1, ⟨r.2, w.calls + 1, w.printed ++ writtenText k fd buf nbytes⟩)

def ece391Open (filename : Buf) : Task World Int :=
  Task.of fun w =>
    let r := openCall m.img (m.enter w) (m.before w).dentry (cstring filename)
    some (r.1, ⟨r.2, w.calls + 1, w.printed⟩)

def ece391Close (fd : Int) : Task World Int :=
  Task.of fun w =>
    let r := close (m.enter w) fd
    some (r.1, ⟨r.2, w.calls + 1, w.printed⟩)

def ece391Getargs (buf : Buf) (nbytes : Int) : Task World (Int × Buf) :=
  Task.of fun w =>
    let k := m.enter w
    some (getargs k (some buf) nbytes, ⟨k, w.calls + 1, w.printed⟩)

def ece391Fdputs (fd : Int) (s : Buf) : Task World Unit := do
  let _ ← ece391Write m fd s (int32 (ece391Strlen s))
  pure ()

/-- A string constant of the program. -/
def literal (s : String) : Buf := Buf.ofList (bytes s)

end User

/-! ## The world of a running program -/

/-- No interrupt prints anything: nothing was typed and the terminal was not switched. -/
def Host.Quiet (m : Host) : Prop := ∀ w s kb, ((m.before w).devices s kb).1 = s

/-- The text printed since `w₀`. Where no interrupt prints, nothing else changed on the screen. -/
structure World.Shown (m : Host) (w w₀ : World) (out : List UInt8) : Prop where
  printed : w.printed = w₀.printed ++ out
  screen : m.Quiet → w.kernel.screen = w₀.kernel.screen.puts out

structure World.At (m : Host) (w w₀ : World) (files : Nat → Fd) (out : List UInt8) : Prop where
  acts : ActsOn (getPcbAddress w₀.kernel) w₀.kernel w.kernel
  files : ∀ d, w.kernel.fdAt d = files d
  shown : w.Shown m w₀ out

theorem World.Shown.refl (m : Host) (w : World) : w.Shown m w [] :=
  ⟨(List.append_nil _).symm, fun _ => rfl⟩

theorem World.Shown.trans {m : Host} {w₀ w w' : World} {out text : List UInt8}
    (h : w.Shown m w₀ out) (h' : w'.Shown m w text) : w'.Shown m w₀ (out ++ text) where
  printed := by rw [h'.printed, h.printed, List.append_assoc]
  screen := fun hquiet => by
    rw [h'.screen hquiet, h.screen hquiet]
    exact List.foldl_append.symm

/-- A world without a past. -/
def World.start (k : Kernel) : World := ⟨k, 0, []⟩

/-- Empty stacks, and no interrupts. -/
def quietHost (img : Image) : Host where
  img := img
  before := fun _ => ⟨Locals.zero ⟨0, 0⟩, ⟨fun _ => 0, 0, 0⟩, fun _ => 0, Prod.mk⟩

theorem World.at_start (m : Host) (w : World) : w.At m w w.kernel.fdAt [] :=
  ⟨.refl _ _, fun _ => rfl, .refl m w⟩

/-- The terminal, as every program finds it on descriptor 1. -/
def Fd.IsTerminal (f : Fd) : Prop := f.flags = 1 ∧ f.fileOp = .stdoutOp

section Rules

variable {m : Host} {w₀ w : World} {files : Nat → Fd} {out : List UInt8}

theorem Host.enter_actsOn (m : Host) (w : World) (pid : Int) :
    ActsOn pid w.kernel (m.enter w) :=
  (actsOnFiles_devices pid w.kernel _ _ w.kernel.rtcA).actsOn

/-- A call prints on the screen as the interrupts left it. -/
theorem Host.shown (m : Host) (w : World) {k : Kernel} {text : List UInt8}
    (hscreen : k.screen = (m.enter w).screen.puts text) :
    World.Shown m ⟨k, w.calls + 1, w.printed ++ text⟩ w text where
  printed := rfl
  screen := fun hquiet => by
    have hentered : (m.enter w).screen = w.kernel.screen := hquiet _ _ _
    show k.screen = _
    rw [hscreen, hentered]

/-- A call that acts on the running process's descriptors moves the world on. -/
theorem World.At.call (h : w.At m w₀ files out) {k : Kernel} {files' : Nat → Fd}
    (text : List UInt8) (hacts : ActsOn (getPcbAddress (m.enter w)) (m.enter w) k)
    (hfiles : ∀ d, k.fdAt d = files' d) (hscreen : k.screen = (m.enter w).screen.puts text) :
    World.At m ⟨k, w.calls + 1, w.printed ++ text⟩ w₀ files' (out ++ text) where
  acts := by
    have hsame : getPcbAddress (m.enter w) = getPcbAddress w₀.kernel := h.acts.getPcbAddress
    rw [hsame] at hacts
    exact (h.acts.trans (m.enter_actsOn w _)).trans hacts
  files := hfiles
  shown := h.shown.trans (m.shown w hscreen)

/-- The same for a call that prints nothing. -/
theorem World.At.silent (h : w.At m w₀ files out) {k : Kernel} {files' : Nat → Fd}
    (hacts : ActsOn (getPcbAddress (m.enter w)) (m.enter w) k)
    (hfiles : ∀ d, k.fdAt d = files' d) (hscreen : k.screen = (m.enter w).screen) :
    World.At m ⟨k, w.calls + 1, w.printed⟩ w₀ files' out := by
  have hcall := h.call [] hacts hfiles hscreen
  rwa [List.append_nil, List.append_nil] at hcall

theorem World.At.entered (h : w.At m w₀ files out) (d : Nat) : (m.enter w).fdAt d = files d :=
  h.files d

/-- `write` changes no descriptor. -/
theorem write_fdAt (k : Kernel) (fd : Int) (buf : Option Buf) (nbytes : Int) (d : Nat) :
    (write k fd buf nbytes).2.fdAt d = k.fdAt d := by
  have hacts := (write_actsOnFiles k (getPcbAddress k + 1) fd buf nbytes).actsOn
  unfold Kernel.fdAt
  rw [hacts.getPcbAddress, hacts.others (by omega)]

namespace User

theorem ensures_write (h : w.At m w₀ files out) (hout : (files 1).IsTerminal) (buf : Buf)
    (n : Nat) : (ece391Write m 1 buf n).Ensures w fun r w' =>
      r = n ∧ w'.At m w₀ files (out ++ buf.take n) := by
  obtain ⟨hopen, hops⟩ := hout
  rw [← h.entered] at hopen hops
  have hopen' : ((m.enter w).fdAt 1).flags ≠ 0 := by
    rw [hopen]
    exact Nat.one_ne_zero
  have htext : writtenText (m.enter w) 1 buf n = buf.take n :=
    if_pos ⟨by decide, by decide, Int.natCast_nonneg n, hopen', hops⟩
  have hret : (write (m.enter w) 1 (some buf) n).1 = n := by
    unfold Kernel.fdAt at hopen' hops
    unfold write
    dsimp only
    rw [if_neg (by omega), Int.toNat_one, if_neg hopen', hops]
    show (terminalWrite (m.enter w) buf (n : Int).toNat).1 = n
    unfold terminalWrite
    rw [Int.toNat_natCast]
    split
    · rename_i hzero
      rw [hzero]
      rfl
    · rfl
  have hcall := h.call (buf.take n) (write_actsOnFiles (m.enter w) _ 1 (some buf) n).actsOn
    (fun d => (write_fdAt _ _ _ _ d).trans (h.entered d)) (by rw [write_screen, htext])
  refine Task.Ensures.of rfl ⟨hret, ?_⟩
  rw [htext]
  exact hcall

/-- `ece391_fdputs` of a string. -/
theorem ensures_fdputs (h : w.At m w₀ files out) (hout : (files 1).IsTerminal) {s : Buf}
    {l : List UInt8} (hs : s.Spells l) (hl : l.length < 2147483648) :
    (ece391Fdputs m 1 s).Ensures w fun _ w' => w'.At m w₀ files (out ++ l) := by
  have hlen : int32 (ece391Strlen s) = (l.length : Nat) := by
    unfold ece391Strlen
    rw [strlen_spells hs (by omega)]
    unfold int32
    rw [if_pos (by omega), Nat.mod_eq_of_lt (by omega)]
  unfold ece391Fdputs
  rw [hlen]
  refine .bind ((ensures_write h hout s l.length).mono fun r w' hw => .pure ?_)
  rw [hs.startsWith.take] at hw
  exact hw.2

/-- `ece391_fdputs` of a string constant. -/
theorem ensures_literal (h : w.At m w₀ files out) (hout : (files 1).IsTerminal) {s : String}
    (hs : 0 ∉ bytes s) (hl : (bytes s).length < 2147483648) :
    (ece391Fdputs m 1 (literal s)).Ensures w fun _ w' => w'.At m w₀ files (out ++ bytes s) :=
  ensures_fdputs h hout (Buf.spells_ofList hs) hl

theorem ensures_read (hwf : m.img.WellFormed) (h : w.At m w₀ files out) {fd : Nat} (hfd : fd < 8)
    (hread : m.img.Readable (files fd)) (buf : Buf) {n : Nat}
    (hn : (files fd).fileOp = .dirOp → filenameLen ≤ n) :
    (ece391Read m fd buf n).Ensures w fun r w' =>
      r.1 = ((m.img.next (files fd) n).1.length : Nat) ∧
        r.2.StartsWith (m.img.next (files fd) n).1 ∧
        ((files fd).fileOp ≠ .dirOp → SameFrom (m.img.next (files fd) n).1.length buf r.2) ∧
        w'.At m w₀ (Function.update files fd (m.img.next (files fd) n).2) out := by
  rw [← h.entered] at hread hn ⊢
  obtain ⟨r, hr, hnext⟩ := read_next hwf hfd hread (m.before w).dentry
    (m.before w).tail buf hn
  have hacts := (read_actsOnFiles m.img _ _ _ _ _ _ hr).actsOn
  refine Task.Ensures.of (congrArg (Option.map _) hr)
    ⟨hnext.ret, ?_, hnext.frame, h.silent hacts (fun d => ?_) (read_screen _ _ _ _ _ _ _ hr)⟩
  · rw [← hnext.bytes]
    exact Buf.take_startsWith _ _
  · rw [hnext.files, Function.update_apply, h.entered, h.entered]

/-- A name that opens as nothing is refused. -/
theorem ensures_refused (h : w.At m w₀ files out) {s : Buf}
    (hopen : m.img.opens (cstring s) = none) :
    (ece391Open m s).Ensures w fun r w' => r = -1 ∧ w'.At m w₀ files out := by
  have hrefused := openCall_refuses (k := m.enter w) hopen (m.before w).dentry
  refine Task.Ensures.of rfl ⟨congrArg Prod.fst hrefused, ?_⟩
  refine h.silent (openCall_actsOn _ _ _ _) (fun d => ?_) (openCall_screen _ _ _ _)
  rw [hrefused]
  exact h.entered d

/-- A name that opens as `f` gets a free descriptor. -/
theorem ensures_opens (h : w.At m w₀ files out) {s : Buf} {f : Fd}
    (hopen : m.img.opens (cstring s) = some f)
    (hfree : ∃ d, 2 ≤ d ∧ d < 8 ∧ (files d).flags = 0) :
    (ece391Open m s).Ensures w fun r w' => ∃ fd : Nat, r = fd ∧ 2 ≤ fd ∧ fd < 8 ∧
      (files fd).flags ≠ 1 ∧ w'.At m w₀ (Function.update files fd f) out := by
  obtain ⟨d, hlo, hhi, hd⟩ := hfree
  rw [← h.entered] at hd
  obtain ⟨hge, hlt, hret, hfiles⟩ := openCall_opens hopen (m.before w).dentry
    ⟨d, hlo, hhi, hd⟩
  refine Task.Ensures.of rfl ⟨_, hret, hge, hlt, ?_, ?_⟩
  · rw [← h.entered]
    exact openFd_free hlt
  · refine h.silent (openCall_actsOn _ _ _ _) (fun d => ?_) (openCall_screen _ _ _ _)
    rw [hfiles, Function.update_apply, h.entered]

/-- Where no descriptor is free, only the clock opens. -/
theorem ensures_full (h : w.At m w₀ files out) {s : Buf} {f : Fd}
    (hopen : m.img.opens (cstring s) = some f) (hkind : f.fileOp ≠ .rtcOp)
    (hfull : ∀ d, d < 8 → (files d).flags = 1) :
    (ece391Open m s).Ensures w fun r w' => r = -1 ∧ w'.At m w₀ files out := by
  have hrefused := openCall_full (k := m.enter w) hopen hkind (m.before w).dentry
    fun d hd => by rw [h.entered]; exact hfull d hd
  refine Task.Ensures.of rfl ⟨congrArg Prod.fst hrefused, ?_⟩
  refine h.silent (openCall_actsOn _ _ _ _) (fun d => ?_) (openCall_screen _ _ _ _)
  rw [hrefused]
  exact h.entered d

theorem ensures_close (h : w.At m w₀ files out) {fd : Nat} (hlo : 2 ≤ fd) (hhi : fd < 8)
    (hopen : (files fd).flags = 1) : (ece391Close m fd).Ensures w fun r w' => r = 0 ∧
      w'.At m w₀ (Function.update files fd { files fd with flags := 0, inode := 0, pos := 0 })
        out := by
  have hflags : ((m.enter w).fdAt fd).flags = 1 := by rw [h.entered, hopen]
  have hclose : close (m.enter w) fd = (0, (m.enter w).setFd fd
      { (m.enter w).fdAt fd with flags := 0, inode := 0, pos := 0 }) := by
    unfold close Kernel.setFd Kernel.fdAt
    unfold Kernel.fdAt at hflags
    dsimp only
    rw [if_neg (by omega), Int.toNat_natCast, if_neg (not_not.mpr hflags)]
  refine Task.Ensures.of rfl ⟨congrArg Prod.fst hclose, ?_⟩
  refine h.silent (close_actsOnFiles _ _).actsOn (fun d => ?_) (close_screen _ _)
  rw [hclose, setFd_fdAt, Function.update_apply, h.entered, h.entered]

/-- `ece391_getargs` with room for the argument the process holds. -/
theorem ensures_getargs (h : w.At m w₀ files out) {a : CString}
    (ha : (w.kernel.pcbs (getPcbAddress w.kernel)).HoldsArg a.chars) (buf : Buf) {n : Nat}
    (hroom : a.chars.length < n) (hn : n < 2147483648) :
    (ece391Getargs m buf n).Ensures w fun r w' =>
      (if a.chars = [] then r.1 = -1 else r.1 = 0 ∧ r.2.Spells a.chars) ∧
        w'.At m w₀ files out := by
  refine Task.Ensures.of rfl ⟨?_, h.silent (.refl _ _) h.entered rfl⟩
  rw [getargs_eq (k := m.enter w) ha]
  by_cases hempty : a.chars = []
  · rw [if_pos hempty, if_pos hempty]
  rw [if_neg hempty, if_neg hempty, word32_of_range (by omega) (by omega), Int.toNat_natCast]
  refine ⟨rfl, a.noNul, fun i hi => ?_⟩
  rw [List.length_append, List.length_singleton] at hi
  dsimp only
  rw [if_pos (by omega)]
  rcases Nat.lt_or_eq_of_le (Nat.le_of_lt_succ hi) with hlt | rfl
  · exact (List.getD_append a.chars [0] 0 i hlt).symm
  · rw [List.getD_eq_default a.chars 0 (Nat.le_refl _),
      List.getD_append_right a.chars [0] 0 _ (Nat.le_refl _), Nat.sub_self]
    rfl

end User

end Rules

end LmaOS
