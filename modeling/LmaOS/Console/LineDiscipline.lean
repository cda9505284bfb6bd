import LmaOS.Console.KeyboardBuffer

/-
  The line discipline: what terminal_read returns of what was typed.

  `Tty` is what a line discipline is for, per terminal: the characters typed since the last Enter,
  the lines completed so far and how many of them were read. `Discipline` runs the kernel next to
  three of them, which see the keys pressed, the Enters and the completed reads, and nothing of
  the keyboard buffer.

  `lines_kept`: as long as no key is pressed and no terminal switched between Enter and the read,
  every read returns characters of one line, and a completed line can be read. Otherwise the bytes
  of two lines mix (`lines_mixed`): Enter resets the index and not the buffer.
-/
namespace LmaOS

open Util

/-! ## The abstract line discipline -/

structure Tty where
  typed : List UInt8
  /-- The completed lines, oldest first. -/
  lines : List (List UInt8)
  taken : Nat

namespace Tty

def type (t : Tty) (text : List UInt8) : Tty := { t with typed := t.typed ++ text }

def enter (t : Tty) : Tty := { t with typed := [], lines := t.lines ++ [t.typed] }

def take (t : Tty) : Tty := { t with taken := t.taken + 1 }

/-- The oldest line that was not read. -/
def next (t : Tty) : Option (List UInt8) := t.lines[t.taken]?

end Tty

/-- The character of a key. -/
def typedText (k : Kernel) (idx : Nat) : List UInt8 :=
  match k.keyboard.keyMap with
  | none => []
  | some map => [map.getD idx 0]

/-- What a key means to the terminal it is pressed on; one that finds the buffer full is typed all
    the same. -/
def KeyAction.onTty (text : List UInt8) (t : Tty) : KeyAction → Tty
  | .type | .full => t.type text
  | .enter => t.enter
  | .modifier .. | .backspace | .display _ | .clear | .ignore => t

/-- Typed text or the screen is taken back. -/
def KeyAction.takesBack : KeyAction → Bool
  | .backspace | .clear => true
  | .modifier .. | .enter | .display _ | .full | .type | .ignore => false

def KeyAction.interrupts : KeyAction → Bool
  | .type | .full | .enter | .display _ => true
  | .modifier .. | .backspace | .clear | .ignore => false

structure Discipline where
  kernel : Kernel
  ttys : Fin 3 → Tty

namespace Discipline

/-- The displayed terminal. -/
def tty (s : Discipline) : Tty := s.ttys s.kernel.curTerm

/-- The displayed terminal after an operation. -/
def after (s : Discipline) : KbOp → Tty
  | .scancode _ _ idx => (keyAction s.kernel idx).onTty (typedText s.kernel idx) s.tty
  | .terminalRead _ nbytes =>
    if nbytes ≠ 0 ∧ s.kernel.keyboard.enterFlag = 1 then s.tty.take else s.tty
  | .terminalWrite _ _ | .switchTerminal _ _ _ => s.tty

def step (img : Image) (s : Discipline) (op : KbOp) : Discipline :=
  ⟨kbStep img s.kernel op, Function.update s.ttys s.kernel.curTerm (s.after op)⟩

/-- Every key but Backspace, Ctrl+L and Ctrl+C. -/
def Issued (s : Discipline) : KbOp → Prop
  | .scancode _ _ idx => (keyAction s.kernel idx).takesBack = false
  | _ => True

instance (s : Discipline) (op : KbOp) : Decidable (s.Issued op) :=
  match op with
  | .scancode _ _ idx => inferInstanceAs (Decidable ((keyAction s.kernel idx).takesBack = false))
  | .terminalWrite _ _ | .terminalRead _ _ | .switchTerminal _ _ _ => isTrue trivial

/-- A key is typed, Enter pressed or a terminal switched. -/
def interrupts (s : Discipline) : KbOp → Bool
  | .scancode _ _ idx => (keyAction s.kernel idx).interrupts
  | .switchTerminal _ _ _ => true
  | .terminalWrite _ _ | .terminalRead _ _ => false

/-- Nothing is typed and nothing switched while a line waits to be read. -/
def Patient (s : Discipline) (op : KbOp) : Prop :=
  s.Issued op ∧ (s.kernel.keyboard.enterFlag = 1 → s.interrupts op = false)

instance (s : Discipline) (op : KbOp) : Decidable (s.Patient op) :=
  inferInstanceAs (Decidable (_ ∧ (_ → _)))

/-- The system after boot, with nothing typed. -/
def start (img : Image) (k : Kernel) (saved : Regs) (l : Locals) : Discipline :=
  ⟨(entry img k saved l).1, fun _ => ⟨[], [], 0⟩⟩

end Discipline

/-- All characters a read returned are of the line. -/
def Within (line : List UInt8) (r : ReadResult) : Prop :=
  ∀ i, i + 1 < r.ret.toNat → r.buf i = 0 ∨ r.buf i ∈ line

/-- A read returned the beginning of the line, padded with NULs, and a newline. -/
structure Returns (line : List UInt8) (r : ReadResult) : Prop where
  text : ∀ i, i + 1 < r.ret.toNat → r.buf i = line.getD i 0
  newline : r.buf (r.ret.toNat - 1) = 0x0A

/-- The characters a completed read returns were typed between two Enters. -/
def ReadsOneLine (s : Discipline) : KbOp → Prop
  | .terminalRead buf nbytes => nbytes ≠ 0 → ∀ r, terminalRead s.kernel buf nbytes = some r →
    ∃ line ∈ s.tty.lines, Within line r
  | _ => True

/-- A completed line of the displayed terminal can be read. -/
def LineReadable (s : Discipline) : Prop :=
  ∀ line, s.tty.next = some line → ∀ buf nbytes, nbytes ≠ 0 →
    ∃ r, terminalRead s.kernel buf nbytes = some r ∧ Returns line r

/-- The keyboard buffers as they are loaded: empty. -/
structure Kernel.NothingTyped (k : Kernel) : Prop where
  index : k.keyboard.kbBufferIndex = 0
  buffer : ∀ i, i < kbBufSize → k.keyboard.kbBuffer i = 0
  saved : ∀ u i, i < kbBufSize → (k.terminals u).kbBuffer i = 0

theorem loaded_nothingTyped : Kernel.loaded.NothingTyped :=
  ⟨rfl, fun _ _ => rfl, fun _ _ _ => rfl⟩

theorem Returns.within {line : List UInt8} {r : ReadResult} (h : Returns line r) :
    Within line r := by
  intro i hi
  rw [h.text i hi, List.getD_eq_getElem?_getD]
  cases hget : (line)[i]? with
  | none => exact Or.inl rfl
  | some c => exact Or.inr (List.mem_of_getElem? hget)

/-! ## The invariant -/

/-- The buffer holds what was typed since the last Enter, and all lines were read. -/
structure Settled (t : Tty) (i : Input) : Prop where
  index : i.index = min t.typed.length kbBufSize
  text : ∀ j, j < kbBufSize → i.buffer j = t.typed.getD j 0
  read : t.taken = t.lines.length

/-- The buffer holds the last line, the only one not read. -/
structure Pending (t : Tty) (i : Input) (line : List UInt8) : Prop where
  index : i.index = 0
  typed : t.typed = []
  text : ∀ j, j < kbBufSize → i.buffer j = line.getD j 0
  last : ∃ before, t.lines = before ++ [line] ∧ t.taken = before.length

theorem Settled.next {t : Tty} {i : Input} (h : Settled t i) : t.next = none := by
  unfold Tty.next
  rw [h.read]
  exact List.getElem?_eq_none (Nat.le_refl _)

theorem Pending.next {t : Tty} {i : Input} {line : List UInt8} (h : Pending t i line) :
    t.next = some line := by
  obtain ⟨before, hlines, htaken⟩ := h.last
  unfold Tty.next
  rw [hlines, htaken, List.getElem?_append_right (Nat.le_refl _), Nat.sub_self]
  rfl

/-- A character is typed and stored. -/
theorem Settled.store {t : Tty} {i i' : Input} (h : Settled t i) {c : UInt8}
    (hroom : i.index < kbBufSize) (hindex : i'.index = i.index + 1)
    (hbuf : ∀ j, j < kbBufSize → i'.buffer j = if j = i.index then c else i.buffer j) :
    Settled (t.type [c]) i' := by
  have hlen : i.index = t.typed.length := by
    have := h.index
    omega
  refine ⟨?_, fun j hj => ?_, h.read⟩
  · show i'.index = min (t.typed ++ [c]).length kbBufSize
    rw [hindex, List.length_append, List.length_singleton]
    omega
  · show i'.buffer j = (t.typed ++ [c]).getD j 0
    rw [hbuf j hj]
    split <;> rename_i hji
    · rw [hji, hlen, List.getD_append_right _ _ _ _ (Nat.le_refl _), Nat.sub_self]
      rfl
    · rcases Nat.lt_or_ge j t.typed.length with hlt | hge
      · rw [h.text j hj, List.getD_append _ _ _ _ hlt]
      · have hgt : (t.typed ++ [c]).length ≤ j := by
          rw [List.length_append, List.length_singleton]
          omega
        rw [h.text j hj, List.getD_eq_default _ _ hge, List.getD_eq_default _ _ hgt]

/-- A character is typed and finds the buffer full. -/
theorem Settled.refuse {t : Tty} {i : Input} (h : Settled t i) (text : List UInt8)
    (hfull : kbBufSize ≤ i.index) : Settled (t.type text) i := by
  have hlen : kbBufSize ≤ t.typed.length := by
    have := h.index
    omega
  refine ⟨?_, fun j hj => ?_, h.read⟩
  · show i.index = min (t.typed ++ text).length kbBufSize
    rw [List.length_append, h.index]
    omega
  · show i.buffer j = (t.typed ++ text).getD j 0
    rw [h.text j hj, List.getD_append _ _ _ _ (Nat.lt_of_lt_of_le hj hlen)]

/-- Enter completes what was typed. -/
theorem Settled.enter {t : Tty} {i i' : Input} (h : Settled t i) (hindex : i'.index = 0)
    (hbuf : i'.buffer = i.buffer) : Pending t.enter i' t.typed :=
  ⟨hindex, rfl, fun j hj => hbuf ▸ h.text j hj, t.lines, rfl, h.read⟩

/-- The read empties the buffer. -/
theorem Pending.take {t : Tty} {i i' : Input} {line : List UInt8} (h : Pending t i line)
    (hindex : i'.index = 0) (hbuf : ∀ j, j < kbBufSize → i'.buffer j = 0) :
    Settled t.take i' := by
  obtain ⟨before, hlines, htaken⟩ := h.last
  refine ⟨?_, fun j hj => ?_, ?_⟩
  · show i'.index = min t.typed.length kbBufSize
    rw [h.typed, hindex]
    rfl
  · show i'.buffer j = t.typed.getD j 0
    rw [h.typed, hbuf j hj]
    rfl
  · show t.taken + 1 = t.lines.length
    rw [hlines, htaken, List.length_append, List.length_singleton]

/-- The displayed terminal is settled or, after Enter, has a line to read; the others are
    settled. -/
structure Discipline.Inv (s : Discipline) : Prop where
  others : ∀ u, u ≠ s.kernel.curTerm → Settled (s.ttys u) (s.kernel.input u)
  settled : s.kernel.keyboard.enterFlag ≠ 1 → Settled s.tty (s.kernel.input s.kernel.curTerm)
  pending : s.kernel.keyboard.enterFlag = 1 →
    ∃ line, Pending s.tty (s.kernel.input s.kernel.curTerm) line

namespace Discipline.Inv

variable {img : Image} {s : Discipline}

theorem all (h : s.Inv) (hflag : s.kernel.keyboard.enterFlag ≠ 1) (u : Fin 3) :
    Settled (s.ttys u) (s.kernel.input u) := by
  by_cases hu : u = s.kernel.curTerm
  · rw [hu]
    exact h.settled hflag
  · exact h.others u hu

/-- A step that switches no terminal. -/
theorem of_tty (h : s.Inv) {op : KbOp} (hcur : (kbStep img s.kernel op).curTerm = s.kernel.curTerm)
    (hterm : (kbStep img s.kernel op).terminals = s.kernel.terminals)
    (hsettled : (kbStep img s.kernel op).keyboard.enterFlag ≠ 1 →
      Settled (s.after op) ((kbStep img s.kernel op).input s.kernel.curTerm))
    (hpending : (kbStep img s.kernel op).keyboard.enterFlag = 1 →
      ∃ line, Pending (s.after op) ((kbStep img s.kernel op).input s.kernel.curTerm) line) :
    (s.step img op).Inv := by
  have htty : (s.step img op).tty = s.after op := by
    show Function.update s.ttys s.kernel.curTerm (s.after op) (kbStep img s.kernel op).curTerm = _
    rw [hcur, Function.update_self]
  refine ⟨fun u hu => ?_, fun hflag => ?_, fun hflag => ?_⟩
  · have hu : u ≠ s.kernel.curTerm := hcur ▸ hu
    show Settled (Function.update s.ttys s.kernel.curTerm (s.after op) u)
      ((kbStep img s.kernel op).input u)
    rw [Function.update_of_ne hu, input_of_ne hcur hterm hu]
    exact h.others u hu
  · rw [htty]
    exact hcur.symm ▸ hsettled hflag
  · rw [htty]
    exact hcur.symm ▸ hpending hflag

/-- A step that changes neither the keyboard buffer nor the Enter flag nor the lines. -/
theorem of_same (h : s.Inv) {op : KbOp} (hcur : (kbStep img s.kernel op).curTerm = s.kernel.curTerm)
    (hterm : (kbStep img s.kernel op).terminals = s.kernel.terminals)
    (hinput : (kbStep img s.kernel op).input s.kernel.curTerm = s.kernel.input s.kernel.curTerm)
    (hflag : (kbStep img s.kernel op).keyboard.enterFlag = s.kernel.keyboard.enterFlag)
    (hafter : s.after op = s.tty) : (s.step img op).Inv := by
  refine h.of_tty hcur hterm ?_ ?_
  all_goals rw [hflag, hinput, hafter]
  · exact h.settled
  · exact h.pending

/-- A step that switches terminals while no line waits. -/
theorem of_switch (h : s.Inv) {op : KbOp} (hidle : s.kernel.keyboard.enterFlag ≠ 1)
    (hinput : ∀ u, (kbStep img s.kernel op).input u = s.kernel.input u)
    (hflag : (kbStep img s.kernel op).keyboard.enterFlag = 0) (hafter : s.after op = s.tty) :
    (s.step img op).Inv := by
  have hsame : Function.update s.ttys s.kernel.curTerm (s.after op) = s.ttys := by
    rw [hafter]
    exact Function.update_eq_self _ _
  have hall : ∀ u, Settled (Function.update s.ttys s.kernel.curTerm (s.after op) u)
      ((kbStep img s.kernel op).input u) := by
    intro u
    rw [hsame, hinput]
    exact h.all hidle u
  exact ⟨fun u _ => hall u, fun _ => hall _, fun hone => by
    have hone : (kbStep img s.kernel op).keyboard.enterFlag = 1 := hone
    rw [hflag] at hone
    cases hone⟩

theorem after_scancode (s : Discipline) (saved : Regs) (l : Locals) (idx : Nat) :
    s.after (.scancode saved l idx) =
      (keyAction s.kernel idx).onTty (typedText s.kernel idx) s.tty := rfl

theorem enter (h : s.Inv) {saved : Regs} {l : Locals} {idx : Nat}
    (hact : keyAction s.kernel idx = .enter) (hidle : s.kernel.keyboard.enterFlag ≠ 1) :
    (s.step img (.scancode saved l idx)).Inv := by
  obtain ⟨screen, hpress⟩ := pressEnter_eq s.kernel
  have hstep := kbStep_scancode img s.kernel saved l idx
  rw [hact] at hstep
  have hstep := hstep.trans hpress
  have hafter : s.after (.scancode saved l idx) = s.tty.enter := by
    rw [after_scancode, hact]
    rfl
  have hold := h.settled hidle
  rw [input_cur] at hold
  refine h.of_tty (by rw [hstep]) (by rw [hstep]) (fun hflag => ?_) (fun _ => ?_)
  · rw [hstep] at hflag
    exact absurd rfl hflag
  · rw [hstep, hafter, input_displayed rfl]
    exact ⟨s.tty.typed, hold.enter rfl rfl⟩

theorem type (h : s.Inv) {saved : Regs} {l : Locals} {idx : Nat}
    (hact : keyAction s.kernel idx = .type) (hidle : s.kernel.keyboard.enterFlag ≠ 1) :
    (s.step img (.scancode saved l idx)).Inv := by
  have hstep : kbStep img s.kernel (.scancode saved l idx) = typeKey s.kernel idx := by
    rw [kbStep_scancode, hact]
    rfl
  have hafter : s.after (.scancode saved l idx) = s.tty.type (typedText s.kernel idx) := by
    rw [after_scancode, hact]
    rfl
  have hroom := (keyAction_room s.kernel idx).1 hact
  have hold := h.settled hidle
  rw [input_cur] at hold
  cases hmap : s.kernel.keyboard.keyMap with
  | none =>
    have hkey : typeKey s.kernel idx = s.kernel := by
      unfold typeKey
      rw [hmap]
    have htext : typedText s.kernel idx = [] := by
      unfold typedText
      rw [hmap]
    rw [hkey] at hstep
    refine h.of_same (by rw [hstep]) (by rw [hstep]) (by rw [hstep]) (by rw [hstep]) ?_
    rw [hafter, htext]
    show ({ s.tty with typed := s.tty.typed ++ [] } : Tty) = s.tty
    rw [List.append_nil]
  | some map =>
    have hkey : (typeKey s.kernel idx).curTerm = s.kernel.curTerm ∧
        (typeKey s.kernel idx).terminals = s.kernel.terminals ∧
        (typeKey s.kernel idx).keyboard =
          (s.kernel.keyboard.put s.kernel.keyboard.kbBufferIndex (map.getD idx 0)).nextIndex := by
      unfold typeKey
      rw [hmap]
      exact ⟨rfl, rfl, rfl⟩
    have htext : typedText s.kernel idx = [map.getD idx 0] := by
      unfold typedText
      rw [hmap]
    refine h.of_tty (hstep ▸ hkey.1) (hstep ▸ hkey.2.1) (fun _ => ?_) (fun hflag => ?_)
    · rw [hstep, hafter, htext, input_displayed hkey.1, hkey.2.2]
      refine hold.store hroom ?_ (fun j hj => ?_)
      · show (s.kernel.keyboard.kbBufferIndex + 1) % 256 = s.kernel.keyboard.kbBufferIndex + 1
        simp only [kbBufSize] at hroom
        exact Nat.mod_eq_of_lt (by omega)
      · unfold firstBytes
        dsimp only
        rw [if_pos hj, if_pos hj]
        exact Function.update_apply _ _ _ _
    · rw [hstep, hkey.2.2] at hflag
      exact absurd hflag hidle

/-- The read step. -/
theorem read (h : s.Inv) (buf : Buf) (nbytes : Nat) :
    (s.step img (.terminalRead buf nbytes)).Inv := by
  by_cases hdone : nbytes ≠ 0 ∧ s.kernel.keyboard.enterFlag = 1
  · obtain ⟨line, hline⟩ := h.pending hdone.2
    have hstep := terminalRead_completed img s.kernel buf hdone
    have hafter : s.after (.terminalRead buf nbytes) = s.tty.take := if_pos hdone
    refine h.of_tty (by rw [hstep]) (by rw [hstep]) (fun _ => ?_) (fun hflag => ?_)
    · rw [hstep, hafter, input_displayed rfl]
      refine hline.take rfl (fun j hj => ?_)
      exact (if_pos hj).trans (if_pos hj)
    · rw [hstep] at hflag
      cases hflag
  · have hstep := terminalRead_waiting img s.kernel buf hdone
    exact h.of_same (by rw [hstep]) (by rw [hstep]) (by rw [hstep]) (by rw [hstep]) (if_neg hdone)

theorem step (h : s.Inv) {op : KbOp} (hop : s.Patient op) : (s.step img op).Inv := by
  obtain ⟨hissued, hpatient⟩ := hop
  -- an operation that interrupts finds no line waiting
  have hidle : s.interrupts op = true → s.kernel.keyboard.enterFlag ≠ 1 := by
    intro hint hflag
    rw [hpatient hflag] at hint
    cases hint
  cases op with
  | scancode saved l idx =>
    have hissued : (keyAction s.kernel idx).takesBack = false := hissued
    have hidle : (keyAction s.kernel idx).interrupts = true →
      s.kernel.keyboard.enterFlag ≠ 1 := hidle
    have hstep := kbStep_scancode img s.kernel saved l idx
    have hafter := after_scancode s saved l idx
    cases hact : keyAction s.kernel idx <;> rw [hact] at hissued hidle hstep hafter
    case modifier =>
      refine h.of_same ?_ ?_ ?_ ?_ hafter
      all_goals rw [hstep]; rfl
    case enter => exact h.enter hact (hidle rfl)
    case backspace => cases hissued
    case display tid =>
      refine h.of_switch (hidle rfl) (fun u => ?_) ?_ hafter
      all_goals rw [hstep]
      · exact switchTerminal_input img s.kernel saved l tid u
      · exact switchTerminal_enterFlag img s.kernel saved l tid
    case clear => cases hissued
    case full =>
      have hfull := (keyAction_room s.kernel idx).2 hact
      have hold := h.settled (hidle rfl)
      refine h.of_tty (by rw [hstep]; rfl) (by rw [hstep]; rfl) (fun _ => ?_) (fun hflag => ?_)
      · rw [hstep, hafter]
        refine hold.refuse _ ?_
        rw [input_cur]
        exact hfull
      · rw [hstep] at hflag
        exact absurd hflag (hidle rfl)
    case type => exact h.type hact (hidle rfl)
    case ignore =>
      refine h.of_same ?_ ?_ ?_ ?_ hafter
      all_goals rw [hstep]; rfl
  | terminalWrite buf nbytes =>
    obtain ⟨screen, x, he⟩ := terminalWrite_eq s.kernel buf nbytes
    have hstep : kbStep img s.kernel (.terminalWrite buf nbytes) = _ := he
    exact h.of_same (by rw [hstep]) (by rw [hstep]) (by rw [hstep]; rfl) (by rw [hstep]) rfl
  | terminalRead buf nbytes => exact h.read buf nbytes
  | switchTerminal saved l tid =>
    exact h.of_switch (hidle rfl) (fun u => switchTerminal_input img s.kernel saved l tid u)
      (switchTerminal_enterFlag img s.kernel saved l tid) rfl

/-! ## What a read returns -/

/-- A read that finds the Enter flag set returns what the buffer holds. -/
theorem readable (h : s.Inv) : LineReadable s := by
  intro line hnext buf nbytes hn
  by_cases hflag : s.kernel.keyboard.enterFlag = 1
  · obtain ⟨line', hline⟩ := h.pending hflag
    obtain rfl : line' = line := Option.some.inj (hline.next.symm.trans hnext)
    have htext := hline.text
    rw [input_cur] at htext
    rw [terminalRead_eq buf hn hflag]
    refine ⟨_, rfl, fun i hi => ?_, ?_⟩
    · have hi : i + 1 < min nbytes kbBufSize := hi
      have hbuf : i < kbBufSize := by omega
      dsimp only
      rw [if_pos hi, ← htext i hbuf]
      exact (if_pos hbuf).symm
    · have hpos : 0 < min nbytes kbBufSize := by
        simp only [kbBufSize]
        omega
      show (if min nbytes kbBufSize - 1 + 1 < min nbytes kbBufSize then _
        else if min nbytes kbBufSize - 1 + 1 = min nbytes kbBufSize then _ else _) = _
      rw [if_neg (by omega), if_pos (by omega)]
  · -- no line waits
    have hnone := (h.settled hflag).next
    rw [hnone] at hnext
    cases hnext

theorem reads (h : s.Inv) (op : KbOp) : ReadsOneLine s op := by
  cases op with
  | terminalRead buf nbytes =>
    intro hn r hr
    have hflag : s.kernel.keyboard.enterFlag = 1 := by
      by_contra hne
      rw [terminalRead_waits buf hn hne] at hr
      cases hr
    obtain ⟨line, hline⟩ := h.pending hflag
    obtain ⟨r', hr', hreturns⟩ := h.readable line hline.next buf nbytes hn
    obtain rfl : r' = r := Option.some.inj (hr'.symm.trans hr)
    obtain ⟨before, hlines, _⟩ := hline.last
    refine ⟨line, ?_, hreturns.within⟩
    rw [hlines]
    exact List.mem_append_right _ List.mem_cons_self
  | _ => trivial

end Discipline.Inv

/-- Nothing is typed after boot. -/
theorem start_inv (img : Image) {k : Kernel} (hk : k.NothingTyped) (saved : Regs) (l : Locals) :
    (Discipline.start img k saved l).Inv := by
  have hflag : (entry img k saved l).1.keyboard.enterFlag = 0 :=
    switchTerminal_enterFlag img _ saved l 0
  have hempty : ∀ u, Settled ⟨[], [], 0⟩ ((entry img k saved l).1.input u) := by
    intro u
    rw [entry_input]
    split
    · exact ⟨hk.index, fun j hj => (if_pos hj).trans (hk.buffer j hj), rfl⟩
    · exact ⟨rfl, fun j hj => (if_pos hj).trans (hk.saved u j hj), rfl⟩
  exact ⟨fun u _ => hempty u, fun _ => hempty _, fun hone => by
    have hone : (entry img k saved l).1.keyboard.enterFlag = 1 := hone
    rw [hflag] at hone
    cases hone⟩

/-- Reads return characters of one line and completed lines are readable, in every run in which
    nobody types or switches between Enter and the read. -/
theorem lines_kept (img : Image) {k : Kernel} (hk : k.NothingTyped) (saved : Regs) (l : Locals)
    {ops : List KbOp}
    (hrun : Allowed (Discipline.step img) Discipline.Patient (Discipline.start img k saved l) ops) :
    Allowed (Discipline.step img) ReadsOneLine (Discipline.start img k saved l) ops ∧
      LineReadable (runFrom (Discipline.step img) (Discipline.start img k saved l) ops) := by
  have hstart := start_inv img hk saved l
  have hstep : ∀ s op, Discipline.Inv s → s.Patient op → (s.step img op).Inv :=
    fun _ _ h hop => h.step hop
  exact ⟨hrun.steps _ hstep (fun _ op h _ => h.reads op) hstart,
    (hrun.invariant _ hstep hstart).readable⟩

/-- A line typed, with a key before and a switch away and back. -/
def patientRun : List KbOp :=
  [.scancode ⟨0, 0⟩ (Locals.zero ⟨0, 0⟩) 0x1E,
    .switchTerminal ⟨0, 0⟩ (Locals.zero ⟨0, 0⟩) terminalB,
    .switchTerminal ⟨0, 0⟩ (Locals.zero ⟨0, 0⟩) terminalA,
    .scancode ⟨0, 0⟩ (Locals.zero ⟨0, 0⟩) 0x30,
    .scancode ⟨0, 0⟩ (Locals.zero ⟨0, 0⟩) 0x1C, .terminalRead (fun _ => 0) 3]

theorem lines_kept_patientRun :
    Allowed (Discipline.step shellImage) ReadsOneLine
        (Discipline.start shellImage Kernel.loaded ⟨0, 0⟩ (Locals.zero ⟨0, 0⟩)) patientRun ∧
      LineReadable (runFrom (Discipline.step shellImage)
        (Discipline.start shellImage Kernel.loaded ⟨0, 0⟩ (Locals.zero ⟨0, 0⟩)) patientRun) :=
  lines_kept shellImage loaded_nothingTyped ⟨0, 0⟩ (Locals.zero ⟨0, 0⟩) (by decide)

/-- "ab", Enter, and "c" before the line is read. -/
def hastyRun : List KbOp :=
  [.scancode ⟨0, 0⟩ (Locals.zero ⟨0, 0⟩) 0x1E, .scancode ⟨0, 0⟩ (Locals.zero ⟨0, 0⟩) 0x30,
    .scancode ⟨0, 0⟩ (Locals.zero ⟨0, 0⟩) 0x1C, .scancode ⟨0, 0⟩ (Locals.zero ⟨0, 0⟩) 0x2E]

/-- The read returns "cb". -/
theorem lines_mixed : ¬ ∀ (img : Image) (k : Kernel), k.NothingTyped →
    ∀ (saved : Regs) (l : Locals) (ops : List KbOp),
      Allowed (Discipline.step img) Discipline.Issued (Discipline.start img k saved l) ops →
        Allowed (Discipline.step img) ReadsOneLine (Discipline.start img k saved l) ops ∧
          LineReadable (runFrom (Discipline.step img) (Discipline.start img k saved l) ops) := by
  intro hclaim
  have h := (hclaim shellImage Kernel.loaded loaded_nothingTyped ⟨0, 0⟩ (Locals.zero ⟨0, 0⟩)
    (hastyRun ++ [.terminalRead (fun _ => 0) 3]) (by decide)).1
  obtain ⟨line, hmem, hwithin⟩ := (allowed_concat.mp h).2 (by decide) _ rfl
  rw [show (runFrom (Discipline.step shellImage) (Discipline.start shellImage Kernel.loaded ⟨0, 0⟩
    (Locals.zero ⟨0, 0⟩)) hastyRun).tty.lines = [[0x61, 0x62]] by decide +kernel,
    List.mem_singleton] at hmem
  subst hmem
  have hfirst := hwithin 0 (by decide)
  revert hfirst
  decide

end LmaOS
