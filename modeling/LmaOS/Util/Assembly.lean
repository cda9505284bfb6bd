import LmaOS.Util.X86

/-
  Assembly code that calls C functions, and the interrupts of the protected mode.

  `run e code m` executes code without loops from its first instruction to its `ret` or `iret`.
  The environment `e` says what the called functions do, what a software interrupt does, and where
  an instruction stands, which is the return address its calls push.

  `Stack mem sp ws`: the words `ws` lie on the stack, the last pushed first. `Cdecl f n k m m'`: the
  function, called in `m` with `n` arguments, comes back in `m'` and has kept to the calling
  convention, and it has left the `k` words above its arguments alone.

  `Machine.interrupt` is what the processor does on the way through a gate, with a change of the
  stack where the privilege level changes, and `Machine.iret` the way back.
-/
namespace LmaOS.Util.Asm

open X86

/-! ## The machine -/

/-- The general registers but `esp`. -/
inductive Reg where | eax | ecx | edx | ebx | ebp | esi | edi
  deriving DecidableEq

/-- `eip` is the next instruction wherever control is handed over. -/
structure Machine where
  reg : Reg → Word
  esp : Word
  eflags : Word
  eip : Word
  cs : BitVec 16
  ss : BitVec 16
  mem : Memory

/-- A selector is pushed as a word. -/
def selectorWord (s : BitVec 16) : Word := s.setWidth 32

namespace Machine

def set (m : Machine) (r : Reg) (w : Word) : Machine := { m with reg := Function.update m.reg r w }

def push (m : Machine) (w : Word) : Machine :=
  { m with esp := m.esp - 4, mem := storeDword m.mem (m.esp - 4) w }

/-- The first word of the list is pushed last. -/
def pushes (m : Machine) (ws : List Word) : Machine := ws.foldr (fun w m => m.push w) m

def top (m : Machine) : Word := loadDword m.mem m.esp

/-- `n` words are taken off the stack. -/
def drop (m : Machine) (n : Nat) : Machine := { m with esp := m.esp + BitVec.ofNat 32 (4 * n) }

def pop (m : Machine) (r : Reg) : Machine := (m.set r m.top).drop 1

def pops (m : Machine) (rs : List Reg) : Machine := rs.foldl (fun m r => m.pop r) m

def ret (m : Machine) : Machine := { m.drop 1 with eip := m.top }

/-- The privilege level. -/
def cpl (m : Machine) : Nat := m.cs.toNat % 4

end Machine

/-! ### Flags -/

def carryBit : Nat := 0
def zeroBit : Nat := 6

/-- The flags an arithmetic instruction sets: CF, PF, AF, ZF, SF and OF. -/
def arithmeticFlags : Word := 0x8D5

def evenParity (w : Word) : Bool :=
  (List.range 8).foldl (fun p i => p ^^ w.getLsbD i) true

def flagWord (cf pf af zf sf of : Bool) : Word :=
  (BitVec.ofBool cf).setWidth 32 ||| (BitVec.ofBool pf).setWidth 32 <<< 2 |||
    (BitVec.ofBool af).setWidth 32 <<< 4 ||| (BitVec.ofBool zf).setWidth 32 <<< 6 |||
    (BitVec.ofBool sf).setWidth 32 <<< 7 ||| (BitVec.ofBool of).setWidth 32 <<< 11

/-- The flags of `a - b`. -/
def subFlags (eflags a b : Word) : Word :=
  (eflags &&& ~~~arithmeticFlags) ||| flagWord (a.ult b) (evenParity (a - b))
    ((a.setWidth 4).ult (b.setWidth 4)) (decide (a = b)) (a - b).msb
    (a.msb != b.msb && (a - b).msb != a.msb)

/-- The flags of `a + b`. -/
def addFlags (eflags a b : Word) : Word :=
  (eflags &&& ~~~arithmeticFlags) ||| flagWord ((a + b).ult a) (evenParity (a + b))
    ((a.setWidth 4 + b.setWidth 4).ult (a.setWidth 4)) (decide (a + b = 0)) (a + b).msb
    (a.msb == b.msb && (a + b).msb != a.msb)

def Machine.cmpl (m : Machine) (imm : Word) (r : Reg) : Machine :=
  { m with eflags := subFlags m.eflags (m.reg r) imm }

theorem subFlags_carry (eflags a b : Word) :
    (subFlags eflags a b).getLsbD carryBit = a.ult b := by
  unfold subFlags
  generalize a.ult b = c
  cases c <;> simp [flagWord, carryBit, arithmeticFlags]

theorem subFlags_zero (eflags a b : Word) :
    (subFlags eflags a b).getLsbD zeroBit = decide (a = b) := by
  unfold subFlags
  generalize decide (a = b) = z
  cases z <;> simp [flagWord, zeroBit, arithmeticFlags]

/-! ## Words in memory -/

section Words

variable {mem mem' : Memory} {a : Word}

theorem loadDword_congr (h : ∀ k, k < 4 →
    mem' (a + BitVec.ofNat 32 k) = mem (a + BitVec.ofNat 32 k)) :
    loadDword mem' a = loadDword mem a := by
  unfold loadDword
  exact congrArg _ (Buf.word_congr fun k hk => by rw [Nat.zero_add]; exact h k hk)

theorem loadDword_storeDword (mem : Memory) (a w : Word) :
    loadDword (storeDword mem a w) a = w := by
  unfold loadDword
  rw [Buf.word_of_bytes (w := w.toNat), Nat.mod_eq_of_lt w.isLt, BitVec.ofNat_toNat,
    BitVec.setWidth_eq]
  intro k hk
  unfold storeDword
  rw [Nat.zero_add, toNat_add_sub a (by omega), if_pos hk]

/-- A store does not touch the bytes above it. -/
theorem storeDword_above (mem : Memory) (a w : Word) {i : Nat} (hi : 4 ≤ i) (hlt : i < 2 ^ 32) :
    storeDword mem a w (a + BitVec.ofNat 32 i) = mem (a + BitVec.ofNat 32 i) := by
  unfold storeDword
  rw [toNat_add_sub a hlt, if_neg (by omega)]

end Words

/-! ## The stack -/

def Stack (mem : Memory) : Word → List Word → Prop
  | _, [] => True
  | sp, w :: ws => loadDword mem sp = w ∧ Stack mem (sp + 4) ws

section Stack

variable {mem mem' : Memory} {sp w : Word} {ws vs : List Word} {m : Machine}

theorem Stack.congr (h : Stack mem sp ws) (hmem : ∀ i, i < 4 * ws.length →
    mem' (sp + BitVec.ofNat 32 i) = mem (sp + BitVec.ofNat 32 i)) : Stack mem' sp ws := by
  induction ws generalizing sp with
  | nil => trivial
  | cons w ws ih =>
    rw [List.length_cons] at hmem
    refine ⟨(loadDword_congr fun k hk => hmem k (by omega)).trans h.1, ih h.2 fun i hi => ?_⟩
    have hbyte := hmem (4 + i) (by omega)
    rwa [← addr_add] at hbyte

theorem stack_append : Stack mem sp (ws ++ vs) ↔
    Stack mem sp ws ∧ Stack mem (sp + BitVec.ofNat 32 (4 * ws.length)) vs := by
  induction ws generalizing sp with
  | nil =>
    rw [List.length_nil, Nat.mul_zero, BitVec.add_zero]
    exact ⟨fun h => ⟨trivial, h⟩, And.right⟩
  | cons w ws ih =>
    have haddr : sp + BitVec.ofNat 32 (4 * (w :: ws).length) =
        sp + 4 + BitVec.ofNat 32 (4 * ws.length) := by
      rw [show (4 : Word) = BitVec.ofNat 32 4 from rfl, addr_add, List.length_cons]
      congr 2
      omega
    rw [List.cons_append, haddr]
    exact (and_congr_right fun _ => ih).trans and_assoc.symm

theorem Stack.push (h : Stack m.mem m.esp ws) (w : Word) (hlen : ws.length < 2 ^ 29) :
    Stack (m.push w).mem (m.push w).esp (w :: ws) := by
  refine ⟨loadDword_storeDword _ _ _, ?_⟩
  show Stack (storeDword m.mem (m.esp - 4) w) (m.esp - 4 + 4) ws
  rw [BitVec.sub_add_cancel]
  refine h.congr fun i hi => ?_
  have habove := storeDword_above m.mem (m.esp - 4) w (i := 4 + i) (by omega) (by omega)
  rw [← addr_add] at habove
  rwa [show m.esp - 4 + BitVec.ofNat 32 4 = m.esp from BitVec.sub_add_cancel _ _] at habove

theorem pushes_cons (m : Machine) (w : Word) (ws : List Word) :
    m.pushes (w :: ws) = (m.pushes ws).push w := rfl

theorem pushes_append (m : Machine) (ws vs : List Word) :
    (m.pushes vs).pushes ws = m.pushes (ws ++ vs) := (List.foldr_append ..).symm

theorem pushes_esp (m : Machine) (ws : List Word) :
    (m.pushes ws).esp = m.esp - BitVec.ofNat 32 (4 * ws.length) := by
  induction ws with
  | nil => exact (BitVec.sub_zero _).symm
  | cons w ws ih =>
    show (m.pushes ws).esp - 4 = _
    rw [ih, BitVec.sub_sub, List.length_cons, Nat.mul_succ, BitVec.ofNat_add]
    rfl

/-- Only the two registers of the stack and its bytes change. -/
theorem pushes_eq (m : Machine) (ws : List Word) :
    m.pushes ws = { m with esp := (m.pushes ws).esp, mem := (m.pushes ws).mem } := by
  induction ws with
  | nil => rfl
  | cons w ws ih =>
    rw [pushes_cons, ih]
    rfl

@[simp] theorem pushes_reg (m : Machine) (ws : List Word) : (m.pushes ws).reg = m.reg := by
  rw [pushes_eq]

@[simp] theorem pushes_eflags (m : Machine) (ws : List Word) :
    (m.pushes ws).eflags = m.eflags := by
  rw [pushes_eq]

@[simp] theorem pushes_cs (m : Machine) (ws : List Word) : (m.pushes ws).cs = m.cs := by
  rw [pushes_eq]

@[simp] theorem pushes_ss (m : Machine) (ws : List Word) : (m.pushes ws).ss = m.ss := by
  rw [pushes_eq]

/-- The flags have no part in it. -/
theorem pushes_eflags_mem (m : Machine) (eflags : Word) (ws : List Word) :
    (({ m with eflags := eflags } : Machine).pushes ws).mem = (m.pushes ws).mem := by
  have hboth : ∀ ws : List Word, ({ m with eflags := eflags } : Machine).pushes ws =
      { m.pushes ws with eflags := eflags } := by
    intro ws
    induction ws with
    | nil => rfl
    | cons w ws ih =>
      rw [pushes_cons, ih]
      rfl
  rw [hboth]

theorem pushes_stack (h : Stack m.mem m.esp vs) (ws : List Word)
    (hlen : ws.length + vs.length < 2 ^ 29) :
    Stack (m.pushes ws).mem (m.pushes ws).esp (ws ++ vs) := by
  induction ws with
  | nil => exact h
  | cons w ws ih =>
    rw [List.length_cons] at hlen
    exact (ih (by omega)).push w (by rw [List.length_append]; omega)

/-- Nothing else is written. -/
theorem pushes_mem (m : Machine) (ws : List Word) {x : Word}
    (hx : 4 * ws.length ≤ (m.esp - 1 - x).toNat) (hlen : ws.length < 2 ^ 29) :
    (m.pushes ws).mem x = m.mem x := by
  induction ws with
  | nil => rfl
  | cons w ws ih =>
    rw [List.length_cons] at hx hlen
    refine Eq.trans ?_ (ih (by omega) (by omega))
    show storeDword (m.pushes ws).mem ((m.pushes ws).esp - 4) w x = _
    unfold storeDword
    rw [if_neg]
    rw [pushes_esp]
    bv_omega

/-- The words `ws` come back into the registers `rs`. -/
theorem pops_eq {rs : List Reg} (h : Stack m.mem m.esp (ws ++ vs)) (hlen : ws.length = rs.length) :
    m.pops rs = { m with
      reg := (rs.zip ws).foldl (fun reg p => Function.update reg p.1 p.2) m.reg
      esp := m.esp + BitVec.ofNat 32 (4 * rs.length) } := by
  induction rs generalizing m ws with
  | nil =>
    have hzero : m.esp + BitVec.ofNat 32 (4 * ([] : List Reg).length) = m.esp := BitVec.add_zero _
    rw [hzero]
    rfl
  | cons r rs ih =>
    cases ws with
    | nil => exact absurd hlen (Nat.succ_ne_zero _).symm
    | cons w ws =>
      have htop : m.pop r = (m.set r w).drop 1 := congrArg (fun w => (m.set r w).drop 1) h.1
      show (m.pop r).pops rs = _
      rw [htop, ih (m := (m.set r w).drop 1) h.2 (Nat.succ.inj hlen)]
      have haddr : m.esp + BitVec.ofNat 32 (4 * 1) + BitVec.ofNat 32 (4 * rs.length) =
          m.esp + BitVec.ofNat 32 (4 * (r :: rs).length) := by
        rw [addr_add, List.length_cons, Nat.mul_succ (4 : Nat) rs.length, Nat.add_comm]
      rw [← haddr]
      rfl

end Stack

/-! ## The calling convention -/

/-- `f` is called in `m` with `n` words of arguments and comes back in `m'`. It may have changed its
    arguments, but not the `k` words above them. -/
structure Cdecl (f : Machine → Option Machine) (n k : Nat) (m m' : Machine) : Prop where
  ends : f m = some m'
  eip : m'.eip = m.top
  esp : m'.esp = m.esp + 4
  saved : ∀ r ∈ [Reg.ebx, .ebp, .esi, .edi], m'.reg r = m.reg r
  cs : m'.cs = m.cs
  ss : m'.ss = m.ss
  frame : ∀ i, 4 * (n + 1) ≤ i → i < 4 * (n + 1 + k) →
    m'.mem (m.esp + BitVec.ofNat 32 i) = m.mem (m.esp + BitVec.ofNat 32 i)

/-- The words above the arguments are where they were. -/
theorem Cdecl.stack {f : Machine → Option Machine} {n k : Nat} {m m' : Machine} {a : Word}
    {args ws : List Word} (h : Cdecl f n k m m') (hs : Stack m.mem m.esp (a :: args ++ ws))
    (hn : args.length = n) (hk : ws.length ≤ k) :
    Stack m'.mem (m'.esp + BitVec.ofNat 32 (4 * n)) ws := by
  have hws := (stack_append.mp hs).2
  have haddr : m'.esp + BitVec.ofNat 32 (4 * n) =
      m.esp + BitVec.ofNat 32 (4 * (a :: args).length) := by
    rw [h.esp, show (4 : Word) = BitVec.ofNat 32 4 from rfl, addr_add, List.length_cons, hn]
    congr 2
    omega
  rw [haddr]
  refine hws.congr fun i hi => ?_
  rw [addr_add, List.length_cons]
  exact h.frame _ (by omega) (by omega)

theorem Cdecl.stack_nil {f : Machine → Option Machine} {k : Nat} {m m' : Machine} {a : Word}
    {ws : List Word} (h : Cdecl f 0 k m m') (hs : Stack m.mem m.esp (a :: ws))
    (hk : ws.length ≤ k) : Stack m'.mem m'.esp ws := by
  have hback := h.stack (show Stack m.mem m.esp (a :: [] ++ ws) from hs) rfl hk
  rwa [Nat.mul_zero, BitVec.add_zero] at hback

/-! ## Gates -/

/-- A descriptor of the IDT as the processor reads it. -/
structure Gate where
  offset : Word
  selector : BitVec 16
  dpl : BitVec 2
  present : Bool
  /-- A trap gate leaves the interrupt flag as it is. -/
  trap : Bool
  deriving DecidableEq

/-- 32-bit interrupt gates and trap gates; `none` for everything else. -/
def Gate.decode (d : BitVec 64) : Option Gate :=
  let type := d.extractLsb' 40 5
  if type = 0b01110 ∨ type = 0b01111 then
    some {
      offset := d.extractLsb' 48 16 ++ d.extractLsb' 0 16
      selector := d.extractLsb' 16 16
      dpl := d.extractLsb' 45 2
      present := decide (d.extractLsb' 47 1 = 1)
      trap := decide (type = 0b01111) }
  else none

/-- The stack that the task state segment has for level 0. -/
structure Tss where
  esp0 : Word
  ss0 : BitVec 16

/-- TF, NT, RF and VM, which every gate clears. -/
def gateFlags : Word := 0x34100

def interruptFlag : Word := 0x200

namespace Machine

/-- What is pushed of the interrupted program. -/
def frame (m : Machine) (inner : Bool) : List Word :=
  [m.eip, selectorWord m.cs, m.eflags] ++ if inner then [m.esp, selectorWord m.ss] else []

/-- The gate leads to a lower level. -/
def inner (m : Machine) (g : Gate) : Bool := decide (g.selector.toNat % 4 < m.cpl)

/-- The way through a gate. -/
def interrupt (t : Tss) (g : Gate) (m : Machine) : Machine :=
  let k := if m.inner g then { m with esp := t.esp0, ss := t.ss0 } else m
  { k.pushes (m.frame (m.inner g)) with
    eip := g.offset
    cs := g.selector
    eflags := m.eflags &&& ~~~(if g.trap then gateFlags else gateFlags ||| interruptFlag) }

def iret (m : Machine) : Machine :=
  let m' := { m with
    eip := m.top
    cs := (loadDword m.mem (m.esp + 4)).setWidth 16
    eflags := loadDword m.mem (m.esp + 4 + 4) }
  if m.cpl < m'.cpl then
    { m' with
      esp := loadDword m.mem (m.esp + 4 + 4 + 4)
      ss := (loadDword m.mem (m.esp + 4 + 4 + 4 + 4)).setWidth 16 }
  else m'.drop 3

end Machine

/-- A software interrupt may take the gate. -/
def Gate.admits (g : Gate) (m : Machine) : Bool := g.present && decide (m.cpl ≤ g.dpl.toNat)

section Interrupt

variable (t : Tss) (g : Gate) (m : Machine)

theorem interrupt_reg : (m.interrupt t g).reg = m.reg := by
  unfold Machine.interrupt
  dsimp only
  rw [pushes_eq]
  split <;> rfl

/-- The stack the gate leads to. -/
def gateStack : Word := if m.inner g then t.esp0 else m.esp

theorem frame_length (inner : Bool) : (m.frame inner).length = if inner then 5 else 3 := by
  cases inner <;> rfl

theorem frame_length_le (inner : Bool) : (m.frame inner).length ≤ 5 := by
  rw [frame_length]
  split <;> decide

theorem interrupt_stack :
    Stack (m.interrupt t g).mem (m.interrupt t g).esp (m.frame (m.inner g)) := by
  have hframe : (m.frame (m.inner g)).length + ([] : List Word).length < 2 ^ 29 :=
    Nat.lt_of_le_of_lt (frame_length_le m _) (by decide)
  have hstack := fun k : Machine =>
    pushes_stack (show Stack k.mem k.esp [] from trivial) (m.frame (m.inner g)) hframe
  rw [List.append_nil] at hstack
  exact hstack _

/-- Only the frame is written. -/
theorem interrupt_mem {x : Word} (hx : 20 ≤ (gateStack t g m - 1 - x).toNat) :
    (m.interrupt t g).mem x = m.mem x := by
  have hlen := frame_length_le m (m.inner g)
  unfold gateStack at hx
  unfold Machine.interrupt
  dsimp only
  split
  · rename_i hinner
    rw [if_pos hinner] at hx
    have hwords : 4 * (m.frame (m.inner g)).length ≤ (t.esp0 - 1 - x).toNat := by omega
    exact pushes_mem { m with esp := t.esp0, ss := t.ss0 } _ hwords (by omega)
  · rename_i hinner
    rw [if_neg hinner] at hx
    have hwords : 4 * (m.frame (m.inner g)).length ≤ (m.esp - 1 - x).toNat := by omega
    exact pushes_mem m _ hwords (by omega)

theorem interrupt_esp : (m.interrupt t g).esp =
    gateStack t g m - BitVec.ofNat 32 (4 * (m.frame (m.inner g)).length) := by
  unfold Machine.interrupt gateStack
  dsimp only
  rw [pushes_esp]
  split <;> rfl

/-- Below the frame, `ws` are pushed. -/
theorem interrupt_pushes_mem (ws : List Word) (hlen : ws.length < 2 ^ 28) {x : Word}
    (hx : 4 * (5 + ws.length) ≤ (gateStack t g m - 1 - x).toNat) :
    ((m.interrupt t g).pushes ws).mem x = m.mem x := by
  have hframe := frame_length_le m (m.inner g)
  refine (pushes_mem _ ws ?_ (by omega)).trans (interrupt_mem t g m (by omega))
  rw [interrupt_esp]
  generalize (m.frame (m.inner g)).length = n at hframe ⊢
  have hn : (BitVec.ofNat 32 (4 * n)).toNat = 4 * n := by
    rw [BitVec.toNat_ofNat, Nat.mod_eq_of_lt (by omega)]
  bv_omega

end Interrupt

theorem selectorWord_back (s : BitVec 16) : (selectorWord s).setWidth 16 = s := by
  unfold selectorWord
  rw [BitVec.setWidth_setWidth_of_le _ (by decide), BitVec.setWidth_eq]

/-- The program goes on as it was interrupted, but for the memory and the registers. -/
theorem iret_frame {t : Tss} {g : Gate} {m m' : Machine}
    (hs : Stack m'.mem m'.esp (m.frame (m.inner g))) (hcs : m'.cs = g.selector)
    (hesp : m'.esp = (m.interrupt t g).esp) (hss : m'.ss = (m.interrupt t g).ss) :
    m'.iret = { m with reg := m'.reg, mem := m'.mem } := by
  obtain ⟨heip, hword, hflags, hrest⟩ := hs
  have hback : (loadDword m'.mem (m'.esp + 4)).setWidth 16 = m.cs := by
    rw [hword, selectorWord_back]
  have hcpl : m'.cpl = g.selector.toNat % 4 := by
    unfold Machine.cpl
    rw [hcs]
  unfold Machine.iret
  dsimp only
  rw [hback, hflags, show m'.top = m.eip from heip]
  by_cases hlt : g.selector.toNat % 4 < m.cpl
  · have hinner : m.inner g = true := decide_eq_true hlt
    rw [hinner] at hrest
    rw [if_pos (by rw [hcpl]; exact hlt), hrest.1, hrest.2.1, selectorWord_back]
  · have hinner : m.inner g = false := decide_eq_false hlt
    unfold Machine.interrupt at hesp hss
    rw [hinner, if_neg Bool.false_ne_true] at hesp hss
    rw [if_neg (by rw [hcpl]; exact hlt)]
    have hsp : m'.esp + BitVec.ofNat 32 (4 * 3) = m.esp := by
      rw [hesp]
      show (m.pushes (m.frame false)).esp + _ = _
      rw [pushes_esp]
      exact BitVec.sub_add_cancel _ _
    have hsame : m'.ss = m.ss := by
      rw [hss]
      show (m.pushes (m.frame false)).ss = m.ss
      rw [pushes_eq]
    unfold Machine.drop
    dsimp only
    rw [hsp, hsame]

/-! ## Code -/

/-- Sources come first. -/
inductive Instr (L F : Type) where
  | label (l : L)
  | ja (l : L)
  | jb (l : L)
  | je (l : L)
  | pushl (r : Reg)
  | pushlImm (imm : Word)
  | popl (r : Reg)
  | pushfl
  | popfl
  /-- `movl $imm, %dst`. -/
  | movlImm (imm : Word) (dst : Reg)
  /-- `movl o(%esp), %dst`. -/
  | movlStack (o : Nat) (dst : Reg)
  /-- `cmpl $imm, %r`. -/
  | cmplImm (imm : Word) (r : Reg)
  /-- `addl $imm, %esp`. -/
  | addlEsp (imm : Word)
  | call (f : F)
  /-- `call *table(, %r, 4)`. There is nothing to call at a null pointer. -/
  | callTable (table : List (Option F)) (r : Reg)
  /-- `int $v`. -/
  | int (v : Nat)
  | ret
  | iret

structure Env (L F : Type) where
  /-- The address of the code behind an instruction. -/
  behind : List (Instr L F) → Word
  call : F → Machine → Option Machine
  int : Nat → Machine → Option Machine

section Code

variable {L F : Type} [DecidableEq L]

def Instr.marks (l : L) : Instr L F → Bool
  | label l' => decide (l' = l)
  | _ => false

/-- The code behind a label. -/
def target (l : L) : List (Instr L F) → List (Instr L F)
  | [] => []
  | i :: is => if i.marks l then is else target l is

/-- `f` is called from the instruction before `rest`. `none`: it does not come back there. -/
def Env.callFunction (e : Env L F) (rest : List (Instr L F)) (f : F) (m : Machine) :
    Option Machine :=
  (e.call f (m.push (e.behind rest))).bind fun m' =>
    if m'.eip = e.behind rest then some m' else none

def Env.interrupt (e : Env L F) (rest : List (Instr L F)) (v : Nat) (m : Machine) :
    Option Machine :=
  (e.int v { m with eip := e.behind rest }).bind fun m' =>
    if m'.eip = e.behind rest then some m' else none

/-- What an instruction does that is neither a jump nor the end. -/
def Instr.exec (e : Env L F) (rest : List (Instr L F)) (m : Machine) :
    Instr L F → Option Machine
  | label _ | ja _ | jb _ | je _ | ret | iret => some m
  | pushl r => some (m.push (m.reg r))
  | pushlImm imm => some (m.push imm)
  | popl r => some (m.pop r)
  | pushfl => some (m.push m.eflags)
  | popfl => some ({ m with eflags := m.top }.drop 1)
  | movlImm imm dst => some (m.set dst imm)
  | movlStack o dst => some (m.set dst (loadDword m.mem (m.esp + BitVec.ofNat 32 o)))
  | cmplImm imm r => some (m.cmpl imm r)
  | addlEsp imm => some { m with esp := m.esp + imm, eflags := addFlags m.eflags m.esp imm }
  | call f => e.callFunction rest f m
  | callTable table r => (table.getD (m.reg r).toNat none).bind fun f => e.callFunction rest f m
  | int v => e.interrupt rest v m

/-- The code it goes on with. -/
def Instr.next (code rest : List (Instr L F)) (m : Machine) : Instr L F → List (Instr L F)
  | ja l =>
    if !m.eflags.getLsbD carryBit && !m.eflags.getLsbD zeroBit then target l code else rest
  | jb l => if m.eflags.getLsbD carryBit then target l code else rest
  | je l => if m.eflags.getLsbD zeroBit then target l code else rest
  | _ => rest

/-- At most `k` instructions of `code`. -/
def exec (e : Env L F) (code : List (Instr L F)) :
    Nat → List (Instr L F) → Machine → Option Machine
  | 0, _, _ => none
  | _ + 1, [], _ => none
  | _ + 1, .ret :: _, m => some m.ret
  | _ + 1, .iret :: _, m => some m.iret
  | k + 1, i :: rest, m => (i.exec e rest m).bind (exec e code k (i.next code rest m))

/-- Code whose jumps go forward: no instruction comes twice. -/
def run (e : Env L F) (code : List (Instr L F)) (m : Machine) : Option Machine :=
  exec e code code.length code m

omit [DecidableEq L] in
/-- A call of a function that comes back. -/
theorem callFunction_cdecl {e : Env L F} {rest : List (Instr L F)} {f : F} {m m' : Machine}
    {n k : Nat} (h : Cdecl (e.call f) n k (m.push (e.behind rest)) m') :
    e.callFunction rest f m = some m' := by
  have heip : m'.eip = e.behind rest := h.eip.trans (loadDword_storeDword _ _ _)
  unfold Env.callFunction
  rw [h.ends, Option.bind_some, if_pos heip]

/-! ### Comparisons and jumps -/

section Jumps

variable (e : Env L F) (code : List (Instr L F)) (k : Nat) (imm : Word) (r : Reg) (l : L)
  (rest : List (Instr L F)) (m : Machine)

theorem exec_cmpl_ja : exec e code (k + 2) (.cmplImm imm r :: .ja l :: rest) m =
    exec e code k (if imm.ult (m.reg r) then target l code else rest) (m.cmpl imm r) := by
  have habove : (!(m.reg r).ult imm && !decide (m.reg r = imm)) = imm.ult (m.reg r) := by
    rw [Bool.eq_iff_iff, Bool.and_eq_true, Bool.not_eq_true', Bool.not_eq_true',
      decide_eq_false_iff_not, ← Bool.not_eq_true, BitVec.ult_iff_lt, BitVec.ult_iff_lt]
    bv_omega
  show exec e code k (if !(subFlags m.eflags (m.reg r) imm).getLsbD carryBit &&
    !(subFlags m.eflags (m.reg r) imm).getLsbD zeroBit then target l code else rest) _ = _
  rw [subFlags_carry, subFlags_zero, habove]

theorem exec_cmpl_jb : exec e code (k + 2) (.cmplImm imm r :: .jb l :: rest) m =
    exec e code k (if (m.reg r).ult imm then target l code else rest) (m.cmpl imm r) := by
  show exec e code k (if (subFlags m.eflags (m.reg r) imm).getLsbD carryBit
    then target l code else rest) _ = _
  rw [subFlags_carry]

theorem exec_cmpl_je : exec e code (k + 2) (.cmplImm imm r :: .je l :: rest) m =
    exec e code k (if m.reg r = imm then target l code else rest) (m.cmpl imm r) := by
  show exec e code k (if (subFlags m.eflags (m.reg r) imm).getLsbD zeroBit
    then target l code else rest) _ = _
  rw [subFlags_zero]
  exact congrArg (exec e code k · _) (if_congr decide_eq_true_iff rfl rfl)

end Jumps

end Code

end LmaOS.Util.Asm
