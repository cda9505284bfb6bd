import LmaOS.Util.Assembly

/-
  The interrupt descriptor table (idt.c, x86_desc.h).

  `idtInit` fills the table as the source does, entry by entry. `idt_decode` says what the processor
  reads there: for every vector a gate into the kernel's code segment, to the handler of
  `vectorHandler`, and a user program may take the one of the system calls only.
-/
namespace LmaOS.Interrupts

open Util Util.Asm
open Util.X86 (Word)

/-! ## Descriptors -/

/-- `idt_desc_t`, in the order of the source. -/
structure IdtDesc where
  offset_15_00 : BitVec 16
  segSelector : BitVec 16
  reserved4 : BitVec 8
  reserved3 : BitVec 1
  reserved2 : BitVec 1
  reserved1 : BitVec 1
  size : BitVec 1
  reserved0 : BitVec 1
  dpl : BitVec 2
  present : BitVec 1
  offset_31_16 : BitVec 16

/-- The packed structure: the first member has the lowest bits. -/
def IdtDesc.val (d : IdtDesc) : BitVec 64 :=
  d.offset_31_16 ++ d.present ++ d.dpl ++ d.reserved0 ++ d.size ++ d.reserved1 ++ d.reserved2 ++
    d.reserved3 ++ d.reserved4 ++ d.segSelector ++ d.offset_15_00

/-- `SET_IDT_ENTRY`. -/
def IdtDesc.setEntry (str : IdtDesc) (handler : Word) : IdtDesc :=
  { str with
    offset_31_16 := ((handler &&& 0xFFFF0000) >>> 16).setWidth 16
    offset_15_00 := (handler &&& 0xFFFF).setWidth 16 }

/-! ## The table -/

/-- The functions whose addresses stand in the table. -/
inductive Handler where
  /-- `idt_0` to `idt_19`. -/
  | idt (i : Nat)
  | reserved
  | nonReserved
  | pitHandler
  | kbHandler
  | rtcHandler
  | syscallHandler
  deriving DecidableEq

abbrev Idt := Nat → IdtDesc

def kernelCs : BitVec 16 := 0x0010

/-- The first loop of `idt_init`. -/
def initEntry (i : Nat) (d : IdtDesc) : IdtDesc :=
  { d with
    segSelector := kernelCs
    reserved4 := 0
    reserved3 := if i = 128 then 1 else if i < 32 ∧ i ≠ 3 then 1 else 0
    reserved2 := 1
    reserved1 := 1
    size := 1
    reserved0 := 0
    dpl := if i = 128 then 3 else 0
    present := 1 }

/-- A loop over the entries from `lo` on. -/
def eachEntry (f : Nat → IdtDesc → IdtDesc) (lo n : Nat) (idt : Idt) : Idt :=
  (List.range' lo n).foldl (fun idt i => Function.update idt i (f i (idt i))) idt

def setIdtEntry (i : Nat) (handler : Word) (idt : Idt) : Idt :=
  Function.update idt i ((idt i).setEntry handler)

/-- `addr` is where the linker has put the functions. -/
def idtInit (addr : Handler → Word) (idt : Idt) : Idt :=
  let idt := eachEntry initEntry 0 256 idt
  let idt := eachEntry (fun i d => d.setEntry (addr (.idt i))) 0 20 idt
  let idt := eachEntry (fun _ d => d.setEntry (addr .reserved)) 20 12 idt
  let idt := eachEntry (fun _ d => d.setEntry (addr .nonReserved)) 32 224 idt
  let idt := setIdtEntry 32 (addr .pitHandler) idt
  let idt := setIdtEntry 33 (addr .kbHandler) idt
  let idt := setIdtEntry 40 (addr .rtcHandler) idt
  setIdtEntry 128 (addr .syscallHandler) idt

/-! ## What the processor reads -/

/-- The handler of a vector. -/
def vectorHandler (v : Nat) : Handler :=
  if v = 128 then .syscallHandler
  else if v = 40 then .rtcHandler
  else if v = 33 then .kbHandler
  else if v = 32 then .pitHandler
  else if v < 20 then .idt v
  else if v < 32 then .reserved
  else .nonReserved

/-- The gate of a vector. -/
def vectorGate (addr : Handler → Word) (v : Nat) : Gate where
  offset := addr (vectorHandler v)
  selector := kernelCs
  dpl := if v = 128 then 3 else 0
  present := true
  trap := decide (v = 128 ∨ v < 32 ∧ v ≠ 3)

section Decode

variable {d : IdtDesc}

theorem setEntry_offset (d : IdtDesc) (handler : Word) :
    (d.setEntry handler).offset_31_16 ++ (d.setEntry handler).offset_15_00 = handler := by
  have hmask : ∀ w : Word, (w &&& 0xFFFF).setWidth 16 = w.extractLsb' 0 16 := by
    intro w
    rw [BitVec.setWidth_and, BitVec.setWidth_eq_extractLsb' (by decide)]
    exact BitVec.and_allOnes
  have hhigh : ((handler &&& 0xFFFF0000) >>> 16).setWidth 16 = handler.extractLsb' 16 16 := by
    rw [BitVec.ushiftRight_and_distrib, ← BitVec.setWidth_ushiftRight_eq_extractLsb,
      BitVec.setWidth_and]
    exact BitVec.and_allOnes
  unfold IdtDesc.setEntry
  dsimp only
  rw [hhigh, hmask]
  exact BitVec.extractLsb'_append_extractLsb'

/-- The fields the processor looks at. -/
theorem val_fields (d : IdtDesc) :
    d.val.extractLsb' 48 16 = d.offset_31_16 ∧ d.val.extractLsb' 47 1 = d.present ∧
      d.val.extractLsb' 45 2 = d.dpl ∧ d.val.extractLsb' 44 1 = d.reserved0 ∧
      d.val.extractLsb' 43 1 = d.size ∧ d.val.extractLsb' 42 1 = d.reserved1 ∧
      d.val.extractLsb' 41 1 = d.reserved2 ∧ d.val.extractLsb' 40 1 = d.reserved3 ∧
      d.val.extractLsb' 16 16 = d.segSelector ∧ d.val.extractLsb' 0 16 = d.offset_15_00 := by
  unfold IdtDesc.val
  simp (disch := decide) only [BitVec.extractLsb'_append_eq_of_le,
    BitVec.extractLsb'_append_eq_of_add_le, Nat.reduceSub, BitVec.extractLsb'_eq_self, and_self]

/-- The highest bit of a field, and the others. -/
theorem extractLsb'_high (x : BitVec 64) (i n : Nat) :
    x.extractLsb' i (1 + n) = x.extractLsb' (i + n) 1 ++ x.extractLsb' i n :=
  (BitVec.extractLsb'_append_extractLsb'_eq_extractLsb' rfl).symm

theorem val_type (d : IdtDesc) : d.val.extractLsb' 40 5 =
    d.reserved0 ++ (d.size ++ (d.reserved1 ++ (d.reserved2 ++ d.reserved3))) := by
  obtain ⟨-, -, -, h0, h1, h2, h3, h4, -, -⟩ := val_fields d
  rw [← h0, ← h1, ← h2, ← h3, ← h4]
  exact (extractLsb'_high d.val 40 4).trans (congrArg (d.val.extractLsb' 44 1 ++ ·)
    ((extractLsb'_high d.val 40 3).trans (congrArg (d.val.extractLsb' 43 1 ++ ·)
      ((extractLsb'_high d.val 40 2).trans (congrArg (d.val.extractLsb' 42 1 ++ ·)
        (extractLsb'_high d.val 40 1))))))

/-- The type of an entry of the first loop, but for its lowest bit. -/
theorem initEntry_type (i : Nat) (d : IdtDesc) (handler : Word) (b : BitVec 1)
    (hb : (initEntry i d).reserved3 = b) :
    ((initEntry i d).setEntry handler).val.extractLsb' 40 5 = (0b0111 : BitVec 4) ++ b := by
  rw [val_type]
  show (0 : BitVec 1) ++ ((1 : BitVec 1) ++ ((1 : BitVec 1) ++
    ((1 : BitVec 1) ++ (initEntry i d).reserved3))) = (0b0111 : BitVec 4) ++ b
  rw [hb]
  clear hb
  revert b
  decide

/-- An entry of the first loop with a handler. -/
theorem decode_entry (i : Nat) (d : IdtDesc) (handler : Word) :
    Gate.decode ((initEntry i d).setEntry handler).val = some {
      offset := handler
      selector := kernelCs
      dpl := if i = 128 then 3 else 0
      present := true
      trap := decide (i = 128 ∨ i < 32 ∧ i ≠ 3) } := by
  obtain ⟨hhigh, hpresent, hdpl, -, -, -, -, -, hselector, hlow⟩ :=
    val_fields ((initEntry i d).setEntry handler)
  unfold Gate.decode
  dsimp only
  rw [hhigh, hpresent, hdpl, hselector, hlow, setEntry_offset]
  by_cases htrap : i = 128 ∨ i < 32 ∧ i ≠ 3
  · have hbit : (initEntry i d).reserved3 = 1 := by
      show (if i = 128 then 1 else if i < 32 ∧ i ≠ 3 then 1 else 0 : BitVec 1) = 1
      rcases htrap with h | h
      · rw [if_pos h]
      · rw [if_pos h, ite_self]
    rw [initEntry_type i d handler 1 hbit, decide_eq_true htrap]
    rfl
  · obtain ⟨h128, hfault⟩ := not_or.mp htrap
    have hbit : (initEntry i d).reserved3 = 0 := by
      show (if i = 128 then 1 else if i < 32 ∧ i ≠ 3 then 1 else 0 : BitVec 1) = 0
      rw [if_neg h128, if_neg hfault]
    rw [initEntry_type i d handler 0 hbit, decide_eq_false htrap]
    rfl

/-! ### The loops -/

theorem eachEntry_apply (f : Nat → IdtDesc → IdtDesc) (lo n : Nat) (idt : Idt) (j : Nat) :
    eachEntry f lo n idt j = if lo ≤ j ∧ j < lo + n then f j (idt j) else idt j := by
  induction n with
  | zero => rw [if_neg (by omega)]; rfl
  | succ n ih =>
    unfold eachEntry at ih ⊢
    rw [List.range'_1_concat, List.foldl_append, List.foldl_cons, List.foldl_nil,
      Function.update_apply]
    split
    · subst j
      rw [if_pos (by omega), ih, if_neg (by omega)]
    · rw [ih]
      exact if_congr (by omega) rfl rfl

/-- Every entry comes from the first loop, and the last handler it gets is that of its vector. -/
theorem idtInit_apply (addr : Handler → Word) (idt : Idt) {v : Nat} (hv : v < 256) :
    idtInit addr idt v = (initEntry v (idt v)).setEntry (addr (vectorHandler v)) := by
  unfold idtInit setIdtEntry
  simp only [Function.update_apply, eachEntry_apply]
  unfold vectorHandler
  by_cases h128 : v = 128
  · subst h128
    rfl
  by_cases h40 : v = 40
  · subst h40
    rfl
  by_cases h33 : v = 33
  · subst h33
    rfl
  by_cases h32 : v = 32
  · subst h32
    rfl
  rw [if_neg h128, if_neg h40, if_neg h33, if_neg h32, if_neg h128, if_neg h40, if_neg h33,
    if_neg h32]
  have hall : 0 ≤ v ∧ v < 0 + 256 := ⟨Nat.zero_le v, by omega⟩
  by_cases h20 : v < 20
  · have hfirst : 0 ≤ v ∧ v < 0 + 20 := ⟨Nat.zero_le v, by omega⟩
    have hsecond : ¬ (20 ≤ v ∧ v < 20 + 12) := by omega
    have hthird : ¬ (32 ≤ v ∧ v < 32 + 224) := by omega
    simp only [if_pos hall, if_pos hfirst, if_neg hsecond, if_neg hthird, if_pos h20]
  have hfirst : ¬ (0 ≤ v ∧ v < 0 + 20) := by omega
  by_cases hreserved : v < 32
  · have hsecond : 20 ≤ v ∧ v < 20 + 12 := by omega
    have hthird : ¬ (32 ≤ v ∧ v < 32 + 224) := by omega
    simp only [if_pos hall, if_neg hfirst, if_pos hsecond, if_neg hthird, if_neg h20,
      if_pos hreserved]
  · have hsecond : ¬ (20 ≤ v ∧ v < 20 + 12) := by omega
    have hthird : 32 ≤ v ∧ v < 32 + 224 := by omega
    simp only [if_pos hall, if_neg hfirst, if_neg hsecond, if_pos hthird, if_neg h20,
      if_neg hreserved]

/-- What the processor reads for a vector. -/
theorem idt_decode (addr : Handler → Word) (idt : Idt) {v : Nat} (hv : v < 256) :
    Gate.decode (idtInit addr idt v).val = some (vectorGate addr v) := by
  rw [idtInit_apply addr idt hv, decode_entry]
  rfl

end Decode

end LmaOS.Interrupts
