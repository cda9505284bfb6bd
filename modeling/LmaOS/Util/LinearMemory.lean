import LmaOS.Util.Buffer
import LmaOS.Util.PageWalk

/-
  Memory behind two-level paging, with the tables in that memory.

  `mem` is the physical memory, `dir` the physical address of the page directory. `locate` is
  where the hardware finds a linear address, `loadWord` and `storeWord` access a 32-bit word there
  byte by byte, so that a word may lie across two pages; they fault (`none`) if one of its bytes
  is not present. `loadByte` is the load of one byte.

  `loadByte_eq`, `loadWord_eq`, `storeWord_eq`: an access all of whose bytes are located.
  `loadWord_eq_none`: one of them is not. `storeBytes_apply`: what is stored can be read back.
-/
namespace LmaOS.Util

def walkIn (dir : Nat) (mem : Buf) (la : Nat) : Option Translation :=
  walk (fun i => mem.word (dir + 4 * i)) (fun f i => mem.word (4096 * f + 4 * i)) la

/-- The physical address of byte `k` of the word at `la`. -/
def locate (dir : Nat) (mem : Buf) (la k : Nat) : Option Nat :=
  (walkIn dir mem ((la + k) % 0x100000000)).map Translation.phys

/-- All four bytes of the word at `la` are present. -/
def Present (dir : Nat) (mem : Buf) (la : Nat) : Prop :=
  ∀ k ∈ List.range 4, (locate dir mem la k).isSome

instance (dir : Nat) (mem : Buf) (la : Nat) : Decidable (Present dir mem la) :=
  inferInstanceAs (Decidable (∀ k ∈ List.range 4, _))

def loadByte (dir : Nat) (mem : Buf) (la : Nat) : Option UInt8 :=
  (locate dir mem la 0).map mem

def loadWord (dir : Nat) (mem : Buf) (la : Nat) : Option Nat :=
  if Present dir mem la then
    some (Buf.word (fun k => mem ((locate dir mem la k).getD 0)) 0)
  else none

/-- The first `n` bytes of a word stored at the addresses `p 0`, `p 1`, ... -/
def storeBytes (p : Nat → Nat) (w : Nat) : Nat → Buf → Buf
  | 0, mem => mem
  | n + 1, mem => Function.update (storeBytes p w n mem) (p n) (wordByte w n)

def storeWord (dir : Nat) (mem : Buf) (la w : Nat) : Option Buf :=
  if Present dir mem la then
    some (storeBytes (fun k => (locate dir mem la k).getD 0) w 4 mem)
  else none

section Bytes

variable {p : Nat → Nat} {w : Nat} {mem : Buf}

theorem storeBytes_frame {n o : Nat} (h : ∀ k, k < n → o ≠ p k) :
    storeBytes p w n mem o = mem o := by
  induction n with
  | zero => rfl
  | succ n ih =>
    rw [storeBytes, Function.update_of_ne (h n (Nat.lt_succ_self n))]
    exact ih fun k hk => h k (Nat.lt_succ_of_lt hk)

theorem storeBytes_apply {n : Nat} (hp : ∀ j k, j < k → k < n → p j ≠ p k) {k : Nat}
    (hk : k < n) : storeBytes p w n mem (p k) = wordByte w k := by
  induction n with
  | zero => exact absurd hk (Nat.not_lt_zero k)
  | succ n ih =>
    rw [storeBytes]
    rcases Nat.lt_or_eq_of_le (Nat.le_of_lt_succ hk) with hlt | rfl
    · rw [Function.update_of_ne (hp k n hlt (Nat.lt_succ_self n))]
      exact ih (fun i j hij hj => hp i j hij (Nat.lt_succ_of_lt hj)) hlt
    · exact Function.update_self _ _ _

end Bytes

section Access

variable {dir : Nat} {mem : Buf} {la : Nat} {p : Nat → Nat}

theorem present_of_located (h : ∀ k, k < 4 → locate dir mem la k = some (p k)) :
    Present dir mem la := by
  intro k hk
  rw [h k (List.mem_range.mp hk)]
  rfl

theorem loadByte_eq {o : Nat} (h : locate dir mem la 0 = some o) :
    loadByte dir mem la = some (mem o) := by
  unfold loadByte
  rw [h, Option.map_some]

theorem loadWord_eq_none {k : Nat} (hk : k < 4) (h : locate dir mem la k = none) :
    loadWord dir mem la = none := by
  have habsent : ¬ Present dir mem la := by
    intro hpresent
    have hsome := hpresent k (List.mem_range.mpr hk)
    rw [h] at hsome
    exact absurd hsome Bool.false_ne_true
  unfold loadWord
  exact if_neg habsent

theorem loadWord_eq (h : ∀ k, k < 4 → locate dir mem la k = some (p k)) :
    loadWord dir mem la = some (Buf.word (fun k => mem (p k)) 0) := by
  have hbyte : ∀ k, k < 4 → mem ((locate dir mem la k).getD 0) = mem (p k) := fun k hk => by
    rw [h k hk, Option.getD_some]
  unfold loadWord
  rw [if_pos (present_of_located h)]
  exact congrArg some (Buf.word_congr fun k hk => by rw [Nat.zero_add]; exact hbyte k hk)

theorem storeWord_eq (h : ∀ k, k < 4 → locate dir mem la k = some (p k)) (w : Nat) :
    storeWord dir mem la w = some (storeBytes p w 4 mem) := by
  unfold storeWord
  rw [if_pos (present_of_located h)]
  simp only [storeBytes, h _ (by decide : 0 < 4), h _ (by decide : 1 < 4),
    h _ (by decide : 2 < 4), h _ (by decide : 3 < 4), Option.getD_some]

/-- Every byte of a word that can be loaded is present. -/
theorem loadWord_present {w : Nat} (h : loadWord dir mem la = some w) : Present dir mem la := by
  unfold loadWord at h
  split at h
  · rename_i hpresent
    exact hpresent
  · exact absurd h (Option.some_ne_none w).symm

end Access

end LmaOS.Util
