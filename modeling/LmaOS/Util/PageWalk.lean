import Mathlib.Data.Nat.Bitwise
import Mathlib.Tactic.Common

/-
  Address translation with two-level page tables: 32-bit linear addresses, 4 KB and 4 MB pages.

  An entry holds the address of a frame in its upper 20 bits and flags below. `walk dir table la`
  is what the hardware makes of the linear address `la`: `dir` is the page directory, `table f i`
  entry `i` of the page table in frame `f`. The two levels must both be present, and their user
  and write permissions combine.

  `entry_or`: an entry written as `address | flags`. `walk_large`, `walk_small`, `walk_absent`:
  the three ways of an access. `walk_user`: where a user access can come from.
-/
namespace LmaOS.Util

/-- The frame in the upper 20 bits of an entry. -/
def frameOf (e : Nat) : Nat := e / 4096

/-- Flags do not reach the frame. -/
theorem frameOf_add {a f : Nat} (ha : a % 4096 = 0) (hf : f < 4096) :
    frameOf (a + f) = frameOf a := by
  unfold frameOf
  omega

def IsPresent (e : Nat) : Prop := e % 2 = 1
def IsWritable (e : Nat) : Prop := e / 2 % 2 = 1
def IsUser (e : Nat) : Prop := e / 4 % 2 = 1
/-- A directory entry of a 4 MB page. -/
def IsLarge (e : Nat) : Prop := e / 128 % 2 = 1

instance (e : Nat) : Decidable (IsPresent e) := inferInstanceAs (Decidable (e % 2 = 1))
instance (e : Nat) : Decidable (IsWritable e) := inferInstanceAs (Decidable (e / 2 % 2 = 1))
instance (e : Nat) : Decidable (IsUser e) := inferInstanceAs (Decidable (e / 4 % 2 = 1))
instance (e : Nat) : Decidable (IsLarge e) := inferInstanceAs (Decidable (e / 128 % 2 = 1))

/-- Where an address translates to, and who may use it. -/
structure Translation where
  phys : Nat
  user : Bool
  write : Bool
  deriving DecidableEq

/-- The translation of a linear address; `none` is a page fault. -/
def walk (dir : Nat → Nat) (table : Nat → Nat → Nat) (la : Nat) : Option Translation :=
  let pde := dir (la / 0x400000)
  if IsPresent pde then
    if IsLarge pde then
      some ⟨frameOf pde / 1024 * 0x400000 + la % 0x400000, decide (IsUser pde),
        decide (IsWritable pde)⟩
    else
      let pte := table (frameOf pde) (la / 4096 % 1024)
      if IsPresent pte then
        some ⟨frameOf pte * 4096 + la % 4096, decide (IsUser pde ∧ IsUser pte),
          decide (IsWritable pde ∧ IsWritable pte)⟩
      else none
  else none

/-- An entry written as `address | flags`, the address aligned to a page. -/
theorem entry_or {a flags : Nat} (ha : a % 4096 = 0) (hf : flags < 4096) :
    a ||| flags = a + flags := by
  obtain ⟨f, rfl⟩ : ∃ f, a = 2 ^ 12 * f := ⟨a / 4096, by omega⟩
  exact (Nat.two_pow_add_eq_or_of_lt hf f).symm

section Walk

variable {dir : Nat → Nat} {table : Nat → Nat → Nat} {la : Nat}

/-- A walk looks at one entry of the directory and one of the table. -/
theorem walk_congr {dir' : Nat → Nat} {table' : Nat → Nat → Nat}
    (hdir : dir (la / 0x400000) = dir' (la / 0x400000))
    (htable : ∀ f, table f (la / 4096 % 1024) = table' f (la / 4096 % 1024)) :
    walk dir table la = walk dir' table' la := by
  unfold walk
  dsimp only
  rw [hdir, htable]

theorem walk_absent (h : ¬ IsPresent (dir (la / 0x400000))) : walk dir table la = none := by
  unfold walk
  exact if_neg h

theorem walk_large (hp : IsPresent (dir (la / 0x400000))) (hl : IsLarge (dir (la / 0x400000))) :
    walk dir table la = some ⟨frameOf (dir (la / 0x400000)) / 1024 * 0x400000 + la % 0x400000,
      decide (IsUser (dir (la / 0x400000))), decide (IsWritable (dir (la / 0x400000)))⟩ := by
  unfold walk
  dsimp only
  rw [if_pos hp, if_pos hl]

theorem walk_small {f : Nat} (hp : IsPresent (dir (la / 0x400000)))
    (hl : ¬ IsLarge (dir (la / 0x400000))) (hf : frameOf (dir (la / 0x400000)) = f) :
    walk dir table la =
      if IsPresent (table f (la / 4096 % 1024)) then
        some ⟨frameOf (table f (la / 4096 % 1024)) * 4096 + la % 4096,
          decide (IsUser (dir (la / 0x400000)) ∧ IsUser (table f (la / 4096 % 1024))),
          decide (IsWritable (dir (la / 0x400000)) ∧ IsWritable (table f (la / 4096 % 1024)))⟩
      else none := by
  subst hf
  unfold walk
  dsimp only
  rw [if_pos hp, if_neg hl]

/-- A user access goes through a user entry of the directory: of a 4 MB page, or of a table with
    a user entry for the page. -/
theorem walk_user {t : Translation} (h : walk dir table la = some t) (hu : t.user = true) :
    IsPresent (dir (la / 0x400000)) ∧ IsUser (dir (la / 0x400000)) ∧
      (IsLarge (dir (la / 0x400000)) ∧
          t.phys = frameOf (dir (la / 0x400000)) / 1024 * 0x400000 + la % 0x400000 ∨
        ¬ IsLarge (dir (la / 0x400000)) ∧
          IsPresent (table (frameOf (dir (la / 0x400000))) (la / 4096 % 1024)) ∧
          IsUser (table (frameOf (dir (la / 0x400000))) (la / 4096 % 1024)) ∧
          t.phys = frameOf (table (frameOf (dir (la / 0x400000))) (la / 4096 % 1024)) * 4096
            + la % 4096) := by
  by_cases hp : IsPresent (dir (la / 0x400000))
  · by_cases hl : IsLarge (dir (la / 0x400000))
    · rw [walk_large hp hl, Option.some.injEq] at h
      subst h
      exact ⟨hp, of_decide_eq_true hu, Or.inl ⟨hl, rfl⟩⟩
    · rw [walk_small hp hl rfl] at h
      split at h
      · rename_i hpte
        rw [Option.some.injEq] at h
        subst h
        obtain ⟨hdir, htab⟩ := of_decide_eq_true hu
        exact ⟨hp, hdir, Or.inr ⟨hl, hpte, htab, rfl⟩⟩
      · cases h
  · rw [walk_absent hp] at h
    cases h

end Walk

end LmaOS.Util
