import LmaOS.Util.Stacks
import LmaOS.State

/-
  What the kernel's process management is for: three terminals, one of them displayed, each with
  a stack of processes. Only the top process of the displayed terminal runs. It can start a
  process on top of itself, and when a process ends, the one below it goes on.

  This is the abstract machine. Its states also remember how every process was started
  (`Birth`), which the kernel stores only in part. `Sessions.Legal` is what holds in its
  reachable states, `Sessions.Legal.apply` that the legal events keep it.
-/
namespace LmaOS

open Util

/-- How a process was started: whether as "shell", with which saved registers, and by whom
    (`none`: by the kernel). -/
structure Birth where
  shell : Bool
  regs : Regs
  caller : Option Int

/-- The stacks of the three terminals, top first. -/
structure Sessions where
  stack : Fin 3 → List Int
  shown : Fin 3
  born : Int → Birth

inductive Event where
  /-- The process `pid` is started on the displayed terminal. -/
  | start (pid : Int) (birth : Birth)
  /-- The displayed terminal's top process ends. -/
  | finish
  | display (tid : Fin 3)

namespace Sessions

/-- The displayed terminal's stack. -/
abbrev current (a : Sessions) : List Int := a.stack a.shown

def apply (a : Sessions) : Event → Sessions
  | .start pid birth =>
    { a with
      stack := Function.update a.stack a.shown (pid :: a.current)
      born := Function.update a.born pid birth }
  | .finish => { a with stack := Function.update a.stack a.shown a.current.tail }
  | .display tid => { a with shown := tid }

section Apply

variable (a : Sessions) (pid : Int) (birth : Birth) (tid : Fin 3)

@[simp] theorem apply_start_stack : (a.apply (.start pid birth)).stack =
    Function.update a.stack a.shown (pid :: a.current) := rfl

@[simp] theorem apply_start_born : (a.apply (.start pid birth)).born =
    Function.update a.born pid birth := rfl

@[simp] theorem apply_start_shown : (a.apply (.start pid birth)).shown = a.shown := rfl

@[simp] theorem apply_finish_stack : (a.apply .finish).stack =
    Function.update a.stack a.shown a.current.tail := rfl

@[simp] theorem apply_finish_born : (a.apply .finish).born = a.born := rfl

@[simp] theorem apply_finish_shown : (a.apply .finish).shown = a.shown := rfl

@[simp] theorem apply_display_stack : (a.apply (.display tid)).stack = a.stack := rfl

@[simp] theorem apply_display_born : (a.apply (.display tid)).born = a.born := rfl

@[simp] theorem apply_display_shown : (a.apply (.display tid)).shown = tid := rfl

end Apply

/-- No process anywhere. -/
def empty : Sessions := ⟨fun _ => [], terminalA, fun _ => ⟨false, ⟨0, 0⟩, none⟩⟩

theorem mem_current {a : Sessions} {p : Int} {below : List Int} (h : a.current = p :: below) :
    p ∈ a.stack a.shown := by
  rw [show a.stack a.shown = p :: below from h]
  exact List.mem_cons_self

/-- The topmost process of a stack that was started as a shell. -/
def topShell (born : Int → Birth) (l : List Int) : Option Int := l.find? fun p => (born p).shell

theorem mem_of_topShell {born : Int → Birth} {l : List Int} {p : Int}
    (h : topShell born l = some p) : p ∈ l := List.mem_of_find?_eq_some h

theorem shell_of_topShell {born : Int → Birth} {l : List Int} {p : Int}
    (h : topShell born l = some p) : (born p).shell = true :=
  List.find?_some (p := fun q => (born q).shell) h

theorem topShell_cons_shell {born : Int → Birth} {l : List Int} {p : Int}
    (h : (born p).shell = true) : topShell born (p :: l) = some p := by
  unfold topShell
  exact List.find?_cons_of_pos (by exact h)

theorem topShell_cons_program {born : Int → Birth} {l : List Int} {p : Int}
    (h : (born p).shell = false) : topShell born (p :: l) = topShell born l := by
  unfold topShell
  exact List.find?_cons_of_neg (by simp [h])

theorem topShell_congr {born born' : Int → Birth} {l : List Int}
    (h : ∀ p ∈ l, born' p = born p) : topShell born' l = topShell born l := by
  unfold topShell
  induction l with
  | nil => rfl
  | cons p l ih =>
      rw [List.find?_cons, List.find?_cons, h p List.mem_cons_self,
        ih fun q hq => h q (List.mem_cons_of_mem p hq)]

/-! ## Legal states and events -/

/-- How a process must have been started, given what is below it: by the process directly below,
    and a base process by the kernel, as a shell. -/
def StartedOn (born : Int → Birth) (p : Int) (below : List Int) : Prop :=
  (born p).caller = below.head? ∧ (below = [] → (born p).shell = true)

structure Legal (a : Sessions) : Prop where
  separate : Separate a.stack
  depth : ∀ u, (a.stack u).length ≤ 4
  pids : ∀ u p, p ∈ a.stack u → 0 ≤ p ∧ p < 6
  started : ∀ u, Above (StartedOn a.born) (a.stack u)

theorem legal_empty : empty.Legal :=
  ⟨separate_nil, fun _ => Nat.zero_le _, fun _ _ h => absurd h List.not_mem_nil, fun _ => trivial⟩

end Sessions

/-- The events that can happen: a process gets a pid of its own, the terminal has room for it,
    and it is started by the running process; only a running process ends. -/
def Event.Legal (a : Sessions) : Event → Prop
  | .start pid birth =>
    (∀ u, pid ∉ a.stack u) ∧ 0 ≤ pid ∧ pid < 6 ∧ a.current.length < 4 ∧
      birth.caller = a.current.head? ∧ (a.current = [] → birth.shell = true)
  | .finish => a.current ≠ []
  | .display _ => True

namespace Sessions

theorem Legal.start {a : Sessions} (h : a.Legal) {pid : Int} {birth : Birth}
    (he : (Event.start pid birth).Legal a) : (a.apply (.start pid birth)).Legal := by
  obtain ⟨hnew, hlo, hhi, hroom, hcaller, hbase⟩ := he
  have hborn : ∀ u, ∀ p ∈ a.stack u, Function.update a.born pid birth p = a.born p := by
    intro u p hp
    refine Function.update_of_ne (fun he => ?_) _ _
    exact hnew u (he ▸ hp)
  have hbelow : ∀ u, Above (StartedOn (Function.update a.born pid birth)) (a.stack u) := by
    intro u
    refine (h.started u).mono (fun p below hp _ hR => ?_)
    unfold StartedOn at hR ⊢
    rwa [hborn u p hp]
  refine ⟨h.separate.push rfl hnew, fun u => ?_, fun u p hp => ?_, fun u => ?_⟩ <;>
    simp only [apply] at *
  · rw [Function.update_apply]
    split
    · rw [List.length_cons]; exact hroom
    · exact h.depth u
  · rcases (mem_update_push rfl).mp hp with ⟨_, rfl⟩ | hp
    · exact ⟨hlo, hhi⟩
    · exact h.pids u p hp
  · rw [Function.update_apply]
    split
    · refine ⟨?_, hbelow a.shown⟩
      unfold StartedOn
      rw [Function.update_self]
      exact ⟨hcaller, hbase⟩
    · exact hbelow u

theorem Legal.finish {a : Sessions} (h : a.Legal) (he : Event.finish.Legal a) :
    (a.apply .finish).Legal := by
  obtain ⟨p, below, hcur⟩ := List.exists_cons_of_ne_nil he
  have htail : a.current.tail = below := by rw [hcur]; rfl
  simp only [apply, htail]
  refine ⟨h.separate.pop hcur, fun u => ?_, fun u q hq => ?_, fun u => ?_⟩ <;> simp only at *
  · rw [Function.update_apply]
    split
    · have hd : a.current.length ≤ 4 := h.depth a.shown
      rw [hcur, List.length_cons] at hd
      omega
    · exact h.depth u
  · exact h.pids u q (mem_update_pop hcur hq)
  · rw [Function.update_apply]
    split
    · have hs : Above (StartedOn a.born) a.current := h.started a.shown
      rw [hcur] at hs
      exact hs.2
    · exact h.started u

/-- Legal events keep the sessions legal. -/
theorem Legal.apply {a : Sessions} (h : a.Legal) {e : Event} (he : e.Legal a) :
    (a.apply e).Legal := by
  cases e with
  | start pid birth => exact h.start he
  | finish => exact h.finish he
  | display tid => exact ⟨h.separate, h.depth, h.pids, h.started⟩

end Sessions

end LmaOS
