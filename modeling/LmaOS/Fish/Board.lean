import Mathlib.Data.List.Perm.Subperm
import LmaOS.Fish.Blink

/-
  What blink.S is for.

  A `Board` is a list of blinkers, the newest first, and the characters on the screen. Its
  operations know no pointers and no slots. `Holds v l b d`: the list in the memory of `b` has the
  slots `l`, holds the blinkers of `d`, and its video memory is `v` with the characters of `d`.

  `serveAll_refines`: over every run of requests that adds nothing at location 0, the assembly
  answers as the board does and holds it at the end. In particular no walk along the list goes on
  for ever, and nothing but the characters of the screen is written.
-/
namespace LmaOS.Fish

open Util

/-! ## The board -/

structure Board where
  blinkers : List Blinker
  display : Nat → UInt8

namespace Blinker

def isAt (location : UInt16) (e : Blinker) : Bool := decide (e.location = location)

/-- A blinker as it is added: on. -/
def fresh (e : Blinker) : Blinker := { e with status := 1, countdown := e.onLength }

def isOn (e : Blinker) : Bool := decide (e.status &&& 1 ≠ 0)

/-- The countdown has come to its end. -/
def due (e : Blinker) : Bool := !Blink.above (e.countdown - 1)

/-- The character it changes to. -/
def turn (e : Blinker) : UInt8 := if e.isOn then e.offChar else e.onChar

def tick (e : Blinker) : Blinker :=
  if e.due then
    { e with
      countdown := if e.isOn then e.offLength else e.onLength
      status := e.status ^^^ 1 }
  else { e with countdown := e.countdown - 1 }

/-- The rhythm of `s`. -/
def syncTo (e s : Blinker) : Blinker :=
  { e with
    onLength := s.onLength
    offLength := s.offLength
    countdown := s.countdown
    status := s.status }

end Blinker

/-- The first element that `p` holds of is changed. -/
def modifyFirst {α : Type} (p : α → Bool) (f : α → α) : List α → List α
  | [] => []
  | a :: l => if p a then f a :: l else a :: modifyFirst p f l

namespace Board

def write (d : Board) (location : UInt16) (c : UInt8) : Board :=
  { d with display := Function.update d.display location.toNat c }

/-- The newest blinker at a location. -/
def find (d : Board) (location : UInt16) : Option Blinker :=
  d.blinkers.find? (Blinker.isAt location)

def add (d : Board) (e : Blinker) : Int × Board :=
  if cells ≤ e.location.toNat ∨ cells ≤ d.blinkers.length then (-1, d)
  else (0, write ⟨e.fresh :: d.blinkers, d.display⟩ e.location e.onChar)

def remove (d : Board) (location : UInt16) : Int × Board :=
  if d.find location = none then (-1, d)
  else (0, ⟨d.blinkers.eraseP (Blinker.isAt location), d.display⟩)

/-- The blinker at `target` takes over the rhythm of the one at `source`. Its off character is
    shown, whether it is on or off. -/
def sync (d : Board) (source target : UInt16) : Int × Board :=
  match d.find source, d.find target with
  | some s, some e =>
    (0, write ⟨modifyFirst (Blinker.isAt target) (·.syncTo s) d.blinkers, d.display⟩ target
      e.offChar)
  | _, _ => (-1, d)

/-- One blinker's part of a tick on the screen. -/
def blink (display : Nat → UInt8) (e : Blinker) : Nat → UInt8 :=
  if e.due then Function.update display e.location.toNat e.turn else display

def tick (d : Board) : Board where
  blinkers := d.blinkers.map Blinker.tick
  display := d.blinkers.foldl blink d.display

/-- The answer to a request, and the board after it. -/
def serve (d : Board) : Request → (Int × Option Blinker) × Board
  | .add s => (((d.add s.toBlinker).1, none), (d.add s.toBlinker).2)
  | .remove arg => (((d.remove arg.toUInt16).1, none), (d.remove arg.toUInt16).2)
  | .find location =>
    match d.find location with
    | none => ((-1, none), d)
    | some e => ((0, some e), d)
  | .sync arg =>
    let r := d.sync (arg >>> 16).toUInt16 (arg &&& 0xFFFF).toUInt16
    ((r.1, none), r.2)
  | .tick => ((0, none), d.tick)

def serveAll (d : Board) : List Request → List (Int × Option Blinker) × Board
  | [] => ([], d)
  | r :: rs =>
    let a := d.serve r
    let as := a.2.serveAll rs
    (a.1 :: as.1, as.2)

end Board

/-! ## The memory that holds it -/

/-- The video memory `v` with the characters of the screen. -/
def painted (v : Buf) (display : Nat → UInt8) : Buf := fun o =>
  if o % 2 = 0 ∧ o / 2 < cells then display (o / 2) else v o

structure Holds (v : Buf) (l : List Nat) (b : Blink) (d : Board) : Prop where
  linked : Linked (fun i => (b.blinkArray i).next) b.mp1ListHead l
  slots : ∀ i, i ∈ l ↔ i < cells ∧ (b.blinkArray i).location ≠ 0
  blinkers : d.blinkers = l.map fun i => (b.blinkArray i).toBlinker
  onScreen : ∀ e ∈ d.blinkers, e.location.toNat < cells
  video : b.videoMem = painted v d.display

section Holds

variable {v : Buf} {l front rest : List Nat} {a : Nat} {b : Blink} {d : Board}

/-- A character of the screen is stored. -/
theorem painted_write (v : Buf) (display : Nat → UInt8) {location : UInt16}
    (hin : location.toNat < cells) (c : UInt8) :
    Function.update (painted v display) (location.toNat * 2) c =
      painted v (Function.update display location.toNat c) := by
  funext o
  unfold painted
  rw [Function.update_apply]
  by_cases ho : o = location.toNat * 2
  · subst ho
    rw [if_pos rfl, if_pos (by omega), Nat.mul_div_cancel _ (by decide), Function.update_self]
  · rw [if_neg ho]
    by_cases hchar : o % 2 = 0 ∧ o / 2 < cells
    · rw [if_pos hchar, if_pos hchar, Function.update_of_ne (by omega)]
    · rw [if_neg hchar, if_neg hchar]

theorem Holds.nodup (h : Holds v l b d) : l.Nodup := h.linked.nodup

/-- The byte of a character. -/
theorem Holds.char (h : Holds v l b d) {location : Nat} (hin : location < cells) :
    b.videoMem (location * 2) = d.display location := by
  rw [h.video]
  unfold painted
  rw [Nat.mul_div_cancel _ (by decide), if_pos ⟨Nat.mul_mod_left _ _, hin⟩]

/-- `mp1_find_helper` finds the first slot with the location, and the blinker in it. -/
theorem Holds.find (h : Holds v l b d) (ax : UInt16) : (mp1FindHelper ax).Ensures b fun r b' =>
    b' = b ∧ r = l.find? fun i => (b.blinkArray i).isAt ax := by
  refine .bind (.of rfl ?_)
  refine ensures_walk (fun s i => (s.blinkArray i).next)
    (fun rest s => s = b ∧ ∃ front, l = front ++ rest ∧
      ∀ i ∈ front, (b.blinkArray i).isAt ax = false) ?_ ?_ h.linked
    ⟨rfl, [], rfl, fun _ hi => absurd hi List.not_mem_nil⟩
  · rintro s ⟨rfl, front, hl, hfront⟩
    refine .pure ⟨_, rfl, rfl, ?_⟩
    rw [hl, List.append_nil]
    refine (List.find?_eq_none.mpr fun i hi => ?_).symm
    rw [hfront i hi]
    exact Bool.false_ne_true
  · rintro i rest s ⟨rfl, front, hl, hfront⟩ hrest
    by_cases hi : (s.blinkArray i).location = ax
    · refine .of (if_pos hi) (Or.inl ⟨_, rfl, rfl, ?_⟩)
      rw [hl, List.find?_append, List.find?_eq_none.mpr (fun j hj => by rw [hfront j hj]; decide),
        List.find?_cons,
        show (s.blinkArray i).isAt ax = true from decide_eq_true hi]
      rfl
    · refine .of (if_neg hi) (Or.inr ⟨_, rfl, hrest, rfl, front ++ [i], ?_, fun j hj => ?_⟩)
      · rw [hl, List.append_assoc]
        rfl
      · rcases List.mem_append.mp hj with hj | hj
        · exact hfront j hj
        · obtain rfl := List.mem_singleton.mp hj
          exact decide_eq_false hi

/-- The board's own search. -/
theorem Holds.board_find (h : Holds v l b d) (ax : UInt16) : d.find ax =
    (l.find? fun i => (b.blinkArray i).isAt ax).map fun i =>
      (b.blinkArray i).toBlinker := by
  unfold Board.find
  rw [h.blinkers, List.find?_map]
  rfl

theorem Holds.length (h : Holds v l b d) : d.blinkers.length = l.length := by
  rw [h.blinkers, List.length_map]

theorem update_next (blinkArray : Nat → Mp1BlinkStruct) (i : Nat) (s : Mp1BlinkStruct) :
    (fun j => (Function.update blinkArray i s j).next) =
      Function.update (fun j => (blinkArray j).next) i s.next :=
  Function.comp_update Mp1BlinkStruct.next blinkArray i s

/-! ### A blinker is added -/

/-- Every slot below the bound is taken exactly if there are that many. -/
theorem all_taken_iff {n : Nat} (hl : l.Nodup) (hlt : ∀ i ∈ l, i < n) :
    (∀ i, i < n → i ∈ l) ↔ n ≤ l.length := by
  constructor
  · intro hall
    have hsub := List.subperm_of_subset List.nodup_range
      (fun i hi => hall i (List.mem_range.mp hi))
    have hle := hsub.length_le
    rwa [List.length_range] at hle
  · intro hlen i hi
    have hsub : l.Subperm (List.range n) :=
      List.subperm_of_subset hl fun j hj => List.mem_range.mpr (hlt j hj)
    exact (hsub.perm_of_length_le (by rwa [List.length_range])).mem_iff.mpr (List.mem_range.mpr hi)

theorem Holds.malloc_eq_none (h : Holds v l b d) :
    b.mp1Malloc = none ↔ cells ≤ d.blinkers.length := by
  rw [h.length, ← all_taken_iff h.nodup fun i hi => ((h.slots i).mp hi).1]
  unfold Blink.mp1Malloc
  dsimp only
  constructor
  · intro hnone i hi
    have hend : firstIdx (fun i => decide ((b.blinkArray i).location = 0)) cells = cells := by
      have hle := firstIdx_le (fun i => decide ((b.blinkArray i).location = 0)) cells
      split at hnone
      · exact absurd hnone (Option.some_ne_none _)
      · omega
    refine (h.slots i).mpr ⟨hi, ?_⟩
    exact of_decide_eq_false
      (firstIdx_min (p := fun i => decide ((b.blinkArray i).location = 0)) (hend ▸ hi))
  · intro hall
    rw [if_neg ?_]
    intro hlt
    have hzero := of_decide_eq_true
      (firstIdx_spec (p := fun i => decide ((b.blinkArray i).location = 0)) hlt)
    exact ((h.slots _).mp (hall _ hlt)).2 hzero

theorem Holds.malloc_eq_some (h : Holds v l b d) {i : Nat} (hi : b.mp1Malloc = some i) :
    i < cells ∧ i ∉ l := by
  unfold Blink.mp1Malloc at hi
  dsimp only at hi
  split at hi
  · rename_i hlt
    obtain rfl := Option.some.inj hi
    have hzero := of_decide_eq_true
      (firstIdx_spec (p := fun i => decide ((b.blinkArray i).location = 0)) hlt)
    exact ⟨hlt, fun hmem => ((h.slots _).mp hmem).2 hzero⟩
  · exact absurd hi.symm (Option.some_ne_none i)

theorem Holds.add (h : Holds v l b d) (s : Mp1BlinkStruct) (hzero : s.location ≠ 0) :
    (b.mp1IoctlAdd s).1 = (d.add s.toBlinker).1 ∧
      ∃ l', Holds v l' (b.mp1IoctlAdd s).2 (d.add s.toBlinker).2 := by
  unfold Blink.mp1IoctlAdd Board.add
  by_cases hout : cells ≤ s.location.toNat
  · rw [if_pos hout, if_pos (Or.inl hout)]
    exact ⟨rfl, l, h⟩
  rw [if_neg hout]
  dsimp only
  cases hfree : b.mp1Malloc with
  | none =>
    rw [if_pos (Or.inr (h.malloc_eq_none.mp hfree))]
    exact ⟨rfl, l, h⟩
  | some i =>
    have hroom : ¬ cells ≤ d.blinkers.length := fun hfull =>
      Option.some_ne_none i (hfree.symm.trans (h.malloc_eq_none.mpr hfull))
    obtain ⟨hi, hnew⟩ := h.malloc_eq_some hfree
    rw [if_neg (not_or.mpr ⟨hout, hroom⟩)]
    refine ⟨rfl, i :: l, ?_, fun j => ?_, ?_, ?_, ?_⟩
    · show Linked (fun j => (Function.update b.blinkArray i _ j).next) (some i) (i :: l)
      rw [update_next]
      exact h.linked.push hnew
    · show j ∈ i :: l ↔ j < cells ∧ (Function.update b.blinkArray i _ j).location ≠ 0
      rw [List.mem_cons, Function.update_apply]
      by_cases hj : j = i
      · rw [if_pos hj]
        exact iff_of_true (Or.inl hj) ⟨hj ▸ hi, hzero⟩
      · rw [if_neg hj, or_iff_right hj]
        exact h.slots j
    · show _ = (i :: l).map fun j => (Function.update b.blinkArray i _ j).toBlinker
      rw [List.map_cons, Function.update_self]
      refine congrArg₂ List.cons rfl (h.blinkers.trans (List.map_congr_left fun j hj => ?_))
      have hne : j ≠ i := by
        rintro rfl
        exact hnew hj
      rw [Function.update_of_ne hne]
    · intro e he
      rcases List.mem_cons.mp he with rfl | he
      · exact Nat.lt_of_not_le hout
      · exact h.onScreen e he
    · show Function.update b.videoMem _ _ = _
      dsimp only [Blink.store]
      rw [Function.update_self, h.video]
      exact painted_write v d.display (Nat.lt_of_not_le hout) s.onChar

/-! ### A blinker is removed -/

/-- The pointer `removeFindPrev` has come to, behind the slots `front`. -/
theorem Blink.at_getLast (b : Blink) (front : List Nat) :
    b.at front.getLast? = follow (fun i => (b.blinkArray i).next) b.mp1ListHead front := by
  rcases List.eq_nil_or_concat front with rfl | ⟨front, i, rfl⟩
  · rfl
  · rw [List.concat_eq_append, List.getLast?_concat, follow_concat]
    rfl

/-- The loop comes to the pointer to the slot. -/
theorem Holds.findPrev (h : Holds v (front ++ a :: rest) b d) :
    (removeFindPrev a).Ensures b fun edx b' => b' = b ∧ edx = front.getLast? := by
  have hnew : a ∉ front := fun hmem => by
    have hnodup := h.nodup
    exact (List.nodup_append.mp hnodup).2.2 a hmem a List.mem_cons_self rfl
  refine Task.Ensures.loop_indexed
    (fun n edx s => s = b ∧ ∃ l₁ l₂, front = l₁ ++ l₂ ∧ edx = l₁.getLast? ∧ l₂.length = n) ?_
    ⟨rfl, [], front, rfl, rfl, rfl⟩
  rintro n edx s ⟨rfl, l₁, l₂, rfl, rfl, rfl⟩
  have hlinked := h.linked
  rw [List.append_assoc] at hlinked
  have hat := hlinked.follow
  rw [← Blink.at_getLast] at hat
  cases l₂ with
  | nil =>
    refine .of (if_pos hat.1) ⟨rfl, ?_⟩
    rw [List.append_nil]
  | cons i l₂ =>
    have hi : i ≠ a := fun he => hnew (he ▸ List.mem_append_right l₁ List.mem_cons_self)
    have hother : s.at l₁.getLast? ≠ some a := by
      rw [hat.1]
      exact fun he => hi (Option.some.inj he)
    have hnext : (if s.at l₁.getLast? = some a then some (Sum.inr l₁.getLast?, s)
        else (s.at l₁.getLast?).map fun j => (.inl (some j), s)) =
          some (Sum.inl (some i), s) := by
      rw [if_neg hother, hat.1]
      rfl
    refine .of hnext ⟨l₂.length, Nat.lt_succ_self _, rfl, l₁ ++ [i], l₂, ?_, ?_, rfl⟩
    · rw [List.append_assoc]
      rfl
    · rw [List.getLast?_concat]

theorem Holds.unlink (h : Holds v (front ++ a :: rest) b d) :
    Linked (fun i => ((b.put front.getLast? (b.blinkArray a).next).blinkArray i).next)
      (b.put front.getLast? (b.blinkArray a).next).mp1ListHead (front ++ rest) := by
  rcases List.eq_nil_or_concat front with rfl | ⟨front, i, rfl⟩
  · exact h.linked.2
  · rw [List.concat_eq_append, List.getLast?_concat, List.append_assoc]
    show Linked (fun j => (Function.update b.blinkArray i _ j).next) b.mp1ListHead _
    rw [update_next]
    have hlinked := h.linked
    rw [List.concat_eq_append, List.append_assoc] at hlinked
    exact hlinked.unlink

theorem put_toBlinker (b : Blink) (edx p : Option Nat) (j : Nat) :
    ((b.put edx p).blinkArray j).toBlinker = (b.blinkArray j).toBlinker := by
  cases edx with
  | none => rfl
  | some i =>
    show (Function.update b.blinkArray i _ j).toBlinker = _
    rw [Function.update_apply]
    split
    · subst j
      rfl
    · rfl

theorem put_videoMem (b : Blink) (edx p : Option Nat) : (b.put edx p).videoMem = b.videoMem := by
  cases edx <;> rfl

theorem Holds.remove (h : Holds v l b d) (arg : UInt32) :
    (mp1IoctlRemove arg).Ensures b fun r b' => r = (d.remove arg.toUInt16).1 ∧
      ∃ l', Holds v l' b' (d.remove arg.toUInt16).2 := by
  unfold mp1IoctlRemove Board.remove
  refine .bind ((h.find _).mono ?_)
  rintro _ s ⟨hs, rfl⟩
  rw [hs, h.board_find]
  cases hfound : l.find? fun i => (b.blinkArray i).isAt arg.toUInt16 with
  | none => exact .pure ⟨rfl, l, h⟩
  | some a =>
    rw [Option.map_some, if_neg (Option.some_ne_none _)]
    obtain ⟨hloc, front, rest, rfl, hfront⟩ := List.find?_eq_some_iff_append.mp hfound
    refine .bind (h.findPrev.mono ?_)
    rintro _ s ⟨hs, rfl⟩
    rw [hs]
    have hnodup := h.nodup
    have hgone : a ∉ front ++ rest := (List.nodup_middle.mp hnodup).notMem
    have hne : ∀ j ∈ front ++ rest, j ≠ a := fun j hj he => hgone (he ▸ hj)
    have hunlinked := h.unlink
    have hsame := put_toBlinker b front.getLast? (b.blinkArray a).next
    have hvideo := put_videoMem b front.getLast? (b.blinkArray a).next
    refine .of rfl ⟨rfl, front ++ rest, ?_⟩
    generalize b.put front.getLast? (b.blinkArray a).next = c at hunlinked hsame hvideo
    refine ⟨?_, fun j => ?_, ?_, fun e he => ?_, hvideo.trans h.video⟩
    · show Linked (fun j => (Function.update c.blinkArray a .zero j).next) c.mp1ListHead _
      rw [update_next]
      exact hunlinked.congr fun j hj => Function.update_of_ne (hne j hj) _ _
    · show _ ↔ j < cells ∧ (Function.update c.blinkArray a .zero j).location ≠ 0
      rw [Function.update_apply]
      by_cases hj : j = a
      · rw [if_pos hj]
        exact iff_of_false (hj ▸ hgone) fun h => h.2 rfl
      · have hslot := h.slots j
        rw [List.mem_append, List.mem_cons, or_iff_right hj, ← List.mem_append] at hslot
        rw [if_neg hj, hslot, hsame]
    · have hblinkers := h.blinkers
      rw [List.map_append, List.map_cons] at hblinkers
      show List.eraseP _ d.blinkers =
        (front ++ rest).map fun j => (Function.update c.blinkArray a .zero j).toBlinker
      rw [hblinkers, List.eraseP_append_right, List.eraseP_cons, hloc, cond_true,
        ← List.map_append]
      · refine List.map_congr_left fun j hj => ?_
        rw [Function.update_of_ne (hne j hj), hsame]
      · intro e he
        obtain ⟨j, hj, rfl⟩ := List.mem_map.mp he
        have hjloc := hfront j hj
        simpa using hjloc
    · exact h.onScreen e (List.mem_of_mem_eraseP he)

/-! ### Blinkers change in their slots -/

/-- A character of the screen is stored. -/
theorem Holds.poke (h : Holds v l b d) {location : UInt16} (hin : location.toNat < cells)
    (c : UInt8) : Holds v l (b.mp1Poke c (location.toNat * 2)) (d.write location c) where
  linked := h.linked
  slots := h.slots
  blinkers := h.blinkers
  onScreen := h.onScreen
  video := by
    show Function.update b.videoMem _ _ = _
    rw [h.video]
    exact painted_write v d.display hin c

/-- A structure is stored over another one with the same location and link. -/
theorem Holds.restore (h : Holds v (front ++ a :: rest) b d) {s : Mp1BlinkStruct}
    (hloc : s.location = (b.blinkArray a).location) (hnext : s.next = (b.blinkArray a).next)
    {pre post : List Blinker} (hd : d.blinkers = pre ++ (b.blinkArray a).toBlinker :: post)
    (hlen : pre.length = front.length) :
    Holds v (front ++ a :: rest) (b.store a s) ⟨pre ++ s.toBlinker :: post, d.display⟩ := by
  have hnodup := h.nodup
  have hgone : a ∉ front ++ rest := (List.nodup_middle.mp hnodup).notMem
  have hne : ∀ j ∈ front ++ rest, j ≠ a := fun j hj he => hgone (he ▸ hj)
  refine ⟨?_, fun j => ?_, ?_, fun e he => ?_, h.video⟩
  · show Linked (fun j => (Function.update b.blinkArray a s j).next) b.mp1ListHead _
    rw [update_next, hnext]
    exact h.linked.congr fun j _ => congrFun (Function.update_eq_self a _) j
  · show _ ↔ j < cells ∧ (Function.update b.blinkArray a s j).location ≠ 0
    rw [h.slots j, Function.update_apply]
    split
    · subst j
      rw [hloc]
    · rfl
  · have hmap := hd.symm.trans h.blinkers
    rw [List.map_append, List.map_cons] at hmap
    obtain ⟨rfl, hrest⟩ := List.append_inj hmap (by rw [hlen, List.length_map])
    obtain ⟨-, rfl⟩ := List.cons.inj hrest
    show _ = (front ++ a :: rest).map fun j => (Function.update b.blinkArray a s j).toBlinker
    rw [List.map_append, List.map_cons, Function.update_self]
    refine congrArg₂ (· ++ ·) (List.map_congr_left fun j hj => ?_)
      (congrArg _ (List.map_congr_left fun j hj => ?_))
    · rw [Function.update_of_ne (hne j (List.mem_append_left rest hj))]
    · rw [Function.update_of_ne (hne j (List.mem_append_right front hj))]
  · have hin : ∀ e ∈ d.blinkers, e.location.toNat < cells := h.onScreen
    rw [hd] at hin
    rcases List.mem_append.mp he with he | he
    · exact hin e (List.mem_append_left _ he)
    rcases List.mem_cons.mp he with rfl | he
    · rw [hloc]
      exact hin _ (List.mem_append_right pre List.mem_cons_self)
    · exact hin e (List.mem_append_right pre (List.mem_cons_of_mem _ he))

theorem modifyFirst_append {α : Type} {p : α → Bool} (f : α → α) {x : α} (hx : p x = true)
    {pre post : List α} (hpre : ∀ y ∈ pre, p y = false) :
    modifyFirst p f (pre ++ x :: post) = pre ++ f x :: post := by
  induction pre with
  | nil => exact if_pos hx
  | cons y pre ih =>
    rw [List.cons_append, modifyFirst, hpre y List.mem_cons_self, if_neg Bool.false_ne_true,
      ih fun z hz => hpre z (List.mem_cons_of_mem y hz)]
    rfl

/-- `cmovl` never moves: the tested bit is not the sign. -/
theorem testbLess_one (c : UInt8) : Blink.testbLess 1 c = false := by
  refine decide_eq_false ?_
  have hle : (1 &&& c).toNat ≤ 1 := by
    rw [UInt8.toNat_and]
    exact Nat.and_le_left
  omega

theorem Holds.sync (h : Holds v l b d) (arg : UInt32) :
    (mp1IoctlSync arg).Ensures b fun r b' =>
      r = (d.sync (arg >>> 16).toUInt16 (arg &&& 0xFFFF).toUInt16).1 ∧
        ∃ l', Holds v l' b' (d.sync (arg >>> 16).toUInt16 (arg &&& 0xFFFF).toUInt16).2 := by
  unfold mp1IoctlSync Board.sync
  refine .bind ((h.find _).mono ?_)
  rintro _ s ⟨hs, rfl⟩
  rw [hs, h.board_find, h.board_find]
  cases hsource : l.find? fun i => (b.blinkArray i).isAt (arg >>> 16).toUInt16 with
  | none => exact .pure ⟨rfl, l, h⟩
  | some source =>
    refine .bind ((h.find _).mono ?_)
    rintro _ s ⟨hs, rfl⟩
    rw [hs]
    cases htarget :
        l.find? fun i => (b.blinkArray i).isAt (arg &&& 0xFFFF).toUInt16 with
    | none => exact .pure ⟨rfl, l, h⟩
    | some a =>
      obtain ⟨hloc, front, rest, rfl, hfront⟩ := List.find?_eq_some_iff_append.mp htarget
      refine .of rfl ⟨rfl, front ++ a :: rest, ?_⟩
      have htarget : (b.blinkArray a).location = (arg &&& 0xFFFF).toUInt16 := of_decide_eq_true hloc
      have hblinkers := h.blinkers
      rw [List.map_append, List.map_cons] at hblinkers
      have hin := h.onScreen (b.blinkArray a).toBlinker (by rw [hblinkers]; simp)
      have hfirst : ∀ e ∈ front.map fun i => (b.blinkArray i).toBlinker,
          Blinker.isAt (arg &&& 0xFFFF).toUInt16 e = false := by
        intro e he
        obtain ⟨j, hj, rfl⟩ := List.mem_map.mp he
        simpa using hfront j hj
      dsimp only [Option.map_some]
      rw [hblinkers, modifyFirst_append (·.syncTo (b.blinkArray source).toBlinker) hloc hfirst]
      unfold Blink.mp1Sync
      dsimp only
      rw [testbLess_one, if_neg Bool.false_ne_true, ← htarget]
      have hstored := h.restore (s := { b.blinkArray a with
        onLength := (b.blinkArray source).onLength, offLength := (b.blinkArray source).offLength,
        countdown := (b.blinkArray source).countdown, status := (b.blinkArray source).status })
        rfl rfl hblinkers (List.length_map _)
      exact hstored.poke hin (b.blinkArray a).offChar

/-! ### Time goes on -/

theorem mp1Blink_eq (b : Blink) (i : Nat) : b.mp1Blink i =
    (if (b.blinkArray i).due then
      b.mp1Poke (b.blinkArray i).turn ((b.blinkArray i).location.toNat * 2)
    else b).store i ⟨(b.blinkArray i).toBlinker.tick, (b.blinkArray i).next⟩ := by
  unfold Blink.mp1Blink Blinker.tick Blinker.turn Blinker.isOn Blinker.due
  dsimp only
  cases Blink.above ((b.blinkArray i).countdown - 1) with
  | true => rfl
  | false =>
    by_cases hon : (b.blinkArray i).status &&& 1 ≠ 0
    · rw [if_pos hon, decide_eq_true hon]
      rfl
    · rw [if_neg hon, decide_eq_false hon]
      rfl

theorem tick_location (e : Blinker) : e.tick.location = e.location := by
  unfold Blinker.tick
  split <;> rfl

/-- One structure of the tasklet's loop. -/
theorem Holds.blink (h : Holds v (front ++ a :: rest) b d) {pre post : List Blinker}
    (hd : d.blinkers = pre ++ (b.blinkArray a).toBlinker :: post)
    (hlen : pre.length = front.length) :
    Holds v (front ++ a :: rest) (b.mp1Blink a)
      ⟨pre ++ (b.blinkArray a).toBlinker.tick :: post,
        Board.blink d.display (b.blinkArray a).toBlinker⟩ := by
  have hin : (b.blinkArray a).location.toNat < cells := by
    refine h.onScreen (b.blinkArray a).toBlinker ?_
    rw [hd]
    exact List.mem_append_right pre List.mem_cons_self
  have hloc := tick_location (b.blinkArray a).toBlinker
  rw [mp1Blink_eq]
  unfold Board.blink
  generalize hs : Mp1BlinkStruct.mk (b.blinkArray a).tick (b.blinkArray a).next = s
  have hnext : s.next = (b.blinkArray a).next := by rw [← hs]
  have hdata : s.toBlinker = (b.blinkArray a).tick := by rw [← hs]
  rw [← hdata] at hloc ⊢
  by_cases hdue : (b.blinkArray a).due = true
  · rw [if_pos hdue, if_pos hdue]
    exact (h.poke hin _).restore hloc hnext hd hlen
  · rw [if_neg hdue, if_neg hdue]
    exact h.restore hloc hnext hd hlen

theorem Holds.tick (h : Holds v l b d) :
    mp1RtcTasklet.Ensures b fun _ b' => Holds v l b' d.tick := by
  refine .bind (.of rfl ?_)
  refine ensures_walk (fun s i => (s.blinkArray i).next)
    (fun rest s => ∃ front, l = front ++ rest ∧ Holds v l s
      ⟨(front.map fun i => (b.blinkArray i).toBlinker.tick) ++
        rest.map fun i => (b.blinkArray i).toBlinker,
      (front.map fun i => (b.blinkArray i).toBlinker).foldl Board.blink d.display⟩) ?_ ?_ h.linked
    ⟨[], rfl, ?_⟩
  · rintro s ⟨front, hl, hs⟩
    refine .pure ⟨_, rfl, ?_⟩
    rw [List.append_nil] at hl
    unfold Board.tick
    rw [h.blinkers, List.map_map, hl]
    rwa [hl, List.map_nil, List.append_nil] at hs
  · rintro i rest s ⟨front, hl, hs⟩ hrest
    have hsame : (s.blinkArray i).toBlinker = (b.blinkArray i).toBlinker := by
      have hmap := hs.blinkers
      rw [hl, List.map_append, List.map_cons, List.map_cons] at hmap
      have htail := List.append_inj_right hmap (by rw [List.length_map, List.length_map])
      exact (List.cons.inj htail).1.symm
    subst hl
    rw [List.map_cons, ← hsame] at hs
    have hblinked := hs.blink rfl (List.length_map _)
    refine .of rfl (Or.inr ⟨_, rfl, ?_, front ++ [i], List.append_cons _ _ _, ?_⟩)
    · exact hblinked.linked.behind
    · rw [List.map_append, List.map_append, List.foldl_append, List.append_assoc]
      rw [hsame] at hblinked
      exact hblinked
  · have hmap := h.blinkers
    rw [List.map_nil, List.nil_append, ← hmap]
    exact h

/-! ## Runs -/

/-- Nothing is added at location 0. -/
def Request.Placed : Request → Prop
  | .add s => s.location ≠ 0
  | .remove _ | .find _ | .sync _ | .tick => True

instance : DecidablePred Request.Placed
  | .add s => inferInstanceAs (Decidable (s.location ≠ 0))
  | .remove _ | .find _ | .sync _ | .tick => isTrue trivial

/-- An answer without the link of the structure. -/
def answer (a : Int × Option Mp1BlinkStruct) : Int × Option Blinker :=
  (a.1, a.2.map Mp1BlinkStruct.toBlinker)

theorem Holds.serve (h : Holds v l b d) {r : Request} (hr : r.Placed) :
    (serve r).Ensures b fun a b' => answer a = (d.serve r).1 ∧
      ∃ l', Holds v l' b' (d.serve r).2 := by
  cases r with
  | add s =>
    obtain ⟨hret, hholds⟩ := h.add s hr
    exact .of rfl ⟨congrArg (·, none) hret, hholds⟩
  | remove arg =>
    exact .map ((h.remove arg).mono fun _ _ ⟨hret, hholds⟩ => ⟨congrArg (·, none) hret, hholds⟩)
  | find location =>
    unfold LmaOS.Fish.serve mp1IoctlFind Board.serve
    dsimp only
    refine .bind ((h.find location).mono ?_)
    rintro _ s ⟨hs, rfl⟩
    rw [hs, h.board_find]
    cases l.find? fun i => (b.blinkArray i).isAt location with
    | none => exact .pure ⟨rfl, l, h⟩
    | some i => exact .of rfl ⟨rfl, l, h⟩
  | sync arg =>
    exact .map ((h.sync arg).mono fun _ _ ⟨hret, hholds⟩ => ⟨congrArg (·, none) hret, hholds⟩)
  | tick => exact .map (h.tick.mono fun _ _ hholds => ⟨rfl, l, hholds⟩)

theorem Holds.serveAll (h : Holds v l b d) {rs : List Request} (hrs : ∀ r ∈ rs, r.Placed) :
    (serveAll rs).Ensures b fun as b' => as.map answer = (d.serveAll rs).1 ∧
      ∃ l', Holds v l' b' (d.serveAll rs).2 := by
  induction rs generalizing b d l with
  | nil => exact .pure ⟨rfl, l, h⟩
  | cons r rs ih =>
    refine .bind ((h.serve (hrs r List.mem_cons_self)).mono ?_)
    rintro a b₁ ⟨hanswer, l₁, h₁⟩
    refine .bind ((ih h₁ fun r hr => hrs r (List.mem_cons_of_mem _ hr)).mono ?_)
    rintro as b₂ ⟨hanswers, hholds⟩
    exact .pure ⟨congrArg₂ List.cons hanswer hanswers, hholds⟩

end Holds

/-- The data when `main` has cleared its array and mapped the video memory `v`. -/
def Blink.start (v : Buf) : Blink := ⟨fun _ => .zero, none, v⟩

def Board.start (v : Buf) : Board := ⟨[], fun i => v (i * 2)⟩

theorem start_holds (v : Buf) : Holds v [] (Blink.start v) (Board.start v) where
  linked := rfl
  slots := fun _ => iff_of_false List.not_mem_nil fun h => h.2 rfl
  blinkers := rfl
  onScreen := fun _ he => absurd he List.not_mem_nil
  video := by
    funext o
    unfold painted
    split
    · rename_i ho
      show v o = v (o / 2 * 2)
      rw [show o / 2 * 2 = o by omega]
    · rfl

/-- The assembly does what the board does. -/
theorem serveAll_refines (v : Buf) {rs : List Request} (hrs : ∀ r ∈ rs, r.Placed) :
    (serveAll rs).Ensures (Blink.start v) fun as b =>
      as.map answer = ((Board.start v).serveAll rs).1 ∧
        ∃ l, Holds v l b ((Board.start v).serveAll rs).2 :=
  (start_holds v).serveAll hrs

/-- The letters "I" and "M" at row 6, column 60. -/
def letterI : Mp1BlinkStruct := ⟨⟨540, 0x49, 0x4D, 7, 6, 0, 0⟩, none⟩

/-- The character at row 0, column 40. -/
def letterA : Mp1BlinkStruct := ⟨⟨40, 0x41, 0x20, 15, 15, 0, 0⟩, none⟩

/-- What `main` asks for, with fewer ticks. -/
def fishRun : List Request :=
  [.add letterA, .tick, .add letterI, .tick, .sync 0x28021C, .tick, .find 540, .remove 540,
    .find 540]

theorem serveAll_refines_fishRun :
    (serveAll fishRun).Ensures (Blink.start fun _ => 0) fun as b =>
      as.map answer = ((Board.start fun _ => 0).serveAll fishRun).1 ∧
        ∃ l, Holds (fun _ => 0) l b ((Board.start fun _ => 0).serveAll fishRun).2 :=
  serveAll_refines _ (by decide)

end LmaOS.Fish
