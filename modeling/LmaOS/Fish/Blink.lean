import LmaOS.Util.Buffer
import LmaOS.Util.Linked

/-
  The blinking characters of the program fish (blink.S), and the allocator they use (fish.c).

  A `Blink` is the data of the two files: the array of 2000 structures from which `mp1_malloc`
  takes one whose location is 0, the head of the list threaded through them, and the video memory
  that `vidmap` gave. `mp1_ioctl` and the tasklet are tasks: they walk along the list, which may
  never end.
-/
namespace LmaOS.Fish

open Util

/-! ## The data -/

/-- The members of `struct mp1_blink_struct` apart from the link. -/
structure Blinker where
  location : UInt16
  onChar : UInt8
  offChar : UInt8
  onLength : UInt16
  offLength : UInt16
  countdown : UInt16
  status : UInt16
  deriving DecidableEq

structure Mp1BlinkStruct extends Blinker where
  next : Option Nat
  deriving DecidableEq

/-- All bytes 0. -/
def Mp1BlinkStruct.zero : Mp1BlinkStruct := ⟨⟨0, 0, 0, 0, 0, 0, 0⟩, none⟩

/-- The number of characters on the screen. -/
abbrev cells : Nat := 80 * 25

structure Blink where
  blinkArray : Nat → Mp1BlinkStruct
  mp1ListHead : Option Nat
  videoMem : Buf

namespace Blink

def store (b : Blink) (i : Nat) (s : Mp1BlinkStruct) : Blink :=
  { b with blinkArray := Function.update b.blinkArray i s }

/-- `mp1_poke`: the byte and its offset in the video memory. -/
def mp1Poke (b : Blink) (cl : UInt8) (eax : Nat) : Blink :=
  { b with videoMem := Function.update b.videoMem eax cl }

/-- `mp1_malloc`: a structure whose location is 0 counts as free. -/
def mp1Malloc (b : Blink) : Option Nat :=
  let i := firstIdx (fun i => decide ((b.blinkArray i).location = 0)) cells
  if i < cells then some i else none

def mp1Free (b : Blink) (i : Nat) : Blink := b.store i .zero

/-- `mp1_ioctl_add` of the user's structure `s`. -/
def mp1IoctlAdd (b : Blink) (s : Mp1BlinkStruct) : Int × Blink :=
  if cells ≤ s.location.toNat then (-1, b)
  else
    let s := { s with status := 1, countdown := s.onLength }
    match b.mp1Malloc with
    | none => (-1, b)
    | some edx =>
      let b := b.store edx { s with next := b.mp1ListHead }
      let b := { b with mp1ListHead := some edx }
      (0, b.mp1Poke (b.blinkArray edx).onChar ((b.blinkArray edx).location.toNat * 2))

/-- `cmpw $0` and `jg`: the comparison is signed. -/
def above (w : UInt16) : Bool := decide (0 < w.toNat ∧ w.toNat < 32768)

/-- One structure in the loop of `mp1_rtc_tasklet`. -/
def mp1Blink (b : Blink) (i : Nat) : Blink :=
  let s := b.blinkArray i
  let s := { s with countdown := s.countdown - 1 }
  if above s.countdown then b.store i s
  else
    let eax := s.location.toNat * 2
    if s.status &&& 1 ≠ 0 then
      (b.mp1Poke s.offChar eax).store i
        { s with countdown := s.offLength, status := s.status ^^^ 1 }
    else
      (b.mp1Poke s.onChar eax).store i
        { s with countdown := s.onLength, status := s.status ^^^ 1 }

/-- `testb` and `l`: signed "less" of the flags after an AND. There is no overflow, and the sign is
    that of the result. -/
def testbLess (a c : UInt8) : Bool := decide (128 ≤ (a &&& c).toNat)

/-- The copy of `mp1_ioctl_sync`, from the structure `esi` to `edi`, and its display. -/
def mp1Sync (b : Blink) (esi edi : Nat) : Blink :=
  let s := b.blinkArray esi
  let t := { b.blinkArray edi with
    onLength := s.onLength, offLength := s.offLength, countdown := s.countdown,
    status := s.status }
  let cl := if testbLess 1 t.status.toUInt8 then t.onChar else t.offChar
  (b.store edi t).mp1Poke cl (t.location.toNat * 2)

end Blink

/-! ## The list -/

/-- `mp1_find_helper`. -/
def mp1FindHelper (ax : UInt16) : Task Blink (Option Nat) := do
  let ebx ← Task.of fun b => some (b.mp1ListHead, b)
  Task.loop (fun ebx =>
    match ebx with
    | none => pure (.inr none)
    | some i => Task.of fun b =>
      if (b.blinkArray i).location = ax then some (.inr (some i), b)
      else some (.inl (b.blinkArray i).next, b)) ebx

def mp1RtcTasklet : Task Blink Unit := do
  let ebx ← Task.of fun b => some (b.mp1ListHead, b)
  Task.loop (fun ebx =>
    match ebx with
    | none => pure (.inr ())
    | some i => Task.of fun b =>
      let b := b.mp1Blink i
      some (.inl (b.blinkArray i).next, b)) ebx

/-- What `edx` points to in `mp1_ioctl_remove`: the head (`none`), or the link of a structure. -/
def Blink.at (b : Blink) (edx : Option Nat) : Option Nat :=
  match edx with
  | none => b.mp1ListHead
  | some j => (b.blinkArray j).next

def Blink.put (b : Blink) (edx ecx : Option Nat) : Blink :=
  match edx with
  | none => { b with mp1ListHead := ecx }
  | some j => b.store j { b.blinkArray j with next := ecx }

/-- The loop `remove_find_prev`. It would fault at the end of the list. -/
def removeFindPrev (eax : Nat) : Task Blink (Option Nat) :=
  Task.loop (fun edx => Task.of fun b =>
    if b.at edx = some eax then some (.inr edx, b)
    else (b.at edx).map fun j => (.inl (some j), b)) none

def mp1IoctlRemove (arg : UInt32) : Task Blink Int := do
  let eax ← mp1FindHelper arg.toUInt16
  match eax with
  | none => pure (-1)
  | some eax => do
    let edx ← removeFindPrev eax
    Task.of fun b => some (0, (b.put edx (b.blinkArray eax).next).mp1Free eax)

def mp1IoctlSync (arg : UInt32) : Task Blink Int := do
  let esi ← mp1FindHelper (arg >>> 16).toUInt16
  match esi with
  | none => pure (-1)
  | some esi => do
    let edi ← mp1FindHelper (arg &&& 0xFFFF).toUInt16
    match edi with
    | none => pure (-1)
    | some edi => Task.of fun b => some (0, b.mp1Sync esi edi)

/-- `mp1_ioctl_find`: the result, and what is copied to the user's structure. -/
def mp1IoctlFind (location : UInt16) : Task Blink (Int × Option Mp1BlinkStruct) := do
  let eax ← mp1FindHelper location
  match eax with
  | none => pure (-1, none)
  | some eax => Task.of fun b => some ((0, some (b.blinkArray eax)), b)

/-- What the program asks of blink.S. -/
inductive Request where
  | add (s : Mp1BlinkStruct)
  | remove (arg : UInt32)
  | find (location : UInt16)
  | sync (arg : UInt32)
  | tick

/-- `mp1_ioctl`, and the tasklet. -/
def serve : Request → Task Blink (Int × Option Mp1BlinkStruct)
  | .add s => Task.of fun b => some (((b.mp1IoctlAdd s).1, none), (b.mp1IoctlAdd s).2)
  | .remove arg => (·, none) <$> mp1IoctlRemove arg
  | .find location => mp1IoctlFind location
  | .sync arg => (·, none) <$> mp1IoctlSync arg
  | .tick => (fun _ => (0, none)) <$> mp1RtcTasklet

def serveAll : List Request → Task Blink (List (Int × Option Mp1BlinkStruct))
  | [] => pure []
  | r :: rs => do
    let a ← serve r
    let as ← serveAll rs
    pure (a :: as)

end LmaOS.Fish
