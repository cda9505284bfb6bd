import LmaOS.FileOps

/-
  The file system calls of syscall.c: `read`, `write`, `open`, `close`, `getargs`.

  Each of them works on the PCB `get_pcb_address` finds. `buf = none` is a `NULL` pointer. The
  per-type `close` functions do nothing and their results are ignored.
-/
namespace LmaOS

open Util

def read (img : Image) (k : Kernel) (dentry : Dentry) (tail : Buf) (fd : Int)
    (buf : Option Buf) (nbytes : Int) : Option ReadResult :=
  match buf with
  | none => some ⟨-1, fun _ => 0, k⟩
  | some buf =>
    if fd < 0 ∨ fd > 7 ∨ nbytes < 0 then some ⟨-1, buf, k⟩
    else
      let f := (k.pcbs (getPcbAddress k)).file fd.toNat
      if f.flags = 0 then some ⟨-1, buf, k⟩
      else f.fileOp.read img k dentry tail fd.toNat buf nbytes.toNat

def write (k : Kernel) (fd : Int) (buf : Option Buf) (nbytes : Int) : Int × Kernel :=
  match buf with
  | none => (-1, k)
  | some buf =>
    if fd < 0 ∨ fd > 7 ∨ nbytes < 0 then (-1, k)
    else
      let f := (k.pcbs (getPcbAddress k)).file fd.toNat
      if f.flags = 0 then (-1, k) else f.fileOp.write k fd.toNat buf nbytes.toNat

/-- The search loop of `open`: 8 if no descriptor in 2..7 is free. -/
def Pcb.openFd (p : Pcb) : Nat := 2 + firstIdx (fun i => decide ((p.file (2 + i)).flags ≠ 1)) 6

/-- A descriptor just opened. -/
def openedFd (ops : FileOps) (inode : Nat) : Fd := ⟨ops, inode, 0, 1⟩

/-- `open`: `dentry` is the previous contents of its local entry. -/
def openCall (img : Image) (k : Kernel) (dentry : Dentry) (filename : CString) : Int × Kernel :=
  let pid := getPcbAddress k
  let p := k.pcbs pid
  if filename.chars.length > 32 ∨ filename.chars.length = 0 then (-1, k)
  else
    let r := readDentryByName img filename.buf dentry
    if r.1 = -1 then (-1, k)
    else
      let fd := p.openFd
      if p.flagsAt fd ≠ 1 then
        if r.2.fileType = 0 ∨ strncmp filename.buf (Buf.ofList (bytes "rtc")) 3 = 0 then
          let o := rtcOpen k
          if o.1 ≠ -1 then (fd, o.2.setPcb pid (p.setFile fd (openedFd .rtcOp 0))) else (-1, o.2)
        else if r.2.fileType = 1 ∨ strncmp filename.buf (Buf.ofList (bytes ".")) 1 = 0 then
          if openDir img k dentry filename ≠ -1 then
            (fd, k.setPcb pid (p.setFile fd (openedFd .dirOp 0)))
          else (-1, k)
        else if r.2.fileType = 2 then
          if openFile img k dentry filename ≠ -1 then
            (fd, k.setPcb pid (p.setFile fd (openedFd .fileOp r.2.inodeNum)))
          else (-1, k)
        else (-1, k)
      else (-1, k)

/-- `close`: the operation table pointer stays. -/
def close (k : Kernel) (fd : Int) : Int × Kernel :=
  if fd < 2 ∨ fd > 7 then (-1, k)
  else
    let pid := getPcbAddress k
    let p := k.pcbs pid
    let f := p.file fd.toNat
    if f.flags ≠ 1 then (-1, k)
    else
      let f := { f with flags := 0, inode := 0, pos := 0 }
      (0, k.setPcb pid { p with file := Function.update p.file fd.toNat f })

def getargs (k : Kernel) (buf : Option Buf) (nbytes : Int) : Int × Buf :=
  match buf with
  | none => (-1, fun _ => 0)
  | some buf =>
    let p := k.pcbs (getPcbAddress k)
    if p.arg 0 = 0 then (-1, buf) else (0, strncpy buf p.arg (word32 nbytes))

end LmaOS
