import LmaOS.Keyboard

/-
  The per-type file operations of filesys.c and rtc.c, and the jump table dispatch of
  syscall.c.

  A dispatch through a table is a `match` on `FileOps`. `Locals` and the `tail` arguments are
  what uninitialised stack memory holds: `read_dir` reads past the end of a 32-byte name into the
  rest of its local `dentry_t`, and from there on into `tail`.
-/
namespace LmaOS

open Util

/-! ## Regular files and directories -/

/-- The search for a free descriptor in `open_file` and `open_dir`; the index is only compared
    with -1 by `open`. -/
def freeFd (p : Pcb) : Int :=
  let i := firstIdx (fun i => decide ((p.file i).flags = 0)) 8
  if i < 8 then i else -1

/-- The body `open_file` and `open_dir` share. -/
def openEntry (img : Image) (k : Kernel) (dentry : Dentry) (filename : CString) : Int :=
  if (readDentryByName img filename.buf dentry).1 = -1 then -1
  else freeFd (k.pcbs (getPcbAddress k))

def openFile (img : Image) (k : Kernel) (dentry : Dentry) (filename : CString) : Int :=
  openEntry img k dentry filename

def openDir (img : Image) (k : Kernel) (dentry : Dentry) (filename : CString) : Int :=
  openEntry img k dentry filename

def readFile (img : Image) (k : Kernel) (fd : Nat) (buf : Buf) (nbytes : Nat) : ReadResult :=
  let pid := getPcbAddress k
  let p := k.pcbs pid
  let f := p.file fd
  let r := readData img f.inode f.pos buf nbytes
  let f := { f with pos := (f.pos + r.1) % 4294967296 }
  ⟨r.1, r.2, k.setPcb pid { p with file := Function.update p.file fd f }⟩

/-- The memory of a local `dentry_t`: name, type, inode, then whatever the stack holds. -/
def Dentry.memory (d : Dentry) (tail : Buf) : Buf := fun i =>
  if i < 32 then d.fileName i
  else if i < 36 then wordByte d.fileType (i - 32)
  else if i < 40 then wordByte d.inodeNum (i - 36)
  else tail i

def readDir (img : Image) (k : Kernel) (dentry : Dentry) (tail : Buf) (fd : Nat) (buf : Buf)
    (nbytes : Nat) : ReadResult :=
  let pid := getPcbAddress k
  let p := k.pcbs pid
  let f := p.file fd
  let r := readDentryByIndex img f.pos dentry
  if r.1 = 0 then
    let name := r.2.memory tail
    let buf := clearBuf (filenameLen + 1) buf
    let buf := strncpy buf name nbytes
    let f := { f with pos := (f.pos + 1) % 4294967296 }
    let len := strlen name
    let len := if len > 32 then 32 else len
    ⟨len, buf, k.setPcb pid { p with file := Function.update p.file fd f }⟩
  else ⟨0, buf, k⟩

/-! ## RTC -/

/-- The rate code `set_frequency` writes, for the ten frequencies it accepts. -/
def freqHexcode : Int → Option Nat
  | 2 => some 0x0F
  | 4 => some 0x0E
  | 8 => some 0x0D
  | 16 => some 0x0C
  | 32 => some 0x0B
  | 64 => some 0x0A
  | 128 => some 0x09
  | 256 => some 0x08
  | 512 => some 0x07
  | 1024 => some 0x06
  | _ => none

def setFrequency (k : Kernel) (targetFrequency : Int) : Int × Kernel :=
  match freqHexcode targetFrequency with
  | some code => (0, { k with rtcA := (k.rtcA &&& 0xF0) ||| code })
  | none => (-1, k)

/-- `rtc_open`; the file name is never `NULL` here. -/
def rtcOpen (k : Kernel) : Int × Kernel := setFrequency k 2

/-- `rtc_read` returns once an interrupt has come. -/
def rtcRead (k : Kernel) (buf : Buf) : ReadResult := ⟨0, buf, k⟩

def rtcWrite (k : Kernel) (fd : Nat) (buf : Buf) (nbytes : Nat) : Int × Kernel :=
  if fd = 0 ∨ fd = 1 ∨ nbytes ≠ 4 then (-1, k)
  else
    let r := setFrequency k (int32 (buf.word 0))
    if r.1 ≠ 0 then (-1, r.2) else (nbytes, r.2)

/-! ## Dispatch -/

/-- `file_op->read`. -/
def FileOps.read (ops : FileOps) (img : Image) (k : Kernel) (dentry : Dentry) (tail : Buf)
    (fd : Nat) (buf : Buf) (nbytes : Nat) : Option ReadResult :=
  match ops with
  | fileOp => some (readFile img k fd buf nbytes)
  | rtcOp => some (rtcRead k buf)
  | dirOp => some (readDir img k dentry tail fd buf nbytes)
  | stdinOp => terminalRead k buf nbytes
  | stdoutOp | doNothing => some ⟨-1, buf, k⟩

/-- `file_op->write`. -/
def FileOps.write (ops : FileOps) (k : Kernel) (fd : Nat) (buf : Buf) (nbytes : Nat) :
    Int × Kernel :=
  match ops with
  | rtcOp => rtcWrite k fd buf nbytes
  | stdoutOp => terminalWrite k buf nbytes
  | fileOp | dirOp | stdinOp | doNothing => (-1, k)

end LmaOS
