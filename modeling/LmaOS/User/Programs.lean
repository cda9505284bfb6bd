import LmaOS.User.Calls

/-
  `cat` and `ls` (ece391cat.c, ece391ls.c).

  Each is the source's `main`, with the previous contents of its buffer. `catText` and `lsText` say
  what the programs are for: which status they return and what is on the terminal then.

  * `cat_prints`: `cat` prints the rest of the descriptor its argument opens as.
  * `ls_prints`: `ls` prints the names of the directory, a line each, up to the first empty one; an
    error message if there is no ".".
-/
namespace LmaOS

open Util

namespace User

variable (m : Host)

/-! ## The programs -/

def catLoop (fd : Int) (buf : Buf) : Task World (Buf ⊕ Int) := do
  let r ← ece391Read m fd buf 1024
  if r.1 = 0 then pure (.inr 0)
  else if r.1 = -1 then
    ece391Fdputs m 1 (literal "file read failed\n")
    pure (.inr 3)
  else
    let n ← ece391Write m 1 r.2 r.1
    if n = -1 then pure (.inr 3) else pure (.inl r.2)

def cat (buf : Buf) : Task World Int := do
  let a ← ece391Getargs m buf 1024
  if a.1 ≠ 0 then
    ece391Fdputs m 1 (literal "could not read arguments\n")
    pure 3
  else
    let fd ← ece391Open m a.2
    if fd = -1 then
      ece391Fdputs m 1 (literal "file not found\n")
      pure 2
    else Task.loop (catLoop m fd) a.2

/-- `SBUFSIZE`. -/
abbrev sbufSize : Nat := 33

def lsLoop (fd : Int) (buf : Buf) : Task World (Buf ⊕ Int) := do
  let r ← ece391Read m fd buf (sbufSize - 1 : Nat)
  if r.1 = 0 then pure (.inr 0)
  else if r.1 = -1 then
    ece391Fdputs m 1 (literal "directory entry read failed\n")
    pure (.inr 3)
  else
    let buf := Function.update r.2 r.1.toNat 0x0A
    let n ← ece391Write m 1 buf (r.1 + 1)
    if n = -1 then pure (.inr 3) else pure (.inl buf)

def ls (buf : Buf) : Task World Int := do
  let fd ← ece391Open m (literal ".")
  if fd = -1 then
    ece391Fdputs m 1 (literal "directory open failed\n")
    pure 2
  else Task.loop (lsLoop m fd) buf

end User

/-! ## What they are for -/

/-- The argument names what `cat` prints. -/
def Image.catText (img : Image) (arg : CString) : List UInt8 × Int :=
  if arg.chars = [] then (bytes "could not read arguments\n", 3)
  else
    match img.opens arg with
    | none => (bytes "file not found\n", 2)
    | some f => (img.rest f, 0)

/-- What it opens for that. -/
def Image.catOpens (img : Image) (arg : CString) : Option Fd :=
  if arg.chars = [] then none else img.opens arg

theorem dot_noNul : 0 ∉ ([0x2E] : List UInt8) := by decide

/-- The name of the directory. -/
def dot : CString := ⟨[0x2E], dot_noNul⟩

/-- The names a descriptor lists, if it is a directory. -/
def Image.listed (img : Image) (f : Fd) : List (List UInt8) :=
  if f.fileOp = .dirOp then img.entries f.pos else []

/-- Every name with a newline. -/
def lines (names : List (List UInt8)) : List UInt8 := (names.map (· ++ [0x0A])).flatten

def Image.lsText (img : Image) : List UInt8 × Int :=
  match img.opens dot with
  | none => (bytes "directory open failed\n", 2)
  | some f => (lines (img.listed f), 0)

namespace User

/-- A program that starts in the world `w` ends with the given status, and has printed the given
    text. -/
def Prints (m : Host) (w : World) (program : Task World Int) (text : List UInt8 × Int) : Prop :=
  program.Ensures w fun status w' => status = text.2 ∧ ∃ files, w'.At m w files text.1

/-- A program that opens a file leaves it open. -/
def LeavesOpen (opened : Option Fd) (files files' : Nat → Fd) : Prop :=
  match opened with
  | none => files' = files
  | some _ => ∃ (fd : Nat) (f : Fd), 2 ≤ fd ∧ fd < 8 ∧ (files fd).flags ≠ 1 ∧ f.flags = 1 ∧
      files' = Function.update files fd f

section Pieces

variable {m : Host} {fd n : Nat}

/-- One round of a loop that reads the descriptor `f` piece by piece: it prints what `shown` makes
    of the next piece, and ends the loop with status 0 when there is none. `Inv f out w` is what
    holds between the rounds. -/
def PieceRound (m : Host) (n : Nat) (shown : List UInt8 → List UInt8)
    (Inv : Fd → List UInt8 → World → Prop) (body : Buf → Task World (Buf ⊕ Int)) : Prop :=
  ∀ f out w buf, m.img.Readable f → Inv f out w → (body buf).Ensures w fun r w' =>
    if (m.img.next f n).1 = [] then r = .inr 0 ∧ Inv (m.img.next f n).2 out w'
    else (∃ buf', r = .inl buf') ∧ Inv (m.img.next f n).2 (out ++ shown (m.img.next f n).1) w'

/-- The whole loop prints what `total` says, if that is the pieces' texts put together. -/
theorem PieceRound.loop {shown : List UInt8 → List UInt8} {Inv : Fd → List UInt8 → World → Prop}
    {body : Buf → Task World (Buf ⊕ Int)} (h : PieceRound m n shown Inv body)
    {total : Fd → List UInt8} (hfd : ∀ f out w, Inv f out w → w.kernel.fdAt fd = f)
    (htotal : ∀ f out w, m.img.Readable f → Inv f out w → total f =
      if (m.img.next f n).1 = [] then []
      else shown (m.img.next f n).1 ++ total (m.img.next f n).2)
    {f : Fd} {out : List UInt8} {w : World} (hf : m.img.Readable f) (hw : Inv f out w)
    (buf : Buf) : (Task.loop body buf).Ensures w fun status w' =>
      status = 0 ∧ ∃ f', m.img.Readable f' ∧ Inv f' (out ++ total f) w' := by
  refine Task.Ensures.loop
    (fun _ w => ∃ f' out', m.img.Readable f' ∧ Inv f' out' w ∧ out' ++ total f' = out ++ total f)
    (fun _ w => m.img.left (w.kernel.fdAt fd)) ?_ ⟨f, out, hf, hw, rfl⟩
  rintro buf w ⟨f, out, hf, hw, hout⟩
  rw [hfd f out w hw]
  refine (h f out w buf hf hw).mono fun r w' hr => ?_
  have hrest := htotal f out w hf hw
  by_cases hend : (m.img.next f n).1 = []
  · rw [if_pos hend] at hr hrest
    obtain ⟨rfl, hinv⟩ := hr
    rw [← hout, hrest, List.append_nil]
    exact ⟨rfl, _, Image.next_readable hf n, hinv⟩
  · rw [if_neg hend] at hr hrest
    obtain ⟨⟨buf', rfl⟩, hinv⟩ := hr
    refine ⟨⟨_, _, Image.next_readable hf n, hinv, ?_⟩, ?_⟩
    · rw [← hout, hrest, List.append_assoc]
    · rw [hfd _ _ _ hinv]
      exact Image.left_next hf hend

end Pieces

/-! ## cat -/

section Cat

variable {m : Host} {w₀ : World} {files : Nat → Fd}

/-- A round prints the next 1024 bytes. -/
theorem catLoop_round (hwf : m.img.WellFormed) {fd : Nat} (hlo : 2 ≤ fd) (hhi : fd < 8)
    (hterm : (files 1).IsTerminal) : PieceRound m 1024 id
      (fun f out w => w.At m w₀ (Function.update files fd f) out) (catLoop m fd) := by
  intro f out w buf hread hworld
  have hat : ∀ f', Function.update files fd f' fd = f' := fun _ => Function.update_self _ _ _
  have hterm' : ∀ f', (Function.update files fd f' 1).IsTerminal := fun f' => by
    rwa [Function.update_of_ne (by omega)]
  unfold catLoop
  refine .bind ((ensures_read hwf hworld hhi (by rwa [hat]) buf (n := 1024)
    fun _ => by decide).mono ?_)
  rintro ⟨cnt, buf'⟩ w' ⟨hcnt, hbytes, _, hworld'⟩
  rw [hat] at hcnt hbytes hworld'
  rw [Function.update_idem] at hworld'
  generalize m.img.next f 1024 = next at hcnt hbytes hworld' ⊢
  dsimp only at hcnt hbytes ⊢
  subst hcnt
  by_cases hend : next.1 = []
  · rw [if_pos (by rw [hend]; rfl)]
    refine .pure ?_
    rw [if_pos hend]
    exact ⟨rfl, hworld'⟩
  · have hpos := List.length_pos_of_ne_nil hend
    rw [if_neg (by omega), if_neg (by omega)]
    refine .bind ((ensures_write hworld' (hterm' _) buf' _).mono ?_)
    rintro cnt w'' ⟨rfl, hworld''⟩
    rw [if_neg (by omega)]
    rw [hbytes.take] at hworld''
    refine .pure ?_
    rw [if_neg hend]
    exact ⟨⟨_, rfl⟩, hworld''⟩

/-- `cat` prints what its argument names, and leaves it open. -/
theorem cat_ensures (hwf : m.img.WellFormed) {a : CString}
    (ha : (w₀.kernel.pcbs (getPcbAddress w₀.kernel)).HoldsArg a.chars)
    (hterm : (w₀.kernel.fdAt 1).IsTerminal)
    (hfree : m.img.catOpens a ≠ none → ∃ d, 2 ≤ d ∧ d < 8 ∧ (w₀.kernel.fdAt d).flags = 0)
    (buf : Buf) :
    (cat m buf).Ensures w₀ fun status w => status = (m.img.catText a).2 ∧
      ∃ files, LeavesOpen (m.img.catOpens a) w₀.kernel.fdAt files ∧
        w.At m w₀ files (m.img.catText a).1 := by
  have hlen : a.chars.length ≤ 128 := ha.fits
  unfold Image.catOpens at hfree
  unfold cat Image.catText Image.catOpens
  refine .bind ((ensures_getargs (World.at_start m w₀) ha buf (n := 1024) (by omega)
    (by decide)).mono ?_)
  rintro r w ⟨hargs, hworld⟩
  by_cases hempty : a.chars = []
  · rw [if_pos hempty] at hargs
    rw [if_pos hempty, if_pos hempty, if_pos (by omega)]
    refine .bind ((ensures_literal hworld hterm (by decide) (by decide)).mono fun _ w' h => ?_)
    exact .pure ⟨rfl, _, rfl, h⟩
  rw [if_neg hempty] at hargs
  rw [if_neg hempty, if_neg hempty, if_neg (by omega)]
  have hname := cstring_spells hargs.2 (by omega)
  cases hopen : m.img.opens a with
  | none =>
    rw [← hname] at hopen
    refine .bind ((ensures_refused hworld hopen).mono ?_)
    rintro _ w ⟨rfl, hworld⟩
    rw [if_pos rfl]
    refine .bind ((ensures_literal hworld hterm (by decide) (by decide)).mono fun _ w' h => ?_)
    exact .pure ⟨rfl, _, rfl, h⟩
  | some f =>
    have hread := (opens_readable hwf hopen).1
    rw [if_neg hempty, hopen] at hfree
    rw [← hname] at hopen
    refine .bind ((ensures_opens hworld hopen (hfree (Option.some_ne_none f))).mono ?_)
    rintro _ w ⟨fd, rfl, hlo, hhi, hfd, hworld⟩
    rw [if_neg (by omega)]
    refine ((catLoop_round hwf hlo hhi hterm).loop
      (fun f _ w h => (h.files fd).trans (Function.update_self _ _ _))
      (fun _ _ _ hf _ => Image.rest_next hf (by decide)) hread hworld _).mono ?_
    rintro status w ⟨rfl, f', hread', hworld⟩
    exact ⟨rfl, _, ⟨fd, f', hlo, hhi, hfd, hread'.opened, rfl⟩, hworld⟩

theorem cat_prints (hwf : m.img.WellFormed) {a : CString}
    (ha : (w₀.kernel.pcbs (getPcbAddress w₀.kernel)).HoldsArg a.chars)
    (hterm : (w₀.kernel.fdAt 1).IsTerminal)
    (hfree : ∃ d, 2 ≤ d ∧ d < 8 ∧ (w₀.kernel.fdAt d).flags = 0) (buf : Buf) :
    Prints m w₀ (cat m buf) (m.img.catText a) :=
  (cat_ensures hwf ha hterm (fun _ => hfree) buf).mono
    fun _ _ ⟨hstatus, files, _, h⟩ => ⟨hstatus, files, h⟩

/-- The base shell, started as "shell shell", reads its own file. -/
def catShell : World := .start (execute dotImage dotShell (Locals.zero ⟨0, 0⟩)
  (some ⟨shellName ++ [0x20] ++ shellName, by decide⟩)).1

theorem cat_prints_catShell :
    Prints (quietHost dotImage) catShell (cat (quietHost dotImage) fun _ => 0)
        (dotImage.catText shellCommand) ∧
      dotImage.catText shellCommand = ([0x7f, 0x45, 0x4c, 0x46], 0) :=
  ⟨cat_prints dotImage_wellFormed ⟨by decide, by decide⟩ ⟨by decide, by decide⟩
    ⟨2, by decide, by decide, by decide⟩ _, by decide⟩

end Cat

/-! ## ls -/

section Ls

variable {m : Host} {w₀ : World} {files : Nat → Fd}

/-- What is left to list, by the next entry. -/
theorem listed_next {img : Image} {f : Fd} (hkind : f.fileOp ≠ .fileOp) (n : Nat)
    (hread : img.Readable f) : img.listed f =
      if (img.next f n).1 = [] then []
      else (img.next f n).1 :: img.listed (img.next f n).2 := by
  have hsame : (img.next f n).2.fileOp = f.fileOp := Image.next_fileOp n
  unfold Image.listed
  rw [hsame]
  obtain ⟨_, ⟨hops, _⟩ | ⟨hops, _⟩ | hops⟩ := hread
  · exact absurd hops hkind
  · rw [if_pos hops, if_pos hops, Image.next_dir hops]
    by_cases hlt : f.pos < img.dirCount
    · rw [if_pos hlt, Image.entries_of_lt hlt]
    · rw [if_neg hlt, Image.entries_of_le (Nat.le_of_not_lt hlt)]
      rfl
  · rw [Image.next_clock hops, if_neg (by rw [hops]; exact FileOps.noConfusion)]
    rfl

theorem lines_listed {img : Image} {f : Fd} (hkind : f.fileOp ≠ .fileOp) (n : Nat)
    (hread : img.Readable f) : lines (img.listed f) =
      if (img.next f n).1 = [] then []
      else (img.next f n).1 ++ [0x0A] ++ lines (img.listed (img.next f n).2) := by
  rw [listed_next hkind n hread]
  split
  · rfl
  · exact List.flatten_cons

/-- "." never opens as a regular file. -/
theorem opens_dot {img : Image} {f : Fd} (h : img.opens dot = some f) : f.fileOp ≠ .fileOp := by
  unfold Image.opens at h
  rw [if_neg (by decide)] at h
  obtain ⟨i, _, h⟩ := Option.bind_eq_some_iff.mp h
  obtain ⟨ops, hops, rfl⟩ := Option.map_eq_some_iff.mp h
  have hfirst : strncmp dot.buf (Buf.ofList (bytes ".")) 1 = 0 := by decide
  unfold openOps at hops
  rw [if_pos (Or.inr hfirst)] at hops
  split at hops
  · obtain rfl := Option.some.inj hops
    exact FileOps.noConfusion
  · obtain rfl := Option.some.inj hops
    exact FileOps.noConfusion

/-- A round prints the next name and a newline. -/
theorem lsLoop_round (hwf : m.img.WellFormed) {fd : Nat} (hlo : 2 ≤ fd) (hhi : fd < 8)
    (hterm : (files 1).IsTerminal) : PieceRound m (sbufSize - 1) (· ++ [0x0A])
      (fun f out w => f.fileOp ≠ .fileOp ∧ w.At m w₀ (Function.update files fd f) out)
      (lsLoop m fd) := by
  rintro f out w buf hread ⟨hkind, hworld⟩
  have hat : ∀ f', Function.update files fd f' fd = f' := fun _ => Function.update_self _ _ _
  have hterm' : ∀ f', (Function.update files fd f' 1).IsTerminal := fun f' => by
    rwa [Function.update_of_ne (by omega)]
  unfold lsLoop
  refine .bind ((ensures_read hwf hworld hhi (by rwa [hat]) buf fun _ => by decide).mono ?_)
  rintro ⟨cnt, buf'⟩ w' ⟨hcnt, hbytes, _, hworld'⟩
  rw [hat] at hcnt hbytes hworld'
  rw [Function.update_idem] at hworld'
  have hkind' : (m.img.next f (sbufSize - 1)).2.fileOp ≠ .fileOp := by
    rwa [Image.next_fileOp]
  generalize m.img.next f (sbufSize - 1) = next at hcnt hbytes hworld' hkind' ⊢
  dsimp only at hcnt hbytes ⊢
  subst hcnt
  by_cases hend : next.1 = []
  · rw [if_pos (by rw [hend]; rfl)]
    refine .pure ?_
    rw [if_pos hend]
    exact ⟨rfl, hkind', hworld'⟩
  · have hpos := List.length_pos_of_ne_nil hend
    rw [if_neg (by omega), if_neg (by omega), Int.toNat_natCast]
    refine .bind ((ensures_write hworld' (hterm' _) _ (next.1.length + 1)).mono ?_)
    rintro cnt w'' ⟨rfl, hworld''⟩
    have htake := (hbytes.concat 0x0A).take
    rw [List.length_append, List.length_singleton] at htake
    rw [htake] at hworld''
    rw [if_neg (by omega)]
    refine .pure ?_
    rw [if_neg hend]
    exact ⟨⟨_, rfl⟩, hkind', hworld''⟩

/-- `ls` prints the names of the directory, a line each, up to the first empty one, and leaves the
    directory open; if it cannot be opened, the error message. -/
theorem ls_ensures (hwf : m.img.WellFormed) (hterm : (w₀.kernel.fdAt 1).IsTerminal)
    (hfree : m.img.opens dot ≠ none → ∃ d, 2 ≤ d ∧ d < 8 ∧ (w₀.kernel.fdAt d).flags = 0)
    (buf : Buf) :
    (ls m buf).Ensures w₀ fun status w => status = m.img.lsText.2 ∧
      ∃ files, LeavesOpen (m.img.opens dot) w₀.kernel.fdAt files ∧
        w.At m w₀ files m.img.lsText.1 := by
  have hdot : 0 ∉ bytes "." := by decide
  have hname : cstring (literal ".") = dot := cstring_spells (Buf.spells_ofList hdot) (by decide)
  unfold ls Image.lsText
  cases hopen : m.img.opens dot with
  | none =>
    rw [← hname] at hopen
    refine .bind ((ensures_refused (World.at_start m w₀) hopen).mono ?_)
    rintro _ w ⟨rfl, hworld⟩
    rw [if_pos rfl]
    refine .bind ((ensures_literal hworld hterm (by decide) (by decide)).mono fun _ w' h => ?_)
    exact .pure ⟨rfl, _, rfl, h⟩
  | some f =>
    have hread := (opens_readable hwf hopen).1
    have hkind : f.fileOp ≠ .fileOp := opens_dot hopen
    rw [hopen] at hfree
    rw [← hname] at hopen
    refine .bind ((ensures_opens (World.at_start m w₀) hopen
      (hfree (Option.some_ne_none f))).mono ?_)
    rintro _ w ⟨fd, rfl, hlo, hhi, hfd, hworld⟩
    rw [if_neg (by omega)]
    refine ((lsLoop_round hwf hlo hhi hterm).loop
      (fun f _ w h => (h.2.files fd).trans (Function.update_self _ _ _))
      (fun _ _ _ hf h => lines_listed h.1 _ hf) hread ⟨hkind, hworld⟩ _).mono ?_
    rintro status w ⟨rfl, f', hread', _, hworld⟩
    exact ⟨rfl, _, ⟨fd, f', hlo, hhi, hfd, hread'.opened, rfl⟩, hworld⟩

theorem ls_prints (hwf : m.img.WellFormed) (hterm : (w₀.kernel.fdAt 1).IsTerminal)
    (hfree : ∃ d, 2 ≤ d ∧ d < 8 ∧ (w₀.kernel.fdAt d).flags = 0) (buf : Buf) :
    Prints m w₀ (ls m buf) m.img.lsText :=
  (ls_ensures hwf hterm (fun _ => hfree) buf).mono
    fun _ _ ⟨hstatus, files, _, h⟩ => ⟨hstatus, files, h⟩

theorem ls_prints_catShell :
    Prints (quietHost dotImage) catShell (ls (quietHost dotImage) fun _ => 0) dotImage.lsText ∧
      dotImage.lsText = (0x2e :: 0x0a :: shellName ++ [0x0a], 0) :=
  ⟨ls_prints dotImage_wellFormed ⟨by decide, by decide⟩ ⟨2, by decide, by decide, by decide⟩ _,
    by decide⟩

end Ls

end User

end LmaOS
