import Mathlib.Data.List.Infix
import LmaOS.User.Programs

/-
  `grep` (ece391grep.c).

  `do_one_file` keeps a window of 1024 bytes of the file in `data`. Lines in it that are complete
  are searched, the start of the next one is moved down and the window filled up behind it. A
  window without a newline is searched as if it were a line.

  * `grepLines s fname text`: the lines of `text` in which `s` occurs, each behind `fname`.
  * `searchLoop_prints`, `doOneFile_prints`: for a text whose lines fit the window, the windows
    together print this.
  * `grep_prints`: so does the whole program, for every file of the directory that is not hidden.

  The first byte of the pattern is compared with its sign, so a pattern that starts with a byte
  from 0x80 on is never found (`matchesAt_negative`); the theorems ask for one below 0x80.
-/
namespace LmaOS

open Util

namespace User

/-- `BUFSIZE`. -/
abbrev bufSize : Nat := 1024

/-! ## The program -/

/-- The window: `data[line_start..last)` is still to be searched. -/
structure Window where
  data : Buf
  last : Nat
  lineStart : Nat

/-- The loop that sets `line_end`. -/
def Window.lineEnd (c : Window) : Nat :=
  c.lineStart +
    firstIdx (fun i => decide (c.data (c.lineStart + i) = 0x0A)) (c.last - c.lineStart)

/-- The condition inside the search loop. `s` is a `const char*`, `data` holds `uint8_t`: a first
    byte from 0x80 on is negative on one side only. -/
def matchesAt (s : Buf) (sLen : Nat) (data : Buf) (check : Nat) : Bool :=
  decide (toInt8 (s 0).toNat = (data check).toNat ∧ ece391Strncmp (data.drop check) s sLen = 0)

section Program

variable (m : Host)

/-- The search of `data[line_start..line_end)`: the line is printed at its first match. -/
def searchLine (s fname : Buf) (sLen : Nat) (data : Buf) (lineStart lineEnd : Nat) :
    Task World Unit :=
  if firstIdx (fun i => matchesAt s sLen data (lineStart + i)) (lineEnd - lineStart) <
      lineEnd - lineStart then do
    ece391Fdputs m 1 fname
    ece391Fdputs m 1 (literal ":")
    ece391Fdputs m 1 (data.drop lineStart)
    ece391Fdputs m 1 (literal "\n")
  else pure ()

/-- One round of the inner loop. It ends with the new `data` and `last`. -/
def searchRound (s fname : Buf) (sLen : Nat) (cnt : Int) (c : Window) :
    Task World (Window ⊕ (Buf × Nat)) :=
  let lineEnd := c.lineEnd
  let data := Function.update c.data lineEnd 0
  if c.data lineEnd ≠ 0x0A ∧ cnt ≠ 0 ∧ c.lineStart ≠ 0 then
    pure (.inr (ece391Strcpy data 0 c.lineStart, c.last - c.lineStart))
  else do
    searchLine m s fname sLen data c.lineStart lineEnd
    let lineStart := lineEnd + 1
    if lineStart ≥ c.last then pure (.inr (data, 0)) else pure (.inl ⟨data, c.last, lineStart⟩)

/-- One round of the outer loop, on `data` and `last`. It ends with -1 for the error return, and
    with 0 at the end of the file. -/
def readRound (s fname : Buf) (sLen : Nat) (fd : Int) (st : Buf × Nat) :
    Task World ((Buf × Nat) ⊕ Int) := do
  let r ← ece391Read m fd (st.1.drop st.2) ((bufSize : Int) - st.2)
  if r.1 = -1 then
    ece391Fdputs m 1 (literal "file read failed\n")
    pure (.inr (-1))
  else
    let data := st.1.patch st.2 r.2
    let st ← Task.loop (searchRound m s fname sLen r.1) ⟨data, (st.2 + r.1).toNat, 0⟩
    if r.1 = 0 then pure (.inr 0) else pure (.inl st)

/-- `do_one_file`; `data` is what its array holds before. -/
def doOneFile (data s fname : Buf) : Task World Int := do
  let sLen := ece391Strlen s
  let fd ← ece391Open m fname
  if fd = -1 then
    ece391Fdputs m 1 (literal "file open failed\n")
    pure (-1)
  else
    let r ← Task.loop (readRound m s fname sLen fd) (data, 0)
    if r = -1 then pure (-1)
    else
      let c ← ece391Close m fd
      if c = -1 then
        ece391Fdputs m 1 (literal "file close failed\n")
        pure (-1)
      else pure 0

/-- The loop of `main`. `stack` is what is left on the stack where `do_one_file` puts its array,
    by the number of calls made so far. -/
def grepLoop (stack : Nat → Buf) (search : Buf) (fd : Int) (buf : Buf) :
    Task World (Buf ⊕ Int) := do
  let r ← ece391Read m fd buf (sbufSize - 1 : Nat)
  if r.1 = 0 then pure (.inr 0)
  else if r.1 = -1 then
    ece391Fdputs m 1 (literal "directory entry read failed\n")
    pure (.inr 3)
  else if r.2 0 = 0x2E then pure (.inl r.2)
  else
    let buf := Function.update r.2 r.1.toNat 0
    let data ← Task.of fun w => some (stack w.calls, w)
    let status ← doOneFile m data search buf
    if status ≠ 0 then pure (.inr 3) else pure (.inl buf)

def grep (stack : Nat → Buf) (buf search : Buf) : Task World Int := do
  let a ← ece391Getargs m search bufSize
  if a.1 ≠ 0 then
    ece391Fdputs m 1 (literal "could not read argument\n")
    pure 3
  else
    let fd ← ece391Open m (literal ".")
    if fd = -1 then
      ece391Fdputs m 1 (literal "directory open failed\n")
      pure 2
    else Task.loop (grepLoop m stack a.2 fd) buf

end Program

end User

/-! ## What it is for -/

/-- What a line in which `s` occurs prints. -/
def hit (s fname line : List UInt8) : List UInt8 :=
  if s <:+: line then fname ++ bytes ":" ++ line ++ bytes "\n" else []

/-- The first byte of a pattern is the same as a `char` and as a `uint8_t`. -/
def StartsAscii (s : List UInt8) : Prop := (s.getD 0 0).toNat < 0x80

instance (s : List UInt8) : Decidable (StartsAscii s) := inferInstanceAs (Decidable (_ < _))

def grepLines (s fname text : List UInt8) : List UInt8 :=
  ((text.splitOn 0x0A).map (hit s fname)).flatten

/-- Every line of the text fits the window. -/
def ShortLines (text : List UInt8) : Prop := ∀ line ∈ text.splitOn 0x0A, line.length ≤ User.bufSize

section Lines

variable {s fname line rest text : List UInt8}

theorem grepLines_cons (h : 0x0A ∉ line) : grepLines s fname (line ++ 0x0A :: rest) =
    hit s fname line ++ grepLines s fname rest := by
  unfold grepLines
  rw [List.splitOn_append_cons_self_of_not_mem h]
  exact List.flatten_cons

theorem grepLines_last (h : 0x0A ∉ line) : grepLines s fname line = hit s fname line := by
  unfold grepLines
  rw [List.splitOn_eq_singleton h]
  exact (List.flatten_cons).trans (List.append_nil _)

theorem hit_nil (hs : s ≠ []) : hit s fname [] = [] := if_neg fun h => hs (List.infix_nil.mp h)

theorem shortLines_cons (h : 0x0A ∉ line) :
    ShortLines (line ++ 0x0A :: rest) ↔ line.length ≤ User.bufSize ∧ ShortLines rest := by
  unfold ShortLines
  rw [List.splitOn_append_cons_self_of_not_mem h, List.forall_mem_cons]

theorem shortLines_last (h : 0x0A ∉ line) : ShortLines line ↔ line.length ≤ User.bufSize := by
  unfold ShortLines
  rw [List.splitOn_eq_singleton h, List.forall_mem_singleton]

/-- A text that starts like a line of the full length ends there or goes on with a newline. -/
theorem full_line (h : ShortLines (line ++ rest)) (hline : 0x0A ∉ line)
    (hlen : line.length = User.bufSize) : rest = [] ∨ ∃ rest', rest = 0x0A :: rest' := by
  obtain ⟨more, hmore, rfl | ⟨rest', rfl⟩⟩ := exists_line rest
  · have hlong : 0x0A ∉ line ++ rest := by rw [List.mem_append]; exact not_or.mpr ⟨hline, hmore⟩
    have hfits := (shortLines_last hlong).mp h
    rw [List.length_append] at hfits
    exact Or.inl (List.length_eq_zero_iff.mp (by omega))
  · have hlong : 0x0A ∉ line ++ more := by rw [List.mem_append]; exact not_or.mpr ⟨hline, hmore⟩
    rw [← List.append_assoc] at h
    have hfits := ((shortLines_cons hlong).mp h).1
    rw [List.length_append] at hfits
    obtain rfl := List.length_eq_zero_iff.mp (show more.length = 0 by omega)
    exact Or.inr ⟨rest', rfl⟩

/-- A line at the end of a text, or before a newline, can be searched on its own. -/
theorem grepLines_split (fname : List UInt8) (hs : s ≠ []) (hline : 0x0A ∉ line)
    (h : ShortLines (line ++ rest)) (hrest : rest = [] ∨ ∃ rest', rest = 0x0A :: rest') :
    grepLines s fname (line ++ rest) = hit s fname line ++ grepLines s fname rest ∧
      ShortLines rest := by
  obtain rfl | ⟨rest', rfl⟩ := hrest
  · refine ⟨?_, (shortLines_last List.not_mem_nil).mpr (Nat.zero_le _)⟩
    rw [List.append_nil, grepLines_last hline, grepLines_last List.not_mem_nil, hit_nil hs,
      List.append_nil]
  · have hempty : ∀ rest, grepLines s fname (0x0A :: rest) = grepLines s fname rest := by
      intro rest
      have hcons : grepLines s fname ([] ++ 0x0A :: rest) =
          hit s fname [] ++ grepLines s fname rest := grepLines_cons List.not_mem_nil
      rwa [hit_nil hs, List.nil_append, List.nil_append] at hcons
    refine ⟨by rw [grepLines_cons hline, hempty], ?_⟩
    have hshort : ShortLines ([] ++ 0x0A :: rest') :=
      (shortLines_cons List.not_mem_nil).mpr ⟨Nat.zero_le _, ((shortLines_cons hline).mp h).2⟩
    exact hshort

end Lines

namespace User

/-! ## The search of a line -/

section Search

variable {s line : List UInt8} {sb b : Buf}

theorem matchesAt_iff (hs : sb.Spells s) (hne : s ≠ []) (hascii : StartsAscii s) {check : Nat} :
    matchesAt sb s.length b check = true ↔ (b.drop check).StartsWith s := by
  unfold matchesAt
  rw [decide_eq_true_eq, ece391Strncmp_eq_zero_iff hs]
  refine and_iff_right_of_imp fun h => ?_
  have hpos := List.length_pos_of_ne_nil hne
  have hfirst : b check = s.getD 0 0 := h 0 hpos
  unfold StartsAscii at hascii
  rw [hs.startsWith 0 hpos, hfirst]
  exact toInt8_of_range (by omega) (by omega)

theorem matchesAt_negative (hfirst : 0x80 ≤ (sb 0).toNat) (sLen check : Nat) :
    matchesAt sb sLen b check = false := by
  unfold matchesAt
  refine decide_eq_false fun h => ?_
  have hbyte := (sb 0).toNat_lt
  have hequal := h.1
  unfold toInt8 at hequal
  omega

/-- A string that starts inside another one, without a NUL, ends inside it. -/
theorem infix_of_startsWith (hs : 0 ∉ s) (hline : b.Spells line) {i : Nat} (hi : i ≤ line.length)
    (h : (b.drop i).StartsWith s) : s <:+: line := by
  have hlen : i + s.length ≤ line.length := by
    by_contra hlong
    have hin : line.length - i < s.length := by omega
    have hzero : s.getD (line.length - i) 0 = 0 := by
      rw [← h _ hin, Buf.drop, Nat.add_sub_cancel' hi]
      exact hline.nul
    rw [List.getD_eq_getElem s 0 hin] at hzero
    exact hs (hzero ▸ List.getElem_mem hin)
  have hpart : s = (line.drop i).take s.length := by
    refine List.ext_getElem ?_ fun j hj _ => ?_
    · rw [List.length_take, List.length_drop]
      omega
    · rw [List.getElem_take, List.getElem_drop]
      have hbyte := h j hj
      rw [Buf.drop, hline.startsWith _ (by omega), List.getD_eq_getElem line 0 (by omega),
        List.getD_eq_getElem s 0 hj] at hbyte
      exact hbyte.symm
  rw [hpart]
  exact (List.take_prefix _ _).isInfix.trans (List.drop_suffix _ _).isInfix

/-- Inside a line that is closed with a NUL, the search finds exactly the lines with a match. -/
theorem match_found_iff (hs : sb.Spells s) (hne : s ≠ []) (hascii : StartsAscii s)
    {lineStart : Nat} (hline : (b.drop lineStart).Spells line) :
    firstIdx (fun i => matchesAt sb s.length b (lineStart + i)) line.length < line.length ↔
      s <:+: line := by
  constructor
  · intro hlt
    have hfound : matchesAt sb s.length b (lineStart + _) = true :=
      firstIdx_spec (p := fun i => matchesAt sb s.length b (lineStart + i)) hlt
    rw [matchesAt_iff hs hne hascii, ← Buf.drop_drop] at hfound
    exact infix_of_startsWith hs.1 hline (Nat.le_of_lt hlt) hfound
  · rintro ⟨before, after, rfl⟩
    by_contra hnone
    have hpos := List.length_pos_of_ne_nil hne
    have hin : before.length < (before ++ s ++ after).length := by
      rw [List.length_append, List.length_append]
      omega
    have hmiss := firstIdx_min (p := fun i => matchesAt sb s.length b (lineStart + i))
      (Nat.lt_of_lt_of_le hin (Nat.le_of_not_lt hnone))
    have hstarts : (b.drop (lineStart + before.length)).StartsWith s := by
      rw [← Buf.drop_drop]
      have hall := hline.startsWith
      rw [List.append_assoc] at hall
      exact (Buf.startsWith_append.mp (Buf.startsWith_append.mp hall).2).1
    exact absurd ((matchesAt_iff hs hne hascii).mpr hstarts)
      (by rw [hmiss]; exact Bool.false_ne_true)

end Search

/-! ## The window -/

/-- `text` is what the window still has to search. -/
structure Window.Holds (c : Window) (text : List UInt8) : Prop where
  bytes : (c.data.drop c.lineStart).StartsWith text
  length : c.lineStart + text.length = c.last
  fits : c.last ≤ bufSize
  noNul : 0 ∉ text
  /-- The byte behind the window ends no line. -/
  guard : c.data bufSize ≠ 0x0A

section Window

variable {c : Window} {text line rest : List UInt8}

theorem Window.Holds.byte (h : c.Holds text) {i : Nat} (hi : i < text.length) :
    c.data (c.lineStart + i) = text[i] := by
  rw [← List.getD_eq_getElem text 0 hi]
  exact h.bytes i hi

/-- The inner loop stops at the newline, or at the end of the window. -/
theorem Window.Holds.lineEnd (h : c.Holds text) (hline : 0x0A ∉ line)
    (htext : text = line ∨ ∃ rest, text = line ++ 0x0A :: rest) :
    c.lineEnd = c.lineStart + line.length := by
  have hlen := h.length
  have hbefore : ∀ j, j < line.length → decide (c.data (c.lineStart + j) = 0x0A) = false := by
    intro j hj
    have hj' : j < text.length := by
      rcases htext with rfl | ⟨rest, rfl⟩
      · exact hj
      · rw [List.length_append]
        omega
    have hbyte : text[j] = (line)[j] := by
      rcases htext with rfl | ⟨rest, rfl⟩
      · rfl
      · exact List.getElem_append_left hj
    rw [h.byte hj', hbyte]
    exact decide_eq_false fun he => hline (he ▸ List.getElem_mem hj)
  unfold Window.lineEnd
  rcases htext with rfl | ⟨rest, rfl⟩
  · rw [show c.last - c.lineStart = text.length by omega]
    exact congrArg (c.lineStart + ·) (firstIdx_eq_bound hbefore)
  · have hin : line.length < (line ++ 0x0A :: rest).length := by
      rw [List.length_append, List.length_cons]
      omega
    rw [show c.last - c.lineStart = (line ++ 0x0A :: rest).length by omega]
    refine congrArg (c.lineStart + ·) (firstIdx_eq hin ?_ hbefore)
    rw [h.byte hin, List.getElem_append_right (Nat.le_refl _)]
    exact decide_eq_true (by simp)

/-- The line, closed with a NUL. -/
theorem Window.Holds.closed (h : c.Holds text) (hline : 0x0A ∉ line)
    (htext : text = line ∨ ∃ rest, text = line ++ 0x0A :: rest) :
    (Buf.drop (Function.update c.data c.lineEnd 0) c.lineStart).Spells line := by
  have hstart : line <+: text := by
    rcases htext with rfl | ⟨rest, rfl⟩
    · exact List.prefix_refl _
    · exact List.prefix_append _ _
  refine ⟨fun hmem => h.noNul (hstart.subset hmem), ?_⟩
  rw [h.lineEnd hline htext]
  obtain ⟨more, rfl⟩ := hstart
  refine Buf.startsWith_append.mpr
    ⟨fun i hi => ?_, Buf.startsWith_cons.mpr ⟨?_, Buf.startsWith_nil⟩⟩
  · have hbyte := (Buf.startsWith_append.mp h.bytes).1 i hi
    rw [← hbyte]
    exact Function.update_of_ne (by omega) _ _
  · exact Function.update_self _ _ _

/-- The NUL may be the byte behind the window. -/
theorem Window.Holds.guarded (h : c.Holds text) :
    Function.update c.data c.lineEnd 0 bufSize ≠ 0x0A := by
  rw [Function.update_apply]
  split
  · decide
  · exact h.guard

/-- The inner loop stopped at the end of the window, not at a newline. -/
theorem Window.Holds.eq_line (h : c.Holds text) (hline : 0x0A ∉ line)
    (htext : text = line ∨ ∃ rest, text = line ++ 0x0A :: rest)
    (hbyte : c.data c.lineEnd ≠ 0x0A) : text = line := by
  refine htext.resolve_right ?_
  rintro ⟨rest, rfl⟩
  refine hbyte ?_
  have hin : line.length < (line ++ 0x0A :: rest).length := by
    rw [List.length_append, List.length_cons]
    omega
  rw [h.lineEnd hline htext, h.byte hin, List.getElem_append_right (Nat.le_refl _)]
  simp

theorem Window.Holds.line_short (h : c.Holds text)
    (htext : text = line ∨ ∃ rest, text = line ++ 0x0A :: rest) : line.length ≤ bufSize := by
  have hlen := h.length
  have hfits := h.fits
  rcases htext with rfl | ⟨rest, rfl⟩
  · omega
  · rw [List.length_append] at hlen
    omega

/-- The window behind a line. -/
theorem Window.Holds.next (h : c.Holds (line ++ 0x0A :: rest)) (hline : 0x0A ∉ line) :
    Window.Holds ⟨Function.update c.data c.lineEnd 0, c.last, c.lineEnd + 1⟩ rest := by
  have hlen := h.length
  rw [List.length_append, List.length_cons] at hlen
  have hend := h.lineEnd hline (Or.inr ⟨rest, rfl⟩)
  refine ⟨?_, show c.lineEnd + 1 + rest.length = c.last by omega, h.fits, fun hmem => ?_,
    h.guarded⟩
  · have hbytes := (Buf.startsWith_cons.mp (Buf.startsWith_append.mp h.bytes).2).2
    rw [Buf.drop_drop, Buf.drop_drop] at hbytes
    dsimp only
    rwa [Buf.drop_update (by omega), hend]
  · exact h.noNul (List.mem_append_right _ (List.mem_cons_of_mem _ hmem))

end Window

/-! ## The loops -/

section Loops

variable {m : Host} {w₀ w : World} {files : Nat → Fd} {out : List UInt8}
  {s fname : List UInt8} {sb fb : Buf}

/-- What `do_one_file` is called with: both strings are short, and the one to look for is not
    empty and starts with a byte below 0x80. -/
structure Searches (sb fb : Buf) (s fname : List UInt8) : Prop where
  pattern : sb.Spells s
  name : fb.Spells fname
  nonempty : s ≠ []
  ascii : StartsAscii s
  short : fname.length ≤ filenameLen

/-- The search of one line prints it if `s` occurs in it. -/
theorem searchLine_prints (hq : Searches sb fb s fname) (hworld : w.At m w₀ files out)
    (hterm : (files 1).IsTerminal) {data : Buf} {lineStart : Nat} {line : List UInt8}
    (hline : (data.drop lineStart).Spells line) (hlen : line.length ≤ bufSize) :
    (searchLine m sb fb s.length data lineStart (lineStart + line.length)).Ensures w
      fun _ w' => w'.At m w₀ files (out ++ hit s fname line) := by
  have hshort : fname.length ≤ 32 := hq.short
  have hlen' : line.length ≤ 1024 := hlen
  unfold searchLine hit
  rw [Nat.add_sub_cancel_left]
  by_cases hfound : s <:+: line
  · rw [if_pos ((match_found_iff hq.pattern hq.nonempty hq.ascii hline).mpr hfound), if_pos hfound]
    refine .bind ((ensures_fdputs hworld hterm hq.name (by omega)).mono fun _ w hw => ?_)
    refine .bind ((ensures_literal hw hterm (s := ":") (by decide) (by decide)).mono
      fun _ w hw => ?_)
    refine .bind ((ensures_fdputs hw hterm hline (by omega)).mono fun _ w hw => ?_)
    refine (ensures_literal hw hterm (s := "\n") (by decide) (by decide)).mono fun _ w hw => ?_
    simp only [List.append_assoc] at hw ⊢
    exact hw
  · rw [if_neg ((match_found_iff hq.pattern hq.nonempty hq.ascii hline).not.mpr hfound),
      if_neg hfound]
    refine .pure ?_
    rwa [List.append_nil]

/-- Between the rounds of the inner loop: what was printed, with the lines still to come, in the
    window and in the `rest` of the file, is `total`. A window that is not full is the last one. -/
structure Searching (m : Host) (w₀ : World) (files : Nat → Fd) (s fname total rest : List UInt8)
    (c : Window) (text : List UInt8) (out : List UInt8) (w : World) : Prop where
  world : w.At m w₀ files out
  window : c.Holds text
  start : c.lineStart = 0 ∨ text ≠ []
  short : ShortLines (text ++ rest)
  last : c.last < bufSize → rest = []
  total : out ++ grepLines s fname (text ++ rest) = total

/-- What the inner loop leaves in `data` and `last`: the start of a line, moved down. -/
structure Pending (data : Buf) (last : Nat) (pending rest : List UInt8) : Prop where
  bytes : data.StartsWith pending
  length : pending.length = last
  room : last < bufSize
  oneLine : 0x0A ∉ pending
  noNul : 0 ∉ pending
  guard : data bufSize ≠ 0x0A
  short : ShortLines (pending ++ rest)

/-- A line that is not complete, behind other lines of the window, is moved down. -/
theorem Window.Holds.moved {c : Window} {text rest : List UInt8} (h : c.Holds text)
    (hline : 0x0A ∉ text) (hstart : c.lineStart ≠ 0) (hshort : ShortLines (text ++ rest)) :
    Pending (ece391Strcpy (Function.update c.data c.lineEnd 0) 0 c.lineStart)
      (c.last - c.lineStart) text rest := by
  have hlen := h.length
  have hfits : c.last ≤ 1024 := h.fits
  have hclosed := h.closed hline (Or.inl rfl)
  rw [ece391Strcpy_down (Nat.pos_of_ne_zero hstart) hclosed (by omega),
    h.lineEnd hline (Or.inl rfl)]
  refine ⟨?_, by omega, show c.last - c.lineStart < 1024 by omega, hline, h.noNul, ?_, hshort⟩
  · have hwritten : ∀ b : Buf, ((b.write 0 (text ++ [0])).drop 0).StartsWith (text ++ [0]) :=
      fun b => Buf.write_startsWith
    have hbytes := hwritten (Function.update c.data (c.lineStart + text.length) 0)
    rw [Buf.drop_zero] at hbytes
    exact (Buf.startsWith_append.mp hbytes).1
  · have houtside : ¬ (0 ≤ bufSize ∧ bufSize < 0 + (text ++ [0]).length) := by
      rw [List.length_append, List.length_singleton]
      show ¬ (0 ≤ 1024 ∧ 1024 < 0 + (text.length + 1))
      omega
    unfold Buf.write
    rw [if_neg houtside, ← h.lineEnd hline (Or.inl rfl)]
    exact h.guarded

/-- Nothing of a line is left. -/
theorem Pending.empty {data : Buf} {rest : List UInt8} (hguard : data bufSize ≠ 0x0A)
    (hshort : ShortLines rest) : Pending data 0 [] rest :=
  ⟨Buf.startsWith_nil, rfl, by decide, List.not_mem_nil, List.not_mem_nil, hguard, hshort⟩

/-- A line without a newline that is searched all the same: the file ends behind it, or goes on
    with a newline. -/
theorem Searching.last_line {total rest : List UInt8} {cnt : Int} (hcnt : cnt = 0 → rest = [])
    {c : Window} {text : List UInt8} (h : Searching m w₀ files s fname total rest c text out w)
    (hline : 0x0A ∉ text)
    (hsearched : ¬ (c.data c.lineEnd ≠ 0x0A ∧ cnt ≠ 0 ∧ c.lineStart ≠ 0)) :
    rest = [] ∨ ∃ rest', rest = 0x0A :: rest' := by
  have hlen := h.window.length
  by_cases hpart : c.last < bufSize
  · exact Or.inl (h.last hpart)
  have hlast : c.last = bufSize := Nat.le_antisymm h.window.fits (Nat.le_of_not_lt hpart)
  by_cases hzero : cnt = 0
  · exact Or.inl (hcnt hzero)
  have hstart : c.lineStart = 0 := by
    by_contra hne
    refine hsearched ⟨?_, hzero, hne⟩
    rw [h.window.lineEnd hline (Or.inl rfl), hlen, hlast]
    exact h.window.guard
  exact full_line h.short hline (by omega)

/-- What is still to come behind a line. -/
theorem Searching.behind {total rest line more : List UInt8} {c : Window}
    (h : Searching m w₀ files s fname total rest c (line ++ 0x0A :: more) out w)
    (hline : 0x0A ∉ line) : ShortLines (more ++ rest) ∧
      out ++ hit s fname line ++ grepLines s fname (more ++ rest) = total := by
  have htotal := h.total
  rw [List.append_assoc, List.cons_append, grepLines_cons hline, ← List.append_assoc] at htotal
  have hshort := h.short
  rw [List.append_assoc, List.cons_append, shortLines_cons hline] at hshort
  exact ⟨hshort.2, htotal⟩

/-- A round of the inner loop prints one line, or moves the start of a line down. -/
theorem searchRound_prints (hq : Searches sb fb s fname) (hterm : (files 1).IsTerminal)
    {total rest : List UInt8} {cnt : Int} (hcnt : cnt = 0 → rest = []) {c : Window}
    {text : List UInt8} (h : Searching m w₀ files s fname total rest c text out w) :
    (searchRound m sb fb s.length cnt c).Ensures w fun r w' =>
      match r with
      | .inl c' => (∃ text' out', Searching m w₀ files s fname total rest c' text' out' w') ∧
        c'.last - c'.lineStart < c.last - c.lineStart
      | .inr (data, last) => ∃ pending out', w'.At m w₀ files out' ∧
        Pending data last pending rest ∧ (cnt = 0 → pending = []) ∧
        out' ++ grepLines s fname (pending ++ rest) = total := by
  obtain ⟨line, hline, htext⟩ := exists_line text
  have hend := h.window.lineEnd hline htext
  have hlen := h.window.length
  unfold searchRound
  dsimp only
  by_cases hmove : c.data c.lineEnd ≠ 0x0A ∧ cnt ≠ 0 ∧ c.lineStart ≠ 0
  · rw [if_pos hmove]
    obtain rfl := h.window.eq_line hline htext hmove.1
    exact .pure ⟨text, out, h.world, h.window.moved hline hmove.2.2 h.short,
      fun hzero => absurd hzero hmove.2.1, h.total⟩
  rw [if_neg hmove]
  have hsearch := searchLine_prints hq h.world hterm (h.window.closed hline htext)
    (h.window.line_short htext)
  rw [← hend] at hsearch
  refine .bind (hsearch.mono fun _ w' hw => ?_)
  rcases htext with rfl | ⟨more, rfl⟩
  · -- no newline, but the line is searched
    obtain ⟨hsplit, hshort⟩ := grepLines_split fname hq.nonempty hline h.short
      (h.last_line hcnt hline hmove)
    have htotal := h.total
    rw [if_pos (by omega)]
    refine .pure ⟨[], _, hw, .empty h.window.guarded hshort, fun _ => rfl, ?_⟩
    rw [← htotal, hsplit, List.append_assoc]
    rfl
  · obtain ⟨hshort, htotal⟩ := h.behind hline
    rw [List.length_append, List.length_cons] at hlen
    by_cases hdone : c.lineEnd + 1 ≥ c.last
    · obtain rfl := List.length_eq_zero_iff.mp (show more.length = 0 by omega)
      rw [if_pos hdone]
      exact .pure ⟨[], _, hw, .empty h.window.guarded hshort, fun _ => rfl, htotal⟩
    · rw [if_neg hdone]
      have hmore : more ≠ [] := List.length_pos_iff.mp (by omega)
      exact .pure ⟨⟨more, _, hw, h.window.next hline, Or.inr hmore, hshort, h.last, htotal⟩,
        show c.last - (c.lineEnd + 1) < c.last - c.lineStart by omega⟩

/-- The inner loop prints the lines of the window that are complete. -/
theorem searchLoop_prints (hq : Searches sb fb s fname) (hterm : (files 1).IsTerminal)
    {total rest : List UInt8} {cnt : Int} (hcnt : cnt = 0 → rest = []) {c : Window}
    {text : List UInt8} (h : Searching m w₀ files s fname total rest c text out w) :
    (Task.loop (searchRound m sb fb s.length cnt) c).Ensures w fun st w' =>
      ∃ pending out', w'.At m w₀ files out' ∧ Pending st.1 st.2 pending rest ∧
        (cnt = 0 → pending = []) ∧ out' ++ grepLines s fname (pending ++ rest) = total := by
  refine Task.Ensures.loop
    (fun c w => ∃ text out, Searching m w₀ files s fname total rest c text out w)
    (fun c _ => c.last - c.lineStart) ?_ ⟨text, out, h⟩
  rintro c w ⟨text, out, h⟩
  refine (searchRound_prints hq hterm hcnt h).mono fun r w' hr => ?_
  cases r with
  | inl c' => exact hr
  | inr st => exact hr

/-- The window, filled up behind the start of a line. -/
theorem Pending.filled {data buf : Buf} {last : Nat} {pending piece rest : List UInt8}
    (h : Pending data last pending rest) (hbytes : buf.StartsWith piece)
    (hfits : last + piece.length ≤ bufSize) (hframe : SameFrom piece.length (data.drop last) buf)
    (hnul : 0 ∉ piece) :
    Window.Holds ⟨data.patch last buf, last + piece.length, 0⟩ (pending ++ piece) := by
  have hlength := h.length
  have hfits' : last + piece.length ≤ 1024 := hfits
  refine ⟨?_, ?_, hfits, ?_, ?_⟩
  · rw [Buf.drop_zero, ← hlength]
    exact Buf.patch_startsWith h.bytes hbytes
  · rw [List.length_append, hlength]
    exact Nat.zero_add _
  · rw [List.mem_append]
    exact not_or.mpr ⟨h.noNul, hnul⟩
  · have hsame : data.patch last buf bufSize = data bufSize := by
      unfold Buf.patch
      rw [if_neg (show ¬ 1024 < last by omega),
        hframe _ (show piece.length ≤ 1024 - last by omega)]
      show data (last + (1024 - last)) = _
      rw [Nat.add_sub_cancel' (by omega)]
    show data.patch last buf bufSize ≠ 0x0A
    rw [hsame]
    exact h.guard

/-- Between the rounds of the outer loop: the window holds the start of a line, and the rest of
    the file is still to be read. -/
structure Filling (m : Host) (w₀ : World) (files : Nat → Fd) (fd : Nat)
    (s fname total : List UInt8) (f : Fd) (data : Buf) (last : Nat) (pending out : List UInt8)
    (w : World) : Prop where
  world : w.At m w₀ (Function.update files fd f) out
  readable : m.img.Readable f
  notDir : f.fileOp ≠ .dirOp
  window : Pending data last pending (m.img.rest f)
  noNul : 0 ∉ m.img.rest f
  total : out ++ grepLines s fname (pending ++ m.img.rest f) = total

/-- The next piece of the file is put behind the start of the line. -/
theorem Filling.searching {fd : Nat} {total : List UInt8} {f f' : Fd} {data buf : Buf} {last : Nat}
    {pending piece : List UInt8} {w' : World}
    (h : Filling m w₀ files fd s fname total f data last pending out w)
    (hnext : m.img.next f (1024 - last) = (piece, f')) (hbytes : buf.StartsWith piece)
    (hframe : SameFrom piece.length (data.drop last) buf)
    (hworld : w'.At m w₀ (Function.update files fd f') out) :
    Searching m w₀ (Function.update files fd f') s fname total (m.img.rest f')
        ⟨data.patch last buf, last + piece.length, 0⟩ (pending ++ piece) out w' ∧
      (piece = [] → m.img.rest f' = []) ∧ 0 ∉ m.img.rest f' := by
  have hroom : last < 1024 := h.window.room
  have hcount : (m.img.next f (1024 - last)).1.length ≤ 1024 - last :=
    Image.next_length_le h.notDir h.readable
  have hshort := Image.rest_short (n := 1024 - last) h.notDir h.readable
  have hrest := Image.rest_eq (n := 1024 - last) h.notDir h.readable (by omega)
  rw [hnext] at hcount hshort hrest
  dsimp only at hcount hshort hrest
  have hnul := h.noNul
  have hlines := h.window.short
  have htotal := h.total
  rw [hrest] at hnul hlines htotal
  rw [← List.append_assoc] at hlines htotal
  have hfull : last + piece.length < bufSize → m.img.rest f' = [] := fun hpart => by
    have hpart : last + piece.length < 1024 := hpart
    exact hshort (by omega)
  have hfilled := h.window.filled hbytes (show last + piece.length ≤ 1024 by omega) hframe
    fun hmem => hnul (List.mem_append_left _ hmem)
  refine ⟨⟨hworld, hfilled, Or.inl rfl, hlines, hfull, htotal⟩, ?_,
    fun hmem => hnul (List.mem_append_right _ hmem)⟩
  rintro rfl
  exact hshort (show 0 < 1024 - last by omega)

/-- A round of the outer loop fills the window up and prints the lines that are complete. -/
theorem readRound_prints (hwf : m.img.WellFormed) (hq : Searches sb fb s fname) {fd : Nat}
    (hlo : 2 ≤ fd) (hhi : fd < 8) (hterm : (files 1).IsTerminal) {total : List UInt8} {f : Fd}
    {data : Buf} {last : Nat} {pending : List UInt8}
    (h : Filling m w₀ files fd s fname total f data last pending out w) :
    (readRound m sb fb s.length fd (data, last)).Ensures w fun r w' =>
      match r with
      | .inl (data', last') => (∃ f' pending' out',
          Filling m w₀ files fd s fname total f' data' last' pending' out' w') ∧
        m.img.left (w'.kernel.fdAt fd) < m.img.left (w.kernel.fdAt fd)
      | .inr status => status = 0 ∧
        ∃ f', f'.flags = 1 ∧ w'.At m w₀ (Function.update files fd f') total := by
  have hroom : last < 1024 := h.window.room
  have hat : Function.update files fd f fd = f := Function.update_self _ _ _
  have hasked : ((bufSize : Nat) : Int) - last = ((1024 - last : Nat) : Int) := by
    show ((1024 : Nat) : Int) - last = _
    omega
  unfold readRound
  dsimp only
  rw [hasked]
  refine .bind ((ensures_read hwf h.world hhi (by rw [hat]; exact h.readable) _
    fun hdir => absurd (by rwa [hat] at hdir) h.notDir).mono ?_)
  rintro ⟨cnt, buf⟩ w' hread
  rw [hat, Function.update_idem] at hread
  obtain ⟨hcnt, hbytes, hframe, hworld⟩ := hread
  dsimp only at hcnt hbytes hframe ⊢
  subst hcnt
  have hless : (m.img.next f (1024 - last)).1 ≠ [] →
      m.img.left (m.img.next f (1024 - last)).2 < m.img.left f := Image.left_next h.readable
  have hread' := Image.next_readable h.readable (1024 - last)
  have hdir' : (m.img.next f (1024 - last)).2.fileOp ≠ .dirOp := by
    rw [Image.next_fileOp]
    exact h.notDir
  cases hnext : m.img.next f (1024 - last) with
  | mk piece f' =>
  rw [hnext] at hbytes hframe hworld hless hread' hdir'
  dsimp only at hbytes hframe hworld hless hread' hdir' ⊢
  obtain ⟨hsearching, hempty, hnul⟩ := h.searching hnext hbytes (hframe h.notDir) hworld
  have hterm' : (Function.update files fd f' 1).IsTerminal := by
    rwa [Function.update_of_ne (by omega)]
  have hzero : (piece.length : Int) = 0 → m.img.rest f' = [] := fun hzero =>
    hempty (List.eq_nil_of_length_eq_zero (by omega))
  rw [show ((last : Int) + piece.length).toNat = last + piece.length by omega,
    if_neg (by omega)]
  refine .bind ((searchLoop_prints hq hterm' hzero hsearching).mono ?_)
  rintro ⟨data', last'⟩ w'' ⟨pending', out', hworld', hpending, hdone, htotal'⟩
  by_cases hend : (piece.length : Int) = 0
  · rw [if_pos hend]
    refine .pure ⟨rfl, f', hread'.opened, ?_⟩
    rw [hdone hend, hzero hend, List.append_nil, grepLines_last List.not_mem_nil,
      hit_nil hq.nonempty, List.append_nil] at htotal'
    rwa [← htotal']
  · rw [if_neg hend]
    refine .pure ⟨⟨f', pending', out', hworld', hread', hdir', hpending, hnul, htotal'⟩, ?_⟩
    rw [hworld'.files, h.world.files, hat, Function.update_self]
    refine hless ?_
    rintro rfl
    exact hend rfl

/-- `do_one_file` prints the lines of the file in which the string occurs, and closes it. -/
theorem doOneFile_prints (hwf : m.img.WellFormed) (hq : Searches sb fb s fname)
    (hs : s.length < 4294967296) (hworld : w.At m w₀ files out) (hterm : (files 1).IsTerminal)
    (hfree : ∃ d, 2 ≤ d ∧ d < 8 ∧ (files d).flags = 0) {f : Fd}
    (hopen : m.img.opens (cstring fb) = some f) (hdir : f.fileOp ≠ .dirOp)
    (hnul : 0 ∉ m.img.rest f) (hshort : ShortLines (m.img.rest f)) {data : Buf}
    (hguard : data bufSize ≠ 0x0A) :
    (doOneFile m data sb fb).Ensures w fun r w' => r = 0 ∧ ∃ (fd : Nat) (f' : Fd), 2 ≤ fd ∧
      fd < 8 ∧ (files fd).flags ≠ 1 ∧ f'.flags = 0 ∧
        w'.At m w₀ (Function.update files fd f') (out ++ grepLines s fname (m.img.rest f)) := by
  have hread := (opens_readable hwf hopen).1
  have hlen : ece391Strlen sb = s.length := strlen_spells hq.pattern hs
  unfold doOneFile
  rw [hlen]
  refine .bind ((ensures_opens hworld hopen hfree).mono ?_)
  rintro _ w ⟨fd, rfl, hlo, hhi, hfd, hworld⟩
  rw [if_neg (by omega)]
  have hstart : Filling m w₀ files fd s fname (out ++ grepLines s fname (m.img.rest f)) f data 0 []
      out w :=
    ⟨hworld, hread, hdir, .empty hguard hshort, hnul, rfl⟩
  refine .bind ((Task.Ensures.loop
    (fun (st : Buf × Nat) w => ∃ f' pending out', Filling m w₀ files fd s fname
      (out ++ grepLines s fname (m.img.rest f)) f' st.1 st.2 pending out' w)
    (fun _ w => m.img.left (w.kernel.fdAt fd))
    (Q := fun r w' => r = 0 ∧ ∃ f', f'.flags = 1 ∧ w'.At m w₀ (Function.update files fd f')
      (out ++ grepLines s fname (m.img.rest f))) ?_ ⟨f, [], out, hstart⟩).mono ?_)
  · rintro ⟨data, last⟩ w ⟨f', pending, out', h⟩
    refine (readRound_prints hwf hq hlo hhi hterm h).mono fun r w' hr => ?_
    cases r with
    | inl st => exact hr
    | inr status => exact hr
  rintro _ w ⟨rfl, f', hflags, hworld⟩
  rw [if_neg (by decide)]
  refine .bind ((ensures_close hworld hlo hhi (by rwa [Function.update_self])).mono ?_)
  rintro _ w ⟨rfl, hworld⟩
  rw [if_neg (by decide)]
  rw [Function.update_idem] at hworld
  exact .pure ⟨rfl, fd, _, hlo, hhi, hfd, rfl, hworld⟩

end Loops

end User

/-! ## The directory -/

/-- A file's lines, behind its name. -/
def Image.grepFile (img : Image) (s name : List UInt8) : List UInt8 :=
  match img.opens (cstring (Buf.ofList name)) with
  | none => []
  | some f => grepLines s name (img.rest f)

/-- A name that does not start with a dot. -/
def visible (name : List UInt8) : Bool := decide (name.head? ≠ some 0x2E)

def Image.grepText (img : Image) (s : CString) : List UInt8 × Int :=
  if s.chars = [] then (bytes "could not read argument\n", 3)
  else
    match img.opens dot with
    | none => (bytes "directory open failed\n", 2)
    | some f => ((((img.listed f).filter visible).map (img.grepFile s.chars)).flatten, 0)

/-- Every visible entry is a text file whose lines fit the window. -/
def Image.TextFiles (img : Image) : Prop :=
  ∀ i, i < img.dirCount → img.name i ≠ [] → visible (img.name i) = true →
    ∃ f, img.opens (cstring (Buf.ofList (img.name i))) = some f ∧ f.fileOp ≠ .dirOp ∧
      0 ∉ img.rest f ∧ ShortLines (img.rest f)

namespace User

section Main

variable {m : Host} {w₀ : World} {stack : Nat → Buf}

/-- Between the rounds of the loop over the directory: one more descriptor is free. -/
structure Walking (m : Host) (w₀ : World) (fd : Nat) (f : Fd) (out : List UInt8) (w : World) :
    Prop where
  notFile : f.fileOp ≠ .fileOp
  world : ∃ files, w.At m w₀ files out ∧ (files 1).IsTerminal ∧ files fd = f ∧
    ∃ d, 2 ≤ d ∧ d < 8 ∧ d ≠ fd ∧ (files d).flags = 0

theorem Walking.fdAt {fd : Nat} {f : Fd} {out : List UInt8} {w : World}
    (h : Walking m w₀ fd f out w) : w.kernel.fdAt fd = f := by
  obtain ⟨_, files, hworld, _, rfl, _⟩ := h
  exact hworld.files fd

/-- What a name of the directory prints. -/
def grepEntry (img : Image) (s name : List UInt8) : List UInt8 :=
  if visible name then img.grepFile s name else []

/-- A name read from the directory is one of its entries. -/
theorem next_name {img : Image} {f : Fd} {n : Nat} (hkind : f.fileOp ≠ .fileOp)
    (hread : img.Readable f) (hne : (img.next f n).1 ≠ []) :
    ∃ i, i < img.dirCount ∧ (img.next f n).1 = img.name i := by
  obtain ⟨_, ⟨hops, _⟩ | ⟨hops, _⟩ | hops⟩ := hread
  · exact absurd hops hkind
  · rw [Image.next_dir hops] at hne ⊢
    split at hne
    · rename_i hlt
      rw [if_pos hlt]
      exact ⟨f.pos, hlt, rfl⟩
    · exact absurd rfl hne
  · rw [Image.next_clock hops] at hne
    exact absurd rfl hne

/-- The first byte of a name tells whether it is passed over. -/
theorem visible_iff {name : List UInt8} {buf : Buf} (hbytes : buf.StartsWith name)
    (hne : name ≠ []) : visible name = true ↔ buf 0 ≠ 0x2E := by
  have hpos := List.length_pos_of_ne_nil hne
  unfold visible
  rw [decide_eq_true_iff, hbytes 0 hpos, List.getD_eq_getElem _ 0 hpos, List.head?_eq_getElem?,
    List.getElem?_eq_getElem hpos, ne_eq, Option.some_inj]

/-- An entry's name in a buffer is the name itself to `open`. -/
theorem cstring_name {img : Image} {i : Nat} {fb : Buf} (h : fb.Spells (img.name i)) :
    cstring fb = cstring (Buf.ofList (img.name i)) := by
  have hsmall : (img.name i).length < 4294967296 := by
    rw [Image.name_length]
    exact Nat.lt_of_le_of_lt (nameLength_le _ _) (by decide)
  exact (cstring_spells (a := ⟨img.name i, Image.name_noNul i⟩) h hsmall).trans
    (cstring_spells (a := ⟨img.name i, Image.name_noNul i⟩)
      (Buf.spells_ofList (Image.name_noNul i)) hsmall).symm

/-- `do_one_file` on a visible entry of the directory. -/
theorem doOneFile_entry (hwf : m.img.WellFormed) (htext : m.img.TextFiles) {sb fb data : Buf}
    {s out : List UInt8} (hs : sb.Spells s) (hne : s ≠ []) (hascii : StartsAscii s)
    (hlen : s.length < 4294967296) (hguard : data bufSize ≠ 0x0A) {i : Nat}
    (hi : i < m.img.dirCount) (hname : m.img.name i ≠ [])
    (hshown : visible (m.img.name i) = true) (hfb : fb.Spells (m.img.name i)) {w : World}
    {files : Nat → Fd} (hworld : w.At m w₀ files out) (hterm : (files 1).IsTerminal)
    (hfree : ∃ d, 2 ≤ d ∧ d < 8 ∧ (files d).flags = 0) :
    (doOneFile m data sb fb).Ensures w fun r w' => r = 0 ∧ ∃ (fd : Nat) (f : Fd), 2 ≤ fd ∧
      fd < 8 ∧ (files fd).flags ≠ 1 ∧ f.flags = 0 ∧
        w'.At m w₀ (Function.update files fd f) (out ++ m.img.grepFile s (m.img.name i)) := by
  obtain ⟨f, hopen, hdir, hnul, hshort⟩ := htext i hi hname hshown
  have hgrep : m.img.grepFile s (m.img.name i) = grepLines s (m.img.name i) (m.img.rest f) := by
    unfold Image.grepFile
    rw [hopen]
  have hq : Searches sb fb s (m.img.name i) := ⟨hs, hfb, hne, hascii, by
    rw [Image.name_length]
    exact nameLength_le _ _⟩
  rw [← cstring_name hfb] at hopen
  rw [hgrep]
  exact doOneFile_prints hwf hq hlen hworld hterm hfree hopen hdir hnul hshort hguard

/-- A round greps the next file. -/
theorem grepLoop_round (hwf : m.img.WellFormed) (htext : m.img.TextFiles)
    (hstack : ∀ i, stack i bufSize ≠ 0x0A) {sb : Buf} {s : List UInt8} (hs : sb.Spells s)
    (hne : s ≠ []) (hascii : StartsAscii s) (hlen : s.length < 4294967296) {fd : Nat}
    (hlo : 2 ≤ fd) (hhi : fd < 8) :
    PieceRound m (sbufSize - 1) (grepEntry m.img s) (Walking m w₀ fd) (grepLoop m stack sb fd) := by
  rintro _ out w buf hread ⟨hkind, files, hworld, hterm, rfl, d, hdlo, hdhi, hdne, hdfree⟩
  unfold grepLoop
  refine .bind ((ensures_read hwf hworld hhi hread buf fun _ => by decide).mono ?_)
  rintro ⟨cnt, buf'⟩ w' ⟨hcnt, hbytes, _, hworld'⟩
  have hname := next_name (n := sbufSize - 1) hkind hread
  have hopened := (Image.next_readable hread (sbufSize - 1)).opened
  have hkind' : (m.img.next (files fd) (sbufSize - 1)).2.fileOp ≠ .fileOp := by
    rwa [Image.next_fileOp]
  generalize m.img.next (files fd) (sbufSize - 1) = next at *
  obtain ⟨name, f'⟩ := next
  dsimp only at hcnt hbytes hworld' hname hopened hkind' ⊢
  subst hcnt
  have hterm' : (Function.update files fd f' 1).IsTerminal := by
    rwa [Function.update_of_ne (by omega)]
  have hfd : Function.update files fd f' fd = f' := Function.update_self _ _ _
  have hfree' : (Function.update files fd f' d).flags = 0 := by
    rwa [Function.update_of_ne hdne]
  have hwalking : ∀ {w}, w.At m w₀ (Function.update files fd f') out → Walking m w₀ fd f' out w :=
    fun hw => ⟨hkind', _, hw, hterm', hfd, d, hdlo, hdhi, hdne, hfree'⟩
  by_cases hend : name = []
  · rw [if_pos (by rw [hend]; rfl)]
    refine .pure ?_
    rw [if_pos hend]
    exact ⟨rfl, hwalking hworld'⟩
  obtain ⟨i, hi, rfl⟩ := hname hend
  have hpos := List.length_pos_of_ne_nil hend
  have hfirst := visible_iff hbytes hend
  rw [if_neg (by omega), if_neg (by omega)]
  unfold grepEntry
  by_cases hdot : buf' 0 = 0x2E
  · rw [if_pos hdot]
    refine .pure ?_
    rw [if_neg hend, if_neg fun hshown => hfirst.mp hshown hdot, List.append_nil]
    exact ⟨⟨_, rfl⟩, hwalking hworld'⟩
  have hshown := hfirst.mpr hdot
  rw [if_neg hdot, Int.toNat_natCast]
  refine .bind (.of rfl ?_)
  refine .bind ((doOneFile_entry hwf htext hs hne hascii hlen (hstack _) hi hend hshown
    ⟨Image.name_noNul i, hbytes.concat 0⟩ hworld' hterm' ⟨d, hdlo, hdhi, hfree'⟩).mono ?_)
  rintro _ w ⟨rfl, fd', f'', hlo', hhi', hfd', hflags, hworld⟩
  -- the file was opened on a descriptor of its own, which is free again
  have hother : fd' ≠ fd := by
    rintro rfl
    rw [hfd] at hfd'
    exact hfd' hopened
  rw [if_neg (show ¬ (0 : Int) ≠ 0 by decide)]
  refine .pure ?_
  rw [if_neg hend, if_pos hshown]
  refine ⟨⟨_, rfl⟩, hkind', _, hworld, ?_, ?_, fd', hlo', hhi', hother, ?_⟩
  · rwa [Function.update_of_ne (by omega)]
  · rw [Function.update_of_ne (Ne.symm hother), hfd]
  · rwa [Function.update_self]

/-- What is left to grep, by the next entry. -/
theorem grep_listed {img : Image} {f : Fd} (s : List UInt8) (hkind : f.fileOp ≠ .fileOp) (n : Nat)
    (hread : img.Readable f) :
    (((img.listed f).filter visible).map (img.grepFile s)).flatten =
      if (img.next f n).1 = [] then []
      else grepEntry img s (img.next f n).1 ++
        (((img.listed (img.next f n).2).filter visible).map (img.grepFile s)).flatten := by
  rw [listed_next hkind n hread]
  split
  · rfl
  · unfold grepEntry
    by_cases hshown : visible (img.next f n).1 = true
    · rw [List.filter_cons_of_pos hshown, if_pos hshown, List.map_cons, List.flatten_cons]
    · rw [List.filter_cons_of_neg hshown, if_neg hshown, List.nil_append]

/-- `grep` prints the lines of the directory's files in which its argument occurs, if that starts
    with a byte below 0x80. -/
theorem grep_prints (hwf : m.img.WellFormed) (htext : m.img.TextFiles)
    (hstack : ∀ i, stack i bufSize ≠ 0x0A) {a : CString}
    (ha : (w₀.kernel.pcbs (getPcbAddress w₀.kernel)).HoldsArg a.chars)
    (hascii : StartsAscii a.chars) (hterm : (w₀.kernel.fdAt 1).IsTerminal)
    (hclosed : ∀ d, 2 ≤ d → d < 8 → (w₀.kernel.fdAt d).flags = 0) (buf search : Buf) :
    Prints m w₀ (grep m stack buf search) (m.img.grepText a) := by
  have hlen : a.chars.length ≤ 128 := ha.fits
  have hdot : 0 ∉ bytes "." := by decide
  have hname : cstring (literal ".") = dot := cstring_spells (Buf.spells_ofList hdot) (by decide)
  unfold Prints grep Image.grepText
  refine .bind ((ensures_getargs (World.at_start m w₀) ha search (n := bufSize)
    (show a.chars.length < 1024 by omega) (by decide)).mono ?_)
  rintro r w ⟨hargs, hworld⟩
  by_cases hempty : a.chars = []
  · rw [if_pos hempty] at hargs ⊢
    rw [if_pos (by omega)]
    refine .bind ((ensures_literal hworld hterm (by decide) (by decide)).mono fun _ w' h => ?_)
    exact .pure ⟨rfl, _, h⟩
  rw [if_neg hempty] at hargs ⊢
  rw [if_neg (by omega)]
  cases hopen : m.img.opens dot with
  | none =>
    rw [← hname] at hopen
    refine .bind ((ensures_refused hworld hopen).mono ?_)
    rintro _ w ⟨rfl, hworld⟩
    rw [if_pos rfl]
    refine .bind ((ensures_literal hworld hterm (by decide) (by decide)).mono fun _ w' h => ?_)
    exact .pure ⟨rfl, _, h⟩
  | some f =>
    have hread := (opens_readable hwf hopen).1
    have hkind : f.fileOp ≠ .fileOp := opens_dot hopen
    rw [← hname] at hopen
    refine .bind ((ensures_opens hworld hopen
      ⟨2, by decide, by decide, hclosed 2 (by decide) (by decide)⟩).mono ?_)
    rintro _ w ⟨fd, rfl, hlo, hhi, _, hworld⟩
    rw [if_neg (by omega)]
    -- descriptor 2 or 3 is still free
    have hfree : ∃ d, 2 ≤ d ∧ d < 8 ∧ d ≠ fd ∧
        (Function.update w₀.kernel.fdAt fd f d).flags = 0 := by
      by_cases htwo : fd = 2
      · refine ⟨3, by decide, by decide, by omega, ?_⟩
        rw [Function.update_of_ne (by omega)]
        exact hclosed 3 (by decide) (by decide)
      · refine ⟨2, by decide, by decide, by omega, ?_⟩
        rw [Function.update_of_ne (by omega)]
        exact hclosed 2 (by decide) (by decide)
    have hwalking : Walking m w₀ fd f [] w :=
      ⟨hkind, _, hworld, by rwa [Function.update_of_ne (by omega)], Function.update_self _ _ _,
        hfree⟩
    refine ((grepLoop_round hwf htext hstack hargs.2 hempty hascii (by omega) hlo hhi).loop
      (fun _ _ _ h => h.fdAt) (fun _ _ _ hf h => grep_listed _ h.notFile _ hf) hread
      hwalking _).mono ?_
    rintro status w ⟨rfl, _, _, _, files, hworld, _⟩
    exact ⟨rfl, files, hworld⟩

/-- The base shell greps for "EL" and finds its own magic number. -/
def grepShell : World := .start (execute dotImage dotShell (Locals.zero ⟨0, 0⟩)
  (some ⟨shellName ++ [0x20, 0x45, 0x4c], by decide⟩)).1

theorem dotImage_textFiles : dotImage.TextFiles := by
  intro i hi _ hshown
  have hcount : dotImage.dirCount = 2 := by decide
  obtain rfl | rfl : i = 0 ∨ i = 1 := by omega
  · exact absurd hshown (by decide)
  · refine ⟨openedFd .fileOp 0, by decide, by decide, by decide, ?_⟩
    unfold ShortLines
    decide

theorem grep_prints_grepShell :
    Prints (quietHost dotImage) grepShell
        (grep (quietHost dotImage) (fun _ _ => 0) (fun _ => 0) fun _ => 0)
        (dotImage.grepText ⟨[0x45, 0x4c], by decide⟩) ∧
      dotImage.grepText ⟨[0x45, 0x4c], by decide⟩ =
        (shellName ++ [0x3a, 0x7f, 0x45, 0x4c, 0x46, 0x0a], 0) := by
  have hclosed : ∀ d, d < 8 → 2 ≤ d → (grepShell.kernel.fdAt d).flags = 0 := by decide
  exact ⟨grep_prints dotImage_wellFormed dotImage_textFiles (fun _ => by decide)
    ⟨by decide, by decide⟩ (by decide) ⟨by decide, by decide⟩
    (fun d hlo hhi => hclosed d hhi hlo) _ _, by decide⟩

end Main

end User

end LmaOS
