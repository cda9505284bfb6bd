import LmaOS.Fish.Schedule

/-
  What fish shows (fish.c).

  `addFrames` reads two files side by side, a character of each at a time, and adds a blinker
  wherever one of them has something to show. `addFrames_adds`: these are the places where the two
  texts, cut into lines and padded with blanks, are not both blank.

  Where both texts fit on the screen, the locations of these places go up from line to line
  (`frameCells_rising`), so that no two blinkers meet and all of them find room. `fish_animates`:
  from then on the screen shows the first file for 15 ticks, the second for 15 ticks, and so on, at
  these places, and what it showed before at all others, but for those that something else is done
  to.
-/
namespace LmaOS.Fish

open Util

/-! ## The program -/

abbrev newline : UInt8 := 0x0A
abbrev blank : UInt8 := 0x20

/-- One of the two files: what is still to be read, and the variables `c0` and `eof0`, or `c1` and
    `eof1`. -/
structure Reader where
  file : List UInt8
  c : UInt8
  eof : Bool

namespace Reader

def start (file : List UInt8) : Reader := ⟨file, 0x30, false⟩

/-- `ece391_read` of one character, unless the line is at its end. -/
def read (r : Reader) : Reader :=
  if r.c ≠ newline then
    match r.file with
    | [] => { r with c := newline, eof := true }
    | c :: file => { r with c := c, file := file }
  else r

def nextRow (r : Reader) : Reader := if r.eof then { r with c := newline } else { r with c := 0x30 }

/-- What is shown for a character. -/
def shown (r : Reader) : UInt8 := if r.c = newline then blank else r.c

end Reader

structure Frames where
  blink : Blink
  reader0 : Reader
  reader1 : Reader

/-- One round of the inner loop. `blinkStruct` has the members of the local variable that are not
    set here. -/
def frameRound (blinkStruct : Mp1BlinkStruct) (row col : Nat) : Task Frames (Nat ⊕ Unit) :=
  Task.of fun m =>
    let m := { m with reader0 := m.reader0.read }
    let m := { m with reader1 := m.reader1.read }
    if m.reader0.c = newline ∧ m.reader1.c = newline then some (.inr (), m)
    else if (m.reader0.c ≠ blank ∧ m.reader0.c ≠ newline) ∨
        (m.reader1.c ≠ blank ∧ m.reader1.c ≠ newline) then
      let s := { blinkStruct with
        onChar := m.reader0.shown
        offChar := m.reader1.shown
        location := UInt16.ofNat (row * 80 + col + 40) }
      some (.inl (col + 1), { m with blink := (m.blink.mp1IoctlAdd s).2 })
    else some (.inl (col + 1), m)

def frameRow (blinkStruct : Mp1BlinkStruct) (row : Nat) : Task Frames Unit :=
  Task.loop (frameRound blinkStruct row) 0

def addFrames (blinkStruct : Mp1BlinkStruct) : Task Frames Unit :=
  Task.loop (fun row => do
    let done ← Task.of fun m : Frames => some (m.reader0.eof && m.reader1.eof, m)
    if done then pure (.inr ())
    else do
      frameRow { blinkStruct with onLength := 15, offLength := 15 } row
      Task.of fun m =>
        some (.inl (row + 1), { m with
          reader0 := m.reader0.nextRow
          reader1 := m.reader1.nextRow })) 0

/-! ## The frames -/

/-- Two lists side by side, the shorter one continued with `d`. -/
def padded {α : Type} (d : α) (as bs : List α) : List (α × α) :=
  List.zipWithAll (fun a b => (a.getD d, b.getD d)) as bs

/-- What is added for a place. -/
def placeCell (s : Mp1BlinkStruct) (row col : Nat) (p : UInt8 × UInt8) : List Mp1BlinkStruct :=
  if p.1 = blank ∧ p.2 = blank then []
  else [{ s with onChar := p.1, offChar := p.2, location := UInt16.ofNat (row * 80 + col + 40) }]

def rowCells (s : Mp1BlinkStruct) (row col : Nat) (line0 line1 : List UInt8) :
    List Mp1BlinkStruct :=
  ((padded blank line0 line1).zipIdx col).flatMap fun p => placeCell s row p.2 p.1

def frameCells (s : Mp1BlinkStruct) (row : Nat) (lines0 lines1 : List (List UInt8)) :
    List Mp1BlinkStruct :=
  ((padded [] lines0 lines1).zipIdx row).flatMap fun p => rowCells s p.2 0 p.1.1 p.1.2

def addAll (b : Blink) (cells : List Mp1BlinkStruct) : Blink :=
  cells.foldl (fun b s => (b.mp1IoctlAdd s).2) b

section Padding

variable {α : Type} {d : α} {as bs : List α}

theorem padded_step (h : as ≠ [] ∨ bs ≠ []) :
    padded d as bs = (as.headD d, bs.headD d) :: padded d as.tail bs.tail := by
  unfold padded
  cases as with
  | nil =>
    cases bs with
    | nil => exact absurd rfl (h.elim id id)
    | cons b bs => rfl
  | cons a as =>
    cases bs with
    | nil => rw [List.tail_nil, List.zipWithAll_nil, List.tail_cons, List.zipWithAll_nil]; rfl
    | cons b bs => rfl

/-- Both lists lose their heads until nothing is left. -/
theorem padded_induction {P : List α → List α → Prop} (nil : P [] [])
    (step : ∀ as bs, (as ≠ [] ∨ bs ≠ []) → P as.tail bs.tail → P as bs) (as bs : List α) :
    P as bs := by
  induction as generalizing bs with
  | nil =>
    induction bs with
    | nil => exact nil
    | cons b bs ih => exact step [] (b :: bs) (Or.inr (List.cons_ne_nil b bs)) ih
  | cons a as ih => exact step (a :: as) bs (Or.inl (List.cons_ne_nil a as)) (ih bs.tail)

theorem rowCells_step (s : Mp1BlinkStruct) (row col : Nat) {line0 line1 : List UInt8}
    (h : line0 ≠ [] ∨ line1 ≠ []) : rowCells s row col line0 line1 =
      placeCell s row col (line0.headD blank, line1.headD blank) ++
        rowCells s row (col + 1) line0.tail line1.tail := by
  unfold rowCells
  rw [padded_step h, List.zipIdx_cons, List.flatMap_cons]

theorem frameCells_step (s : Mp1BlinkStruct) (row : Nat) {lines0 lines1 : List (List UInt8)}
    (h : lines0 ≠ [] ∨ lines1 ≠ []) : frameCells s row lines0 lines1 =
      rowCells s row 0 (lines0.headD []) (lines1.headD []) ++
        frameCells s (row + 1) lines0.tail lines1.tail := by
  unfold frameCells
  rw [padded_step h, List.zipIdx_cons, List.flatMap_cons]

end Padding

/-! ## One file -/

/-- From `r` on, the characters `line` are read before the end of the line, and then the reader
    is `r'`. -/
inductive Reads : Reader → List UInt8 → Reader → Prop where
  | done {r : Reader} : r.read.c = newline → Reads r [] r.read
  | char {r r' : Reader} {line : List UInt8} : r.read.c ≠ newline → Reads r.read line r' →
    Reads r (r.read.c :: line) r'

/-- At the beginning of a row, with the lines that are still to come. -/
def Reader.Before (r : Reader) (lines : List (List UInt8)) : Prop :=
  if r.eof then r.c = newline ∧ lines = []
  else r.c = 0x30 ∧ lines = r.file.splitOn newline

section Reader

variable {r r' : Reader} {line : List UInt8} {lines : List (List UInt8)}

theorem read_newline (h : r.c = newline) : r.read = r := if_neg (not_not_intro h)

/-- A line with its newline, or the last line. -/
theorem reads_line (file : List UInt8) {c : UInt8} {eof : Bool} (hc : c ≠ newline)
    (hline : newline ∉ line) : Reads ⟨line ++ newline :: file, c, eof⟩ line ⟨file, newline, eof⟩ ∧
      Reads ⟨line, c, eof⟩ line ⟨[], newline, true⟩ := by
  induction line generalizing c with
  | nil =>
    have hnext := Reads.done (r := ⟨newline :: file, c, eof⟩)
    have hlast := Reads.done (r := ⟨[], c, eof⟩)
    rw [show (Reader.mk (newline :: file) c eof).read = ⟨file, newline, eof⟩ from if_pos hc]
      at hnext
    rw [show (Reader.mk [] c eof).read = ⟨[], newline, true⟩ from if_pos hc] at hlast
    exact ⟨hnext rfl, hlast rfl⟩
  | cons a line ih =>
    obtain ⟨ha, hline⟩ := not_or.mp fun h => hline (List.mem_cons.mpr h)
    obtain ⟨hnext, hlast⟩ := ih (c := a) (fun h => ha h.symm) hline
    have hchar : ∀ file r', Reads ⟨file, a, eof⟩ line r' →
        Reads ⟨a :: file, c, eof⟩ (a :: line) r' := by
      intro file r' h
      have hread : (Reader.mk (a :: file) c eof).read = ⟨file, a, eof⟩ := if_pos hc
      have hstep : (Reader.mk (a :: file) c eof).read.c ≠ newline →
          Reads (Reader.mk (a :: file) c eof).read line r' →
            Reads ⟨a :: file, c, eof⟩ ((Reader.mk (a :: file) c eof).read.c :: line) r' :=
        Reads.char
      rw [hread] at hstep
      exact hstep (fun h => ha h.symm) h
    exact ⟨hchar _ _ hnext, hchar _ _ hlast⟩

/-- One character, or none: the reader stays at the end of the line. -/
theorem Reads.step (h : Reads r line r') : Reads r.read line.tail r' ∧
    r.read.shown = line.headD blank ∧ (r.read.c = newline ↔ line = []) := by
  unfold Reader.shown
  cases h with
  | done hc =>
    have hagain := Reads.done (r := r.read)
    rw [read_newline hc] at hagain
    exact ⟨hagain hc, if_pos hc, iff_of_true hc rfl⟩
  | char hc hrest => exact ⟨hrest, if_neg hc, iff_of_false hc (List.cons_ne_nil _ _)⟩

theorem shown_eq_blank (r : Reader) : r.shown = blank ↔ ¬ (r.c ≠ blank ∧ r.c ≠ newline) := by
  unfold Reader.shown
  split
  · rename_i hc
    exact iff_of_true rfl fun h => h.2 hc
  · rename_i hc
    exact ⟨fun hblank h => h.1 hblank, fun h => by_contra fun hblank => h ⟨hblank, hc⟩⟩

theorem Reader.Before.eof (h : r.Before lines) : r.eof = true ↔ lines = [] := by
  unfold Reader.Before at h
  split at h
  · rename_i heof
    exact iff_of_true heof h.2
  · rename_i heof
    refine iff_of_false heof ?_
    rw [h.2]
    exact List.splitOn_ne_nil newline r.file

theorem Reader.Before.row (h : r.Before lines) : ∃ r', Reads r (lines.headD []) r' ∧
    r'.nextRow.Before lines.tail := by
  unfold Reader.Before at h
  split at h
  · rename_i heof
    obtain ⟨hc, rfl⟩ := h
    have hread := read_newline hc
    have hdone := Reads.done (r := r)
    rw [hread] at hdone
    refine ⟨r, hdone hc, ?_⟩
    unfold Reader.Before Reader.nextRow
    rw [if_pos heof, if_pos heof]
    exact ⟨rfl, rfl⟩
  · rename_i heof
    obtain ⟨file, c, eof⟩ := r
    obtain rfl : eof = false := Bool.eq_false_iff.mpr heof
    obtain ⟨hc, rfl⟩ := h
    have hne : c ≠ newline := by
      rw [show c = 0x30 from hc]
      decide
    obtain ⟨line, hline, htext⟩ := exists_line file
    rcases htext with rfl | ⟨rest, rfl⟩
    · rw [List.splitOn_eq_singleton hline]
      exact ⟨_, (reads_line [] hne hline).2, ⟨rfl, rfl⟩⟩
    · rw [List.splitOn_append_cons_self_of_not_mem hline]
      exact ⟨_, (reads_line _ hne hline).1, ⟨rfl, rfl⟩⟩

end Reader

/-! ## Both files -/

section Rows

variable {s : Mp1BlinkStruct} {row col : Nat} {m : Frames} {line0 line1 : List UInt8}
  {r0 r1 : Reader}

theorem addAll_append (b : Blink) (l l' : List Mp1BlinkStruct) :
    addAll b (l ++ l') = addAll (addAll b l) l' := List.foldl_append

theorem frameRound_eq (s : Mp1BlinkStruct) (row col : Nat) (h0 : Reads m.reader0 line0 r0)
    (h1 : Reads m.reader1 line1 r1) (n : Nat) :
    frameRound s row col n m =
      if line0 = [] ∧ line1 = [] then some (.inr (), ⟨m.blink, r0, r1⟩)
      else some (.inl (col + 1), ⟨addAll m.blink (placeCell s row col
        (line0.headD blank, line1.headD blank)), m.reader0.read, m.reader1.read⟩) := by
  obtain ⟨-, hshown0, hend0⟩ := h0.step
  obtain ⟨-, hshown1, hend1⟩ := h1.step
  have hends : m.reader0.read.c = newline ∧ m.reader1.read.c = newline ↔
      line0 = [] ∧ line1 = [] := and_congr hend0 hend1
  show (if m.reader0.read.c = newline ∧ m.reader1.read.c = newline then _
    else if _ then _ else _) = _
  by_cases hboth : line0 = [] ∧ line1 = []
  · rw [if_pos (hends.mpr hboth), if_pos hboth]
    obtain ⟨rfl, rfl⟩ := hboth
    cases h0
    cases h1
    rfl
  · rw [if_neg fun h => hboth (hends.mp h), if_neg hboth, ← hshown0, ← hshown1]
    unfold placeCell
    have hplace : ((m.reader0.read.c ≠ blank ∧ m.reader0.read.c ≠ newline) ∨
        (m.reader1.read.c ≠ blank ∧ m.reader1.read.c ≠ newline)) ↔
          ¬ (m.reader0.read.shown = blank ∧ m.reader1.read.shown = blank) := by
      rw [shown_eq_blank, shown_eq_blank, not_and_or, not_not, not_not]
    by_cases hblank : m.reader0.read.shown = blank ∧ m.reader1.read.shown = blank
    · rw [if_pos hblank, if_neg fun h => hplace.mp h hblank]
      rfl
    · rw [if_neg hblank, if_pos (hplace.mpr hblank)]
      rfl

/-- One row. -/
theorem frameRow_adds (h0 : Reads m.reader0 line0 r0) (h1 : Reads m.reader1 line1 r1) :
    (frameRow s row).Ensures m fun _ m' =>
      m' = ⟨addAll m.blink (rowCells s row 0 line0 line1), r0, r1⟩ := by
  refine Task.Ensures.loop_indexed
    (fun n col m' => ∃ line0' line1', Reads m'.reader0 line0' r0 ∧ Reads m'.reader1 line1' r1 ∧
      addAll m'.blink (rowCells s row col line0' line1') =
        addAll m.blink (rowCells s row 0 line0 line1) ∧ line0'.length + line1'.length = n) ?_
    ⟨line0, line1, h0, h1, rfl, rfl⟩
  rintro n col m' ⟨line0', line1', h0', h1', hcells, rfl⟩
  have hround := frameRound_eq s row col h0' h1'
  by_cases hboth : line0' = [] ∧ line1' = []
  · refine ⟨_, _, ⟨0, fun n _ => (hround n).trans (if_pos hboth)⟩, ?_⟩
    obtain ⟨rfl, rfl⟩ := hboth
    show _ = Frames.mk _ r0 r1
    rw [← hcells]
    rfl
  · refine ⟨_, _, ⟨0, fun n _ => (hround n).trans (if_neg hboth)⟩, ?_⟩
    have hsome : line0' ≠ [] ∨ line1' ≠ [] := not_and_or.mp hboth
    rw [rowCells_step s row col hsome, addAll_append] at hcells
    refine ⟨line0'.tail.length + line1'.tail.length, ?_, line0'.tail, line1'.tail, h0'.step.1,
      h1'.step.1, hcells, rfl⟩
    have hlen : line0'.length ≠ 0 ∨ line1'.length ≠ 0 :=
      hsome.imp (mt List.eq_nil_of_length_eq_zero) (mt List.eq_nil_of_length_eq_zero)
    rw [List.length_tail, List.length_tail]
    omega

/-- `add_frames` adds the cells of the two texts. -/
theorem addFrames_adds (s : Mp1BlinkStruct) (b : Blink) (file0 file1 : List UInt8) :
    (addFrames s).Ensures ⟨b, .start file0, .start file1⟩ fun _ m =>
      m.blink = addAll b (frameCells { s with onLength := 15, offLength := 15 } 0
        (file0.splitOn newline) (file1.splitOn newline)) := by
  generalize hcell : { s with onLength := 15, offLength := 15 } = cell
  refine Task.Ensures.loop_indexed
    (fun n row m => ∃ lines0 lines1, m.reader0.Before lines0 ∧ m.reader1.Before lines1 ∧
      addAll m.blink (frameCells cell row lines0 lines1) =
        addAll b (frameCells cell 0 (file0.splitOn newline) (file1.splitOn newline)) ∧
      lines0.length + lines1.length = n) ?_
    ⟨_, _, ⟨rfl, rfl⟩, ⟨rfl, rfl⟩, rfl, rfl⟩
  rintro n row m ⟨lines0, lines1, h0, h1, hcells, rfl⟩
  refine .bind (.of rfl ?_)
  by_cases hboth : lines0 = [] ∧ lines1 = []
  · rw [h0.eof.mpr hboth.1, h1.eof.mpr hboth.2]
    refine .pure ?_
    obtain ⟨rfl, rfl⟩ := hboth
    exact hcells
  · have hdone : (m.reader0.eof && m.reader1.eof) = false := by
      rw [Bool.eq_false_iff, ne_eq, Bool.and_eq_true, h0.eof, h1.eof]
      exact hboth
    have hsome : lines0 ≠ [] ∨ lines1 ≠ [] := not_and_or.mp hboth
    obtain ⟨r0, hreads0, hnext0⟩ := h0.row
    obtain ⟨r1, hreads1, hnext1⟩ := h1.row
    rw [hdone, hcell]
    refine .bind ((frameRow_adds hreads0 hreads1).mono ?_)
    rintro _ _ rfl
    rw [frameCells_step cell row hsome, addAll_append] at hcells
    refine .of rfl ⟨lines0.tail.length + lines1.tail.length, ?_, lines0.tail, lines1.tail, hnext0,
      hnext1, hcells, rfl⟩
    have hlen : lines0.length ≠ 0 ∨ lines1.length ≠ 0 :=
      hsome.imp (mt List.eq_nil_of_length_eq_zero) (mt List.eq_nil_of_length_eq_zero)
    rw [List.length_tail, List.length_tail]
    omega

end Rows

/-! ## What they show -/

/-- The character at a place of a text, blank where the text has none. -/
def charAt (lines : List (List UInt8)) (row col : Nat) : UInt8 :=
  (lines.getD row []).getD col blank

/-- What a location of the screen shows `n` ticks later, before the picture `v`: the two texts in
    turn, where one of them has something to show. -/
def animation (v : Buf) (lines0 lines1 : List (List UInt8)) (location n : Nat) : UInt8 :=
  let c0 := charAt lines0 ((location - 40) / 80) ((location - 40) % 80)
  let c1 := charAt lines1 ((location - 40) / 80) ((location - 40) % 80)
  if location < 40 ∨ c0 = blank ∧ c1 = blank then v (location * 2)
  else if n % 30 < 15 then c0
  else c1

/-- A line that starts at the location `start` ends before `bound`. -/
def Fits (start bound : Nat) (line : List UInt8) : Prop :=
  line = [] ∨ start + line.length ≤ bound

/-- Every line ends before the next one starts, and on the screen. -/
def OnScreen (row : Nat) (lines : List (List UInt8)) : Prop :=
  ∀ p ∈ lines.zipIdx row, Fits (p.2 * 80 + 40) (min ((p.2 + 1) * 80 + 40) cells) p.1

instance (start bound : Nat) (line : List UInt8) : Decidable (Fits start bound line) :=
  inferInstanceAs (Decidable (_ ∨ _))

instance (row : Nat) (lines : List (List UInt8)) : Decidable (OnScreen row lines) :=
  inferInstanceAs (Decidable (∀ p ∈ lines.zipIdx row, _))

/-- The locations go up, from `lo` on and below `hi`. -/
structure Rising (lo hi : Nat) (l : List Mp1BlinkStruct) : Prop where
  up : l.Pairwise fun s t => s.location.toNat < t.location.toNat
  within : ∀ s ∈ l, lo ≤ s.location.toNat ∧ s.location.toNat < hi

section Places

variable {s : Mp1BlinkStruct} {lo mid hi row col start bound : Nat} {line : List UInt8}
  {lines lines0 lines1 : List (List UInt8)}

theorem Rising.append {l l' : List Mp1BlinkStruct} (h : Rising lo (min mid hi) l)
    (h' : Rising mid hi l') (hle : lo ≤ mid) : Rising lo hi (l ++ l') where
  up := List.pairwise_append.mpr ⟨h.up, h'.up, fun s hs t ht => by
    have hlt := (h.within s hs).2
    have hge := (h'.within t ht).1
    omega⟩
  within := fun s hs => by
    rcases List.mem_append.mp hs with hs | hs
    · have hs' := h.within s hs
      omega
    · have hs' := h'.within s hs
      omega

theorem Fits.tail (h : Fits start bound line) : Fits (start + 1) bound line.tail := by
  rcases h with rfl | h
  · exact Or.inl rfl
  · cases line with
    | nil => exact Or.inl rfl
    | cons a line =>
      rw [List.length_cons] at h
      exact Or.inr (show start + 1 + line.length ≤ bound by omega)

theorem Fits.start_lt (h : Fits start bound line) (hne : line ≠ []) : start < bound := by
  have hlen := List.length_pos_iff.mpr hne
  have hle := h.resolve_left hne
  omega

theorem OnScreen.head (h : OnScreen row lines) :
    Fits (row * 80 + 40) (min ((row + 1) * 80 + 40) cells) (lines.headD []) := by
  cases lines with
  | nil => exact Or.inl rfl
  | cons line lines => exact h (line, row) List.mem_cons_self

theorem OnScreen.tail (h : OnScreen row lines) : OnScreen (row + 1) lines.tail := by
  cases lines with
  | nil => exact fun _ hp => absurd hp List.not_mem_nil
  | cons line lines => exact fun p hp => h p (List.mem_cons_of_mem _ hp)

theorem toNat_place (h : row * 80 + col + 40 < cells) :
    (UInt16.ofNat (row * 80 + col + 40)).toNat = row * 80 + col + 40 := by
  rw [UInt16.toNat_ofNat', Nat.mod_eq_of_lt (by have : cells = 2000 := rfl; omega)]

theorem placeCell_rising (p : UInt8 × UInt8) (hlt : row * 80 + col + 40 < hi)
    (hhi : hi ≤ cells) :
    Rising (row * 80 + col + 40) (min (row * 80 + (col + 1) + 40) hi) (placeCell s row col p) := by
  unfold placeCell
  split
  · exact ⟨.nil, fun _ hs => absurd hs List.not_mem_nil⟩
  · refine ⟨List.pairwise_singleton _ _, fun t ht => ?_⟩
    obtain rfl := List.mem_singleton.mp ht
    dsimp only
    rw [toNat_place (Nat.lt_of_lt_of_le hlt hhi)]
    omega

theorem rowCells_rising (row col : Nat) (line0 line1 : List UInt8) (hhi : hi ≤ cells)
    (h0 : Fits (row * 80 + col + 40) hi line0) (h1 : Fits (row * 80 + col + 40) hi line1) :
    Rising (row * 80 + col + 40) hi (rowCells s row col line0 line1) := by
  induction line0, line1 using padded_induction generalizing col with
  | nil => exact ⟨.nil, fun _ hs => absurd hs List.not_mem_nil⟩
  | step line0 line1 hsome ih =>
    have hlt : row * 80 + col + 40 < hi := hsome.elim h0.start_lt h1.start_lt
    have hnext : row * 80 + col + 40 + 1 = row * 80 + (col + 1) + 40 := by omega
    have h0' := h0.tail
    have h1' := h1.tail
    rw [hnext] at h0' h1'
    rw [rowCells_step s row col hsome]
    exact (placeCell_rising _ hlt hhi).append (ih (col + 1) h0' h1') (by omega)

theorem frameCells_rising (lines0 lines1 : List (List UInt8)) (h0 : OnScreen row lines0)
    (h1 : OnScreen row lines1) :
    Rising (row * 80 + 40) cells (frameCells s row lines0 lines1) := by
  induction lines0, lines1 using padded_induction generalizing row with
  | nil => exact ⟨.nil, fun _ hs => absurd hs List.not_mem_nil⟩
  | step lines0 lines1 hsome ih =>
    rw [frameCells_step s row hsome]
    have hrow := rowCells_rising (s := s) row 0 _ _ (Nat.min_le_right _ _) h0.head h1.head
    exact hrow.append (ih h0.tail h1.tail) (by omega)

theorem padded_get {α : Type} {d : α} {as bs : List α} {i : Nat}
    (h : as.getD i d ≠ d ∨ bs.getD i d ≠ d) :
    (padded d as bs)[i]? = some (as.getD i d, bs.getD i d) := by
  rw [List.getD_eq_getElem?_getD, List.getD_eq_getElem?_getD] at h ⊢
  unfold padded
  rw [List.getElem?_zipWithAll]
  cases ha : as[i]? with
  | none =>
    cases hb : bs[i]? with
    | none =>
      rw [ha, hb] at h
      exact absurd rfl (h.elim id id)
    | some b => rfl
  | some a => cases bs[i]? <;> rfl

theorem padded_of_get {α : Type} {d : α} {as bs : List α} {i : Nat} {p : α × α}
    (h : (padded d as bs)[i]? = some p) : p = (as.getD i d, bs.getD i d) := by
  rw [List.getD_eq_getElem?_getD, List.getD_eq_getElem?_getD]
  unfold padded at h
  rw [List.getElem?_zipWithAll] at h
  cases ha : as[i]? with
  | none =>
    cases hb : bs[i]? with
    | none =>
      rw [ha, hb] at h
      exact absurd h.symm (Option.some_ne_none p)
    | some b =>
      rw [ha, hb] at h
      exact (Option.some.inj h).symm
  | some a =>
    rw [ha] at h
    cases hb : bs[i]? <;> rw [hb] at h <;> exact (Option.some.inj h).symm

theorem charAt_line (h : charAt lines row col ≠ blank) : lines.getD row [] ≠ [] := by
  intro hnil
  unfold charAt at h
  rw [hnil] at h
  exact h rfl

/-- Where something is shown there is a cell for it. -/
theorem frameCells_mem (s : Mp1BlinkStruct)
    (h : charAt lines0 row col ≠ blank ∨ charAt lines1 row col ≠ blank) :
    { s with onChar := charAt lines0 row col, offChar := charAt lines1 row col,
             location := UInt16.ofNat (row * 80 + col + 40) } ∈ frameCells s 0 lines0 lines1 := by
  refine List.mem_flatMap.mpr ⟨((lines0.getD row [], lines1.getD row []), row),
    List.mk_mem_zipIdx_iff_getElem?.mpr (padded_get (h.imp charAt_line charAt_line)), ?_⟩
  refine List.mem_flatMap.mpr ⟨((charAt lines0 row col, charAt lines1 row col), col),
    List.mk_mem_zipIdx_iff_getElem?.mpr (padded_get h), ?_⟩
  unfold placeCell
  rw [if_neg fun hblank => h.elim (· hblank.1) (· hblank.2)]
  exact List.mem_singleton_self _

/-- And for nothing else. -/
theorem frameCells_place {t : Mp1BlinkStruct} (ht : t ∈ frameCells s 0 lines0 lines1) :
    ∃ row col, t.location = UInt16.ofNat (row * 80 + col + 40) ∧
      (charAt lines0 row col ≠ blank ∨ charAt lines1 row col ≠ blank) := by
  obtain ⟨⟨p, row⟩, hrow, ht⟩ := List.mem_flatMap.mp ht
  obtain ⟨⟨q, col⟩, hcol, ht⟩ := List.mem_flatMap.mp ht
  obtain rfl := padded_of_get (List.mk_mem_zipIdx_iff_getElem?.mp hrow)
  obtain rfl := padded_of_get (List.mk_mem_zipIdx_iff_getElem?.mp hcol)
  unfold placeCell at ht
  split at ht
  · exact absurd ht List.not_mem_nil
  · rename_i hsome
    obtain rfl := List.mem_singleton.mp ht
    exact ⟨row, col, rfl, not_and_or.mp hsome⟩

theorem OnScreen.place (h : OnScreen 0 lines) (hchar : charAt lines row col ≠ blank) :
    col < 80 ∧ row * 80 + col + 40 < cells := by
  have hline := charAt_line hchar
  have hcol : col < (lines.getD row []).length := by
    by_contra hge
    exact hchar (List.getD_eq_default _ _ (Nat.le_of_not_lt hge))
  have hrow : lines[row]? = some (lines.getD row []) := by
    rw [List.getD_eq_getElem?_getD] at hline ⊢
    cases hget : lines[row]? with
    | none =>
      rw [hget] at hline
      exact absurd rfl hline
    | some line => rfl
  have hfits := (h _ (List.mk_mem_zipIdx_iff_getElem?.mpr hrow)).resolve_left hline
  dsimp only at hfits
  omega

theorem frameCells_elsewhere (h0 : OnScreen 0 lines0) (h1 : OnScreen 0 lines1)
    {location : UInt16} (hnone : location.toNat < 40 ∨
      charAt lines0 ((location.toNat - 40) / 80) ((location.toNat - 40) % 80) = blank ∧
        charAt lines1 ((location.toNat - 40) / 80) ((location.toNat - 40) % 80) = blank) :
    ∀ t ∈ frameCells s 0 lines0 lines1, t.location ≠ location := by
  intro t ht heq
  obtain ⟨row, col, hloc, hsome⟩ := frameCells_place ht
  have hplace := hsome.elim h0.place h1.place
  have hnat : location.toNat = row * 80 + col + 40 := by
    rw [← heq, hloc, toNat_place hplace.2]
  rw [show (location.toNat - 40) / 80 = row by omega,
    show (location.toNat - 40) % 80 = col by omega] at hnone
  rcases hnone with hlt | hblank
  · omega
  · exact hsome.elim (· hblank.1) (· hblank.2)

end Places

section Run

variable {v : Buf} {l : List Nat} {b : Blink} {d : Board} {s : Mp1BlinkStruct} {lo : Nat}
  {added : List Mp1BlinkStruct}

theorem serveAll_append (d : Board) (rs rs' : List Request) :
    (d.serveAll (rs ++ rs')).2 = ((d.serveAll rs).2.serveAll rs').2 := by
  induction rs generalizing d with
  | nil => rfl
  | cons r rs ih => exact ih (d.serve r).2

theorem Holds.addAll (h : Holds v l b d) (hplaced : ∀ s ∈ added, s.location ≠ 0) :
    ∃ l', Holds v l' (addAll b added) (d.serveAll (added.map .add)).2 := by
  induction added generalizing b d l with
  | nil => exact ⟨l, h⟩
  | cons s added ih =>
    obtain ⟨-, l', h'⟩ := h.add s (hplaced s List.mem_cons_self)
    exact ih h' fun t ht => hplaced t (List.mem_cons_of_mem _ ht)

/-- Only what was added has come to the board. -/
theorem serveAll_added (d : Board) (added : List Mp1BlinkStruct) :
    (d.serveAll (added.map .add)).2.blinkers.length ≤ d.blinkers.length + added.length ∧
      ∀ e ∈ (d.serveAll (added.map .add)).2.blinkers,
        e ∈ d.blinkers ∨ ∃ s ∈ added, e.location = s.location := by
  induction added generalizing d with
  | nil => exact ⟨Nat.le_refl _, fun e he => Or.inl he⟩
  | cons s added ih =>
    obtain ⟨hlen, hmem⟩ := ih (d.add s.toBlinker).2
    have hone : (d.add s.toBlinker).2.blinkers.length ≤ d.blinkers.length + 1 ∧
        ∀ e ∈ (d.add s.toBlinker).2.blinkers, e ∈ d.blinkers ∨ e.location = s.location := by
      unfold Board.add
      split
      · exact ⟨Nat.le_succ _, fun e he => Or.inl he⟩
      · refine ⟨Nat.le_refl _, fun e he => ?_⟩
        rcases List.mem_cons.mp he with rfl | he
        · exact Or.inr rfl
        · exact Or.inl he
    refine ⟨?_, fun e he => ?_⟩
    · show (((d.add s.toBlinker).2).serveAll (added.map .add)).2.blinkers.length ≤ _
      rw [List.length_cons]
      omega
    · rcases hmem e he with he | ⟨t, ht, heq⟩
      · exact (hone.2 e he).imp_right fun heq => ⟨s, List.mem_cons_self, heq⟩
      · exact Or.inr ⟨t, List.mem_cons_of_mem _ ht, heq⟩

theorem elsewhere_added {location : UInt16} (h : ∀ t ∈ added, t.location ≠ location) :
    ∀ r ∈ added.map Request.add, r.Elsewhere location := by
  intro r hr
  obtain ⟨t, ht, rfl⟩ := List.mem_map.mp hr
  exact h t ht

theorem ticks_added (added : List Mp1BlinkStruct) : ticks (added.map .add) = 0 := by
  unfold ticks
  rw [List.countP_map]
  exact List.countP_eq_zero.mpr fun _ _ => Bool.false_ne_true

/-- Distinct locations all find room. -/
theorem Rising.length_le {hi : Nat} (h : Rising lo hi added) : added.length ≤ hi := by
  have hnodup : (added.map fun s => s.location.toNat).Nodup :=
    List.pairwise_map.mpr (h.up.imp Nat.ne_of_lt)
  have hsub : (added.map fun s => s.location.toNat) ⊆ List.range hi := by
    intro n hn
    obtain ⟨s, hs, rfl⟩ := List.mem_map.mp hn
    exact List.mem_range.mpr (h.within s hs).2
  have hle := (List.subperm_of_subset hnodup hsub).length_le
  rwa [List.length_map, List.length_range] at hle

/-- Each of them blinks. -/
theorem shows_added (v : Buf) (hrising : Rising lo cells added) (hs : s ∈ added)
    (hblinks : s.Blinks) :
    Shows ((Board.start v).serveAll (added.map .add)).2 s.toBlinker 0 := by
  obtain ⟨before, after, rfl⟩ := List.append_of_mem hs
  have hroom := hrising.length_le
  rw [List.length_append, List.length_cons] at hroom
  have hup := List.pairwise_append.mp hrising.up
  obtain ⟨hlen, hmem⟩ := serveAll_added (Board.start v) before
  have hnew : ∀ e ∈ ((Board.start v).serveAll (before.map .add)).2.blinkers,
      e.location ≠ s.location := by
    intro e he heq
    rcases hmem e he with he | ⟨t, ht, hloc⟩
    · exact absurd he List.not_mem_nil
    · have hlt := hup.2.2 t ht s List.mem_cons_self
      rw [← hloc, heq] at hlt
      exact Nat.lt_irrefl _ hlt
  have hlen' : ((Board.start v).serveAll (before.map .add)).2.blinkers.length < cells := by
    have hzero : (Board.start v).blinkers.length = 0 := rfl
    omega
  have hadd := shows_add hlen' (hrising.within s hs).2 hblinks hnew
  have hother : ∀ t ∈ after, t.location ≠ s.location := by
    intro t ht heq
    have hlt := (List.pairwise_cons.mp hup.2.1).1 t ht
    rw [heq] at hlt
    exact Nat.lt_irrefl _ hlt
  have hrest := hadd.serveAll hblinks (elsewhere_added hother)
  rw [ticks_added] at hrest
  rw [List.map_append, serveAll_append]
  exact hrest

/-- Where nothing is added all is as at the start. -/
theorem place_added (v : Buf) {location : UInt16} (h : ∀ t ∈ added, t.location ≠ location) :
    ((Board.start v).serveAll (added.map .add)).2.place location =
      ([], v (location.toNat * 2)) := by
  have hplace := serveAll_place (Board.start v) (elsewhere_added h)
  rw [ticks_added] at hplace
  exact hplace

end Run

/-- The two files take turns, wherever one of them has something to show, and the rest of the screen
    stays as it was: at every location that nothing else is done to. -/
theorem fish_animates (s : Mp1BlinkStruct) (v : Buf) {file0 file1 : List UInt8}
    (h0 : OnScreen 0 (file0.splitOn newline)) (h1 : OnScreen 0 (file1.splitOn newline)) :
    (addFrames s).Ensures ⟨.start v, .start file0, .start file1⟩ fun _ m => ∀ location rs,
      location.toNat < cells → (∀ r ∈ rs, r.Placed ∧ r.Elsewhere location) →
        (serveAll rs).Ensures m.blink fun _ b => b.videoMem (location.toNat * 2) =
          animation v (file0.splitOn newline) (file1.splitOn newline) location.toNat
            (ticks rs) := by
  refine (addFrames_adds s (.start v) file0 file1).mono ?_
  rintro _ m hm location rs hin hrs
  generalize hcell : ({ s with onLength := 15, offLength := 15 } : Mp1BlinkStruct) = cell at hm
  have hrising := frameCells_rising (s := cell) _ _ h0 h1
  obtain ⟨l, hholds⟩ := (start_holds v).addAll fun t ht => by
    have hge := (hrising.within t ht).1
    intro hzero
    rw [hzero, show (0 : UInt16).toNat = 0 from rfl] at hge
    omega
  rw [← hm] at hholds
  refine (hholds.serveAll fun r hr => (hrs r hr).1).mono ?_
  rintro _ b ⟨-, l', h'⟩
  rw [h'.char hin]
  have hrs' := fun r hr => (hrs r hr).2
  unfold animation
  dsimp only
  split
  · rename_i hnone
    have hfree := frameCells_elsewhere (s := cell) h0 h1 hnone
    have hrun := serveAll_place ((Board.start v).serveAll ((frameCells cell 0
      (file0.splitOn newline) (file1.splitOn newline)).map .add)).2 hrs'
    rw [place_added v hfree, placeTick_none] at hrun
    exact congrArg Prod.snd hrun
  · rename_i hplace
    obtain ⟨hge, hsome⟩ := not_or.mp hplace
    have hsome := not_and_or.mp hsome
    have hloc : UInt16.ofNat ((location.toNat - 40) / 80 * 80 + (location.toNat - 40) % 80 + 40) =
        location := by
      rw [Nat.div_add_mod', Nat.sub_add_cancel (Nat.le_of_not_lt hge), UInt16.ofNat_toNat]
    have hmem := frameCells_mem cell hsome
    have hblinks : ∀ e : Blinker, e.onLength = 15 → e.offLength = 15 → e.Blinks :=
      fun e hon hoff => ⟨by rw [hon]; decide, by rw [hoff]; decide⟩
    subst hcell
    rw [hloc] at hmem
    exact ((shows_added v hrising hmem (hblinks _ rfl rfl)).serveAll (hblinks _ rfl rfl)
      hrs').char.trans (by rw [Nat.zero_add]; rfl)

/-- A fish of two lines that moves. -/
theorem fish_animates_minnow :
    (addFrames .zero).Ensures
      ⟨.start fun _ => 0, .start [0x3E, 0x3C, newline, 0x6F], .start [blank, 0x3E, 0x3C]⟩
      fun _ m => ∀ location rs,
        location.toNat < cells → (∀ r ∈ rs, r.Placed ∧ r.Elsewhere location) →
          (serveAll rs).Ensures m.blink fun _ b => b.videoMem (location.toNat * 2) =
            animation (fun _ => 0) ([0x3E, 0x3C, newline, 0x6F].splitOn newline)
              ([blank, 0x3E, 0x3C].splitOn newline) location.toNat (ticks rs) :=
  fish_animates .zero _ (by decide) (by decide)

end LmaOS.Fish
