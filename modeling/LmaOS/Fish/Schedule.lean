import Mathlib.Logic.Function.Iterate
import LmaOS.Fish.Board

/-
  How a character blinks.

  A blinker that is added is on for `onLength` ticks and then off for `offLength`, again and again:
  after `n` ticks it is at `phase n` of its cycle. `blink_schedule` says this of the byte in the
  video memory, over every run of requests that has nothing to do with its location.

  `zero_location_hangs`: a structure at location 0 is taken for a free one. After two additions the
  list runs in a circle.
-/
namespace LmaOS.Fish

open Util

/-! ## One blinker -/

section Phase

variable {e : Blinker}

/-- Both lengths are positive as signed numbers. -/
structure Blinker.Blinks (e : Blinker) : Prop where
  on : 0 < e.onLength.toNat ∧ e.onLength.toNat < 32768
  off : 0 < e.offLength.toNat ∧ e.offLength.toNat < 32768

instance (e : Blinker) : Decidable e.Blinks :=
  decidable_of_iff ((0 < e.onLength.toNat ∧ e.onLength.toNat < 32768) ∧
    0 < e.offLength.toNat ∧ e.offLength.toNat < 32768) ⟨fun h => ⟨h.1, h.2⟩, fun h => ⟨h.1, h.2⟩⟩

/-- The ticks of a cycle. -/
def Blinker.cycle (e : Blinker) : Nat := e.onLength.toNat + e.offLength.toNat

/-- On or off, with `k` ticks to go. -/
def Blinker.lit (e : Blinker) (k : Nat) : Blinker :=
  { e with status := 1, countdown := UInt16.ofNat k }

def Blinker.dark (e : Blinker) (k : Nat) : Blinker :=
  { e with status := 0, countdown := UInt16.ofNat k }

/-- The blinker `n` ticks after it was added. -/
def Blinker.phase (e : Blinker) (n : Nat) : Blinker :=
  if n % e.cycle < e.onLength.toNat then e.lit (e.onLength.toNat - n % e.cycle)
  else e.dark (e.cycle - n % e.cycle)

/-- The character shown then. -/
def Blinker.shown (e : Blinker) (n : Nat) : UInt8 :=
  if n % e.cycle < e.onLength.toNat then e.onChar else e.offChar

theorem above_ofNat {n : Nat} (h : n < 32768) : Blink.above (UInt16.ofNat n) = decide (0 < n) := by
  unfold Blink.above
  rw [UInt16.toNat_ofNat', Nat.mod_eq_of_lt (by omega)]
  refine decide_eq_decide.mpr ⟨And.left, fun hpos => ⟨hpos, h⟩⟩

theorem ofNat_pred {n : Nat} (hpos : 0 < n) : UInt16.ofNat n - 1 = UInt16.ofNat (n - 1) :=
  (UInt16.ofNat_sub hpos).symm

/-- The next place in a cycle. -/
theorem mod_next (n c : Nat) (hc : 0 < c) :
    (n + 1) % c = if n % c + 1 = c then 0 else n % c + 1 := by
  have hlt := Nat.mod_lt n hc
  rw [← Nat.mod_add_mod]
  split
  · rename_i hend
    rw [hend, Nat.mod_self]
  · exact Nat.mod_eq_of_lt (by omega)

/-- A countdown that does not come to its end. -/
theorem due_ofNat {k : Nat} (hcount : e.countdown = UInt16.ofNat k) (hpos : 0 < k)
    (hk : k < 32768) : e.due = decide (k = 1) := by
  unfold Blinker.due
  rw [hcount, ofNat_pred hpos, above_ofNat (by omega), ← decide_not]
  exact decide_eq_decide.mpr (by omega)

theorem lit_tick {k : Nat} (hk : 1 < k ∧ k < 32768) :
    (e.lit k).due = false ∧ (e.lit k).tick = e.lit (k - 1) := by
  have hdue : (e.lit k).due = false :=
    (due_ofNat rfl (by omega) hk.2).trans (decide_eq_false (by omega))
  refine ⟨hdue, ?_⟩
  unfold Blinker.tick
  rw [hdue, if_neg Bool.false_ne_true]
  unfold Blinker.lit
  dsimp only
  rw [ofNat_pred (by omega)]

theorem dark_tick {k : Nat} (hk : 1 < k ∧ k < 32768) :
    (e.dark k).due = false ∧ (e.dark k).tick = e.dark (k - 1) := by
  have hdue : (e.dark k).due = false :=
    (due_ofNat rfl (by omega) hk.2).trans (decide_eq_false (by omega))
  refine ⟨hdue, ?_⟩
  unfold Blinker.tick
  rw [hdue, if_neg Bool.false_ne_true]
  unfold Blinker.dark
  dsimp only
  rw [ofNat_pred (by omega)]

/-- At its end it is the other character's turn. -/
theorem lit_end : (e.lit 1).due = true ∧ (e.lit 1).turn = e.offChar ∧
    (e.lit 1).tick = e.dark e.offLength.toNat := by
  have hon : (e.lit 1).isOn = true := show decide ((1 : UInt16) &&& 1 ≠ 0) = true by decide
  have hdue : (e.lit 1).due = true := due_ofNat rfl Nat.one_pos (by decide)
  unfold Blinker.turn Blinker.tick Blinker.dark
  rw [hdue, hon, if_pos rfl, if_pos rfl, if_pos rfl, UInt16.ofNat_toNat]
  refine ⟨rfl, rfl, ?_⟩
  show ({ e with countdown := e.offLength, status := 1 ^^^ 1 } : Blinker) = _
  rw [show (1 : UInt16) ^^^ 1 = 0 by decide]

theorem dark_end : (e.dark 1).due = true ∧ (e.dark 1).turn = e.onChar ∧
    (e.dark 1).tick = e.lit e.onLength.toNat := by
  have hoff : (e.dark 1).isOn = false := show decide ((0 : UInt16) &&& 1 ≠ 0) = false by decide
  have hdue : (e.dark 1).due = true := due_ofNat rfl Nat.one_pos (by decide)
  unfold Blinker.turn Blinker.tick Blinker.lit
  rw [hdue, hoff, if_pos rfl, if_neg Bool.false_ne_true, if_neg Bool.false_ne_true,
    UInt16.ofNat_toNat]
  refine ⟨rfl, rfl, ?_⟩
  show ({ e with countdown := e.onLength, status := 0 ^^^ 1 } : Blinker) = _
  rw [show (0 : UInt16) ^^^ 1 = 1 by decide]

/-- A tick later it is one further in its cycle, and the character changes if it is due. -/
theorem Blinker.phase_tick (h : e.Blinks) (n : Nat) : (e.phase n).tick = e.phase (n + 1) ∧
    (if (e.phase n).due then (e.phase n).turn else e.shown n) = e.shown (n + 1) := by
  obtain ⟨hon, hoff⟩ := h
  have hcycle : e.cycle = e.onLength.toNat + e.offLength.toNat := rfl
  have hlt := Nat.mod_lt n (show 0 < e.cycle by omega)
  have hnext := mod_next n e.cycle (by omega)
  unfold Blinker.phase Blinker.shown
  by_cases hphase : n % e.cycle < e.onLength.toNat
  · rw [if_neg (by omega)] at hnext
    rw [if_pos hphase, if_pos hphase, hnext]
    by_cases hlast : n % e.cycle + 1 = e.onLength.toNat
    · have hone : e.onLength.toNat - n % e.cycle = 1 := by omega
      obtain ⟨hdue, hturn, htick⟩ := lit_end (e := e)
      rw [hone, hdue, if_pos rfl, hturn, htick, if_neg (by omega), if_neg (by omega)]
      exact ⟨congrArg e.dark (by omega), rfl⟩
    · obtain ⟨hdue, htick⟩ := lit_tick (e := e) (k := e.onLength.toNat - n % e.cycle) (by omega)
      rw [hdue, if_neg Bool.false_ne_true, htick, if_pos (by omega), if_pos (by omega)]
      exact ⟨congrArg e.lit (by omega), rfl⟩
  · rw [if_neg hphase, if_neg hphase, hnext]
    by_cases hlast : n % e.cycle + 1 = e.cycle
    · have hone : e.cycle - n % e.cycle = 1 := by omega
      obtain ⟨hdue, hturn, htick⟩ := dark_end (e := e)
      rw [hone, hdue, if_pos rfl, hturn, htick, if_pos hlast, if_pos hon.1, if_pos hon.1]
      exact ⟨rfl, rfl⟩
    · obtain ⟨hdue, htick⟩ := dark_tick (e := e) (k := e.cycle - n % e.cycle) (by omega)
      rw [hdue, if_neg Bool.false_ne_true, htick, if_neg hlast, if_neg (by omega),
        if_neg (by omega)]
      exact ⟨congrArg e.dark (by omega), rfl⟩

end Phase

/-! ## One location of the board -/

/-- The request has nothing to do with the location. -/
def Request.Elsewhere (location : UInt16) : Request → Prop
  | .add s => s.location ≠ location
  | .remove arg => arg.toUInt16 ≠ location
  | .sync arg => (arg &&& 0xFFFF).toUInt16 ≠ location
  | .find _ | .tick => True

instance (location : UInt16) : DecidablePred (Request.Elsewhere location)
  | .add s => inferInstanceAs (Decidable (s.location ≠ location))
  | .remove arg => inferInstanceAs (Decidable (arg.toUInt16 ≠ location))
  | .sync arg => inferInstanceAs (Decidable ((arg &&& 0xFFFF).toUInt16 ≠ location))
  | .find _ | .tick => isTrue trivial

def ticks (rs : List Request) : Nat :=
  rs.countP fun r => match r with
    | .tick => true
    | _ => false

/-- The board has one blinker at the location of `e`, and that is `n` ticks old. -/
structure Shows (d : Board) (e : Blinker) (n : Nat) : Prop where
  only : d.blinkers.filter (Blinker.isAt e.location) = [e.phase n]
  char : d.display e.location.toNat = e.shown n

/-- What is at a location: the blinkers there, and the character. -/
def Board.place (d : Board) (location : UInt16) : List Blinker × UInt8 :=
  (d.blinkers.filter (Blinker.isAt location), d.display location.toNat)

/-- One blinker's part of a tick on the character. -/
def charTick (c : UInt8) (e : Blinker) : UInt8 := if e.due then e.turn else c

def placeTick (p : List Blinker × UInt8) : List Blinker × UInt8 :=
  (p.1.map Blinker.tick, p.1.foldl charTick p.2)

section Shows

variable {location target : UInt16} {l : List Blinker} {d : Board} {e : Blinker} {n : Nat}

theorem isAt_of_ne {x : Blinker} (h : x.isAt target = true) (hne : target ≠ location) :
    x.isAt location = false :=
  decide_eq_false fun he => hne ((of_decide_eq_true h).symm.trans he)

/-- Erasing at another location. -/
theorem filter_eraseP (hne : target ≠ location) (l : List Blinker) :
    (l.eraseP (Blinker.isAt target)).filter (Blinker.isAt location) =
      l.filter (Blinker.isAt location) := by
  induction l with
  | nil => rfl
  | cons x l ih =>
    rw [List.eraseP_cons]
    cases hx : x.isAt target with
    | true => rw [cond_true, List.filter_cons, isAt_of_ne hx hne, if_neg Bool.false_ne_true]
    | false => rw [cond_false, List.filter_cons, List.filter_cons, ih]

/-- Changing a blinker at another location. -/
theorem filter_modifyFirst (hne : target ≠ location) {f : Blinker → Blinker}
    (hf : ∀ x, (f x).location = x.location) (l : List Blinker) :
    (modifyFirst (Blinker.isAt target) f l).filter (Blinker.isAt location) =
      l.filter (Blinker.isAt location) := by
  induction l with
  | nil => rfl
  | cons x l ih =>
    rw [modifyFirst]
    cases hx : x.isAt target with
    | true =>
      have hx' : (f x).isAt target = true := by
        unfold Blinker.isAt
        rw [hf]
        exact hx
      rw [if_pos rfl, List.filter_cons, List.filter_cons, isAt_of_ne hx hne, isAt_of_ne hx' hne,
        if_neg Bool.false_ne_true, if_neg Bool.false_ne_true]
    | false => rw [if_neg Bool.false_ne_true, List.filter_cons, List.filter_cons, ih]

theorem filter_tick (location : UInt16) (l : List Blinker) :
    (l.map Blinker.tick).filter (Blinker.isAt location) =
      (l.filter (Blinker.isAt location)).map Blinker.tick := by
  rw [List.filter_map]
  refine congrArg _ (List.filter_congr fun x _ => ?_)
  show decide (x.tick.location = location) = _
  rw [tick_location]
  rfl

/-- What a tick shows at a location depends on the blinkers there only. -/
theorem foldl_blink (location : UInt16) (l : List Blinker) (display : Nat → UInt8) :
    l.foldl Board.blink display location.toNat =
      (l.filter (Blinker.isAt location)).foldl charTick (display location.toNat) := by
  induction l generalizing display with
  | nil => rfl
  | cons x l ih =>
    rw [List.foldl_cons, List.filter_cons, ih]
    unfold Board.blink
    cases hx : x.isAt location with
    | true =>
      have hloc : x.location = location := of_decide_eq_true hx
      rw [if_pos rfl, List.foldl_cons]
      refine congrArg (List.foldl charTick · _) ?_
      unfold charTick
      split
      · rw [hloc, Function.update_self]
      · rfl
    | false =>
      have hne : location.toNat ≠ x.location.toNat := fun he =>
        Bool.false_ne_true (hx.symm.trans (decide_eq_true (UInt16.toNat_inj.mp he.symm)))
      rw [if_neg Bool.false_ne_true]
      refine congrArg (List.foldl charTick · _) ?_
      split
      · exact Function.update_of_ne hne _ _
      · rfl

/-- A character stored elsewhere. -/
theorem write_elsewhere (d : Board) (c : UInt8) (hne : target ≠ location) :
    (d.write target c).display location.toNat = d.display location.toNat :=
  Function.update_of_ne (fun he => hne (UInt16.toNat_inj.mp he.symm)) _ _

theorem tick_place (d : Board) (location : UInt16) :
    d.tick.place location = placeTick (d.place location) :=
  Prod.ext (filter_tick location d.blinkers) (foldl_blink location d.blinkers d.display)

/-- Of all requests that have nothing to do with a location, only a tick changes what is there. -/
theorem serve_place (d : Board) {r : Request} (hr : r.Elsewhere location) :
    (d.serve r).2.place location = placeTick^[ticks [r]] (d.place location) := by
  cases r with
  | add s =>
    show (d.add s.toBlinker).2.place location = d.place location
    unfold Board.add
    split
    · rfl
    · have hs : s.fresh.isAt location = false := decide_eq_false hr
      refine Prod.ext ?_ (write_elsewhere _ _ hr)
      show (s.fresh :: d.blinkers).filter _ = _
      rw [List.filter_cons, hs, if_neg Bool.false_ne_true]
      rfl
  | remove arg =>
    show (d.remove arg.toUInt16).2.place location = d.place location
    unfold Board.remove
    split
    · rfl
    · exact Prod.ext (filter_eraseP hr d.blinkers) rfl
  | find target =>
    show (Board.serve d (.find target)).2.place location = d.place location
    unfold Board.serve
    dsimp only
    split <;> rfl
  | sync arg =>
    show (d.sync (arg >>> 16).toUInt16 (arg &&& 0xFFFF).toUInt16).2.place location =
      d.place location
    unfold Board.sync
    split
    · rename_i s t _ _
      have hfilter := filter_modifyFirst hr (f := (·.syncTo s)) (fun _ => rfl) d.blinkers
      exact Prod.ext hfilter (write_elsewhere _ _ hr)
    · rfl
  | tick => exact tick_place d location

theorem ticks_cons (r : Request) (rs : List Request) : ticks (r :: rs) = ticks rs + ticks [r] := by
  unfold ticks
  rw [List.countP_cons, List.countP_cons, List.countP_nil, Nat.zero_add]

theorem serveAll_place (d : Board) {rs : List Request} (hrs : ∀ r ∈ rs, r.Elsewhere location) :
    (d.serveAll rs).2.place location = placeTick^[ticks rs] (d.place location) := by
  induction rs generalizing d with
  | nil => rfl
  | cons r rs ih =>
    show ((d.serve r).2.serveAll rs).2.place location = _
    rw [ih _ fun r hr => hrs r (List.mem_cons_of_mem _ hr),
      serve_place d (hrs r List.mem_cons_self), ticks_cons r rs, Function.iterate_add_apply]

/-- Where there is no blinker, nothing happens. -/
theorem placeTick_none (c : UInt8) (k : Nat) : placeTick^[k] ([], c) = ([], c) :=
  Function.iterate_fixed rfl k

/-- A blinker gets older with every tick. -/
theorem placeTick_phase (he : e.Blinks) (n k : Nat) :
    placeTick^[k] ([e.phase n], e.shown n) = ([e.phase (n + k)], e.shown (n + k)) := by
  induction k with
  | zero => rfl
  | succ k ih =>
    obtain ⟨htick, hshown⟩ := Blinker.phase_tick he (n + k)
    rw [Function.iterate_succ_apply', ih, ← Nat.add_assoc, ← htick, ← hshown]
    rfl

theorem Shows.serveAll (h : Shows d e n) (he : e.Blinks) {rs : List Request}
    (hrs : ∀ r ∈ rs, r.Elsewhere e.location) :
    Shows (d.serveAll rs).2 e (n + ticks rs) := by
  have hplace : d.place e.location = ([e.phase n], e.shown n) := Prod.ext h.only h.char
  have hrun := serveAll_place d hrs
  rw [hplace, placeTick_phase he] at hrun
  exact ⟨congrArg Prod.fst hrun, congrArg Prod.snd hrun⟩

end Shows

/-- The board after an addition at a new location. -/
theorem shows_add {d : Board} {e : Blinker} (hroom : d.blinkers.length < cells)
    (hin : e.location.toNat < cells) (he : e.Blinks)
    (hnew : ∀ x ∈ d.blinkers, x.location ≠ e.location) : Shows (d.add e).2 e 0 := by
  have hon : 0 % e.cycle < e.onLength.toNat := by
    rw [Nat.zero_mod]
    exact he.on.1
  unfold Board.add
  rw [if_neg (not_or.mpr ⟨Nat.not_le.mpr hin, Nat.not_le.mpr hroom⟩)]
  refine ⟨?_, ?_⟩
  · have hnone : d.blinkers.filter (Blinker.isAt e.location) = [] :=
      List.filter_eq_nil_iff.mpr fun x hx h => hnew x hx (of_decide_eq_true h)
    have hfresh : e.fresh.isAt e.location = true := decide_eq_true rfl
    show (e.fresh :: d.blinkers).filter _ = _
    unfold Blinker.phase
    rw [List.filter_cons, hfresh, if_pos rfl, hnone, if_pos hon, Nat.zero_mod]
    unfold Blinker.lit
    rw [Nat.sub_zero, UInt16.ofNat_toNat]
    rfl
  · unfold Blinker.shown
    rw [if_pos hon]
    exact Function.update_self _ _ _

/-- A character that is added blinks in the video memory in its rhythm, whatever else goes on. -/
theorem blink_schedule {v : Buf} {l : List Nat} {b : Blink} {d : Board} (h : Holds v l b d)
    {s : Mp1BlinkStruct} (hroom : d.blinkers.length < cells)
    (hin : s.location ≠ 0 ∧ s.location.toNat < cells) (hs : s.Blinks)
    (hnew : ∀ e ∈ d.blinkers, e.location ≠ s.location) {rs : List Request}
    (hrs : ∀ r ∈ rs, r.Placed ∧ r.Elsewhere s.location) :
    (serveAll (.add s :: rs)).Ensures b fun _ b' => b'.videoMem (s.location.toNat * 2) =
      if ticks rs % (s.onLength.toNat + s.offLength.toNat) < s.onLength.toNat then s.onChar
      else s.offChar := by
  have hplaced : ∀ r ∈ Request.add s :: rs, r.Placed := List.forall_mem_cons.mpr
    ⟨hin.1, fun r hr => (hrs r hr).1⟩
  refine (h.serveAll hplaced).mono ?_
  rintro _ b' ⟨-, l', h'⟩
  have hshows := (shows_add hroom hin.2 hs hnew).serveAll hs fun r hr => (hrs r hr).2
  rw [Nat.zero_add] at hshows
  exact (h'.char hin.2).trans hshows.char

/-- The letter "A" of an empty board, with 31 ticks: its cycle has 30. -/
theorem blink_schedule_letterA :
    (serveAll (.add letterA :: .add letterI :: .remove 540 :: List.replicate 31 .tick)).Ensures
      (Blink.start fun _ => 0) fun _ b' => b'.videoMem (40 * 2) =
        if ticks (.add letterI :: .remove 540 :: List.replicate 31 .tick) % (15 + 15) < 15 then 0x41
        else 0x20 :=
  blink_schedule (start_holds _) (by decide) (by decide) (by decide)
    (fun _ he => absurd he List.not_mem_nil) (by decide)

/-! ## Location 0 -/

/-- The requests that pass a blinker at `location` on their way along the list. -/
def Request.Passes (location : UInt16) : Request → Prop
  | .add _ => False
  | .remove arg => arg.toUInt16 ≠ location
  | .find target => target ≠ location
  | .sync arg => (arg >>> 16).toUInt16 ≠ location
  | .tick => True

section Circle

variable {b : Blink} {i : Nat}

/-- The head of the list is its own successor. -/
structure Circle (b : Blink) (i : Nat) : Prop where
  head : b.mp1ListHead = some i
  next : (b.blinkArray i).next = some i

theorem Circle.find (h : Circle b i) {ax : UInt16} (hne : ax ≠ (b.blinkArray i).location) :
    (mp1FindHelper ax).Hangs b := by
  refine .after rfl (.loop (fun ebx s => ebx = some i ∧ s = b) ?_ ⟨h.head, rfl⟩)
  rintro _ _ ⟨rfl, rfl⟩ n
  exact ⟨_, _, (if_neg hne.symm).trans (by rw [h.next]), rfl, rfl⟩

theorem Circle.tick (h : Circle b i) : mp1RtcTasklet.Hangs b := by
  refine .after rfl (.loop (fun ebx s => ebx = some i ∧ (s.blinkArray i).next = some i) ?_
    ⟨h.head, h.next⟩)
  rintro _ s ⟨rfl, hnext⟩ n
  have hkept : ((s.mp1Blink i).blinkArray i).next = some i := by
    rw [mp1Blink_eq]
    generalize (if (s.blinkArray i).due = true then _ else _ : Blink) = s'
    show (Function.update s'.blinkArray i _ i).next = some i
    rw [Function.update_self, hnext]
  exact ⟨_, _, rfl, hkept, hkept⟩

theorem Circle.serve (h : Circle b i) {r : Request} (hr : r.Passes (b.blinkArray i).location) :
    (serve r).Hangs b := by
  cases r with
  | add s => exact hr.elim
  | remove arg => exact .bind (.bind (h.find hr) _) _
  | find target => exact .bind (h.find hr) _
  | sync arg => exact .bind (.bind (h.find hr) _) _
  | tick => exact .bind h.tick _

end Circle

/-- A structure at location 0 stays free for `mp1_malloc`. The next addition takes it once more and
    makes it its own successor. -/
theorem add_zero_location {v : Buf} {l : List Nat} {b : Blink} {d : Board} (h : Holds v l b d)
    (hroom : d.blinkers.length < cells) {s t : Mp1BlinkStruct} (hs : s.location = 0)
    (ht : t.location.toNat < cells) : (b.mp1IoctlAdd s).1 = 0 ∧
      ((b.mp1IoctlAdd s).2.mp1IoctlAdd t).1 = 0 ∧
      ∃ i, Circle ((b.mp1IoctlAdd s).2.mp1IoctlAdd t).2 i ∧
        (((b.mp1IoctlAdd s).2.mp1IoctlAdd t).2.blinkArray i).location = t.location := by
  obtain ⟨i, hi⟩ : ∃ i, b.mp1Malloc = some i := by
    refine Option.ne_none_iff_exists'.mp fun hnone => ?_
    have hfull := h.malloc_eq_none.mp hnone
    omega
  have hin : ¬ cells ≤ s.location.toNat := by
    rw [hs]
    decide
  have hadd : ∀ (b : Blink) (s : Mp1BlinkStruct), ¬ cells ≤ s.location.toNat →
      b.mp1Malloc = some i → (b.mp1IoctlAdd s).1 = 0 ∧
        (b.mp1IoctlAdd s).2.mp1ListHead = some i ∧
        (b.mp1IoctlAdd s).2.blinkArray = Function.update b.blinkArray i
          ⟨s.fresh, b.mp1ListHead⟩ := by
    intro b s hin hi
    unfold Blink.mp1IoctlAdd
    rw [if_neg hin]
    dsimp only
    rw [hi]
    exact ⟨rfl, rfl, rfl⟩
  obtain ⟨hret, hhead, harray⟩ := hadd b s hin hi
  have hagain : (b.mp1IoctlAdd s).2.mp1Malloc = some i := by
    have hfree : (fun j => decide (((b.mp1IoctlAdd s).2.blinkArray j).location = 0)) =
        fun j => decide ((b.blinkArray j).location = 0) := by
      funext j
      rw [harray, Function.update_apply]
      split
      · rename_i hj
        rw [hj]
        have hzero : (b.blinkArray i).location = 0 := by
          by_contra hne
          exact (h.malloc_eq_some hi).2 ((h.slots i).mpr ⟨(h.malloc_eq_some hi).1, hne⟩)
        rw [hzero]
        exact decide_eq_decide.mpr (iff_of_true hs rfl)
      · rfl
    rw [← hi]
    unfold Blink.mp1Malloc
    rw [hfree]
  obtain ⟨hret', hhead', harray'⟩ := hadd _ t (Nat.not_le.mpr ht) hagain
  refine ⟨hret, hret', i, ⟨hhead', ?_⟩, ?_⟩
  · rw [harray', Function.update_self, hhead]
  · rw [harray', Function.update_self]
    rfl

/-- Two additions, the first at location 0, succeed, and in the state they leave no tick ends and no
    search for another location. -/
theorem zero_location_hangs {v : Buf} {l : List Nat} {b : Blink} {d : Board} (h : Holds v l b d)
    (hroom : d.blinkers.length < cells) {s t : Mp1BlinkStruct} (hs : s.location = 0)
    (ht : t.location.toNat < cells) : (serveAll [.add s, .add t]).Ensures b fun as b' =>
      as = [(0, none), (0, none)] ∧ ∀ r, Request.Passes t.location r → (serve r).Hangs b' := by
  obtain ⟨hret, hret', i, hcircle, hloc⟩ := add_zero_location h hroom hs ht
  refine .bind (.of rfl (.bind (.bind (.of rfl (.bind (.pure (.pure (.pure ⟨?_, ?_⟩))))))))
  · rw [hret, hret']
  · intro r hr
    rw [← hloc] at hr
    exact hcircle.serve hr

/-- The corner of the screen on an empty board, and then the letter "A". -/
theorem zero_location_hangs_letterA :
    (serveAll [.add { letterA with location := 0 }, .add letterA]).Ensures
      (Blink.start fun _ => 0) fun as b' =>
        as = [(0, none), (0, none)] ∧ ∀ r, Request.Passes 40 r → (serve r).Hangs b' :=
  zero_location_hangs (start_holds _) (by decide) rfl (by decide)

end LmaOS.Fish
