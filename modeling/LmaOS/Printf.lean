import Mathlib.Computability.StateTransition
import LmaOS.Screen
import LmaOS.Util.Numeral

/-
  `printf` of lib.c, with `itoa` and `strrev` and `puts` of a string in memory.

  `itoa` and `strrev` take the memory and the pointer into it. `printf` is a machine over the
  format string: it stands at one of the two points of the source that read `*buf`, the head of
  the loop and the label `format_char_switch`, and `printfStep` goes from there to the next one.
  `printf` itself is what the machine returns, if it does.

  `itoa_eq`: `itoa` stores the numeral of its argument and a NUL, and nothing else.
-/
namespace LmaOS

open Util

/-! ## strrev -/

/-- One swap a round, `fin` being the source's `end`. -/
def strrevLoop (s : Nat) : Nat → Nat → Nat → Buf → Buf
  | 0, _, _, mem => mem
  | n + 1, beg, fin, mem =>
      if beg < fin then
        let tmp := mem (s + fin)
        let mem := Function.update mem (s + fin) (mem (s + beg))
        strrevLoop s n (beg + 1) (fin - 1) (Function.update mem (s + beg) tmp)
      else mem

-- for an empty string the source starts with `end = -1`, which makes no round either
def strrev (mem : Buf) (s : Nat) : Buf :=
  let len := strlen (mem.drop s)
  strrevLoop s len 0 (len - 1) mem

theorem strrevLoop_eq (s : Nat) : ∀ n beg fin (mem : Buf), fin ≤ beg + 2 * n →
    strrevLoop s n beg fin mem = mem.reversed (s + beg) (s + fin)
  | 0, beg, fin, mem, h => (Buf.reversed_of_le (by omega)).symm
  | n + 1, beg, fin, mem, h => by
      rw [strrevLoop]
      split
      · rename_i hlt
        have hinner : s + (fin - 1) = s + fin - 1 := by omega
        dsimp only
        rw [strrevLoop_eq s n (beg + 1) (fin - 1) _ (by omega), hinner]
        exact Buf.reversed_swap (Nat.add_lt_add_left hlt s)
      · exact (Buf.reversed_of_le (by omega)).symm

/-- `strrev` reverses the string at `s` and leaves what follows it. -/
theorem strrev_eq {mem : Buf} {s : Nat} {l : List UInt8} (h0 : 0 ∉ l) (hl : 0 < l.length)
    (hlen : l.length < 4294967296) :
    strrev (mem.write s (l ++ [0])) s = mem.write s (l.reverse ++ [0]) := by
  unfold strrev
  dsimp only
  rw [strlen_spells (Buf.write_spells h0) hlen, strrevLoop_eq _ _ _ _ _ (by omega), Nat.add_zero,
    Buf.write_reversed hl]

/-! ## itoa -/

/-- The radix of a numeral the lookup table has digits for. -/
structure Radix where
  val : Nat
  two_le : 2 ≤ val
  le_36 : val ≤ 36

def decimal : Radix := ⟨10, by decide, by decide⟩
def hexadecimal : Radix := ⟨16, by decide, by decide⟩

def lookup : List UInt8 := bytes "0123456789ABCDEFGHIJKLMNOPQRSTUVWXYZ"

def digitChar (d : Nat) : UInt8 := lookup.getD d 0

/-- One digit a round, the lowest first; `n` bounds the rounds. -/
def itoaLoop (radix : Radix) : Nat → Nat → Nat → Buf → Nat × Buf
  | 0, _, newbuf, mem => (newbuf, mem)
  | n + 1, newval, newbuf, mem =>
      if newval > 0 then
        itoaLoop radix n (newval / radix.val) (newbuf + 1)
          (Function.update mem newbuf (digitChar (newval % radix.val)))
      else (newbuf, mem)

-- every round makes `newval` smaller, so the value itself bounds their number
def itoa (value : UInt32) (mem : Buf) (buf : Nat) (radix : Radix) : Buf :=
  if value = 0 then Function.update (Function.update mem buf 0x30) (buf + 1) 0
  else
    let (newbuf, mem) := itoaLoop radix value.toNat value.toNat buf mem
    strrev (Function.update mem newbuf 0) buf

theorem itoaLoop_eq (radix : Radix) : ∀ n newval newbuf (mem : Buf), newval ≤ n →
    itoaLoop radix n newval newbuf mem =
      (newbuf + (Nat.digits radix.val newval).length,
        mem.write newbuf ((Nat.digits radix.val newval).map digitChar))
  | 0, newval, newbuf, mem, h => by
      rw [Nat.le_zero.mp h, Nat.digits_zero, List.map_nil, Buf.write_nil]
      rfl
  | n + 1, newval, newbuf, mem, h => by
      have hradix := radix.two_le
      rw [itoaLoop]
      split
      · rename_i hpos
        have hless : newval / radix.val < newval := Nat.div_lt_self hpos hradix
        rw [itoaLoop_eq radix n _ _ _ (by omega), Nat.digits_def' hradix hpos, List.map_cons,
          List.length_cons, Buf.update_eq_write,
          show newbuf + 1 = newbuf + [digitChar (newval % radix.val)].length from rfl,
          Buf.write_append, List.singleton_append, List.length_singleton]
        congr 1
        omega
      · rename_i hzero
        rw [Nat.eq_zero_of_not_pos hzero, Nat.digits_zero, List.map_nil, Buf.write_nil]
        rfl

theorem digitChar_ne_zero {d : Nat} (hd : d < 36) : digitChar d ≠ 0 := by
  have hall : ∀ d < 36, digitChar d ≠ 0 := by decide
  exact hall d hd

theorem digitChars_noNul {radix : Radix} {ds : List Nat} (h : ∀ d ∈ ds, d < radix.val) :
    0 ∉ ds.map digitChar := by
  intro h0
  obtain ⟨d, hd, he⟩ := List.mem_map.mp h0
  exact digitChar_ne_zero (Nat.lt_of_lt_of_le (h d hd) radix.le_36) he

/-- The digits of a word, thirty-two of them at most. -/
theorem numeral_length_word (radix : Radix) (value : UInt32) :
    (numeral radix.val value.toNat).length ≤ 32 := by
  refine numeral_length_le radix.two_le (by decide) ?_
  exact Nat.lt_of_lt_of_le value.toNat_lt (Nat.pow_le_pow_left radix.two_le 32)

/-- `itoa` stores the numeral and its NUL, and changes no other byte. -/
theorem itoa_eq (value : UInt32) (mem : Buf) (buf : Nat) (radix : Radix) :
    itoa value mem buf radix =
      mem.write buf ((numeral radix.val value.toNat).map digitChar ++ [0]) := by
  unfold itoa
  split
  · rename_i hzero
    rw [hzero, Buf.update_eq_write, Buf.update_eq_write]
    exact Buf.write_append
  · rename_i hzero
    have hne : value.toNat ≠ 0 := fun he => hzero (UInt32.toNat_inj.mp he)
    have hlen := numeral_length_word radix value
    have hnumeral := numeral_isNumeral radix.two_le value.toNat
    have hrev : numeral radix.val value.toNat = (Nat.digits radix.val value.toNat).reverse :=
      if_neg hne
    have hdigits : ∀ d ∈ Nat.digits radix.val value.toNat, d < radix.val :=
      fun d hd => Nat.digits_lt_base radix.two_le hd
    have hpos : 0 < (Nat.digits radix.val value.toNat).length :=
      List.length_pos_of_ne_nil (Nat.digits_ne_nil_iff_ne_zero.mpr hne)
    rw [hrev, List.length_reverse] at hlen
    rw [itoaLoop_eq radix _ _ _ _ (Nat.le_refl _)]
    dsimp only
    rw [Buf.update_eq_write, ← List.length_map digitChar, Buf.write_append,
      strrev_eq (digitChars_noNul hdigits) (by rwa [List.length_map])
        (by rw [List.length_map]; omega),
      hrev, List.map_reverse]

/-! ## puts -/

/-- `puts` of the string in memory. -/
def Screen.putsLoop (s : Buf) : Nat → Nat → Screen → Screen
  | 0, _, screen => screen
  | n + 1, index, screen =>
      if s index ≠ 0 then putsLoop s n (index + 1) (screen.putc (s index)) else screen

def Screen.putsString (screen : Screen) (s : Buf) : Screen := putsLoop s 4294967296 0 screen

theorem Screen.putsLoop_spells : ∀ (l : List UInt8) (s : Buf) n index (screen : Screen),
    (s.drop index).Spells l → l.length < n → putsLoop s n index screen = screen.puts l
  | _, _, 0, _, _, _, hn => absurd hn (Nat.not_lt_zero _)
  | [], s, n + 1, index, screen, h, _ => by
      have hend : s index = 0 := (Buf.startsWith_cons.mp h.2).1
      rw [putsLoop, if_neg (not_not.mpr hend)]
      rfl
  | c :: l, s, n + 1, index, screen, h, hn => by
      obtain ⟨hc, hrest⟩ := Buf.startsWith_cons.mp h.2
      have hc : s index = c := hc
      have hne : c ≠ 0 := fun he => h.1 (he ▸ List.mem_cons_self)
      rw [Buf.drop_drop] at hrest
      rw [putsLoop, hc, if_pos hne, putsLoop_spells l s n _ _
        ⟨fun h0 => h.1 (List.mem_cons_of_mem _ h0), hrest⟩ (Nat.lt_of_succ_lt_succ hn)]
      rfl

theorem Screen.putsString_spells {s : Buf} {l : List UInt8} (h : s.Spells l)
    (hl : l.length < 4294967296) (screen : Screen) : screen.putsString s = screen.puts l :=
  putsLoop_spells l s _ 0 screen (by rwa [Buf.drop_zero]) hl

/-! ## printf -/

/-- What a call of `printf` reads: the memory at `format`, the words behind it on the stack, the
    strings such a word may point to, and what `conv_buf` holds before a conversion stores to
    it. -/
structure PrintfCall where
  format : Buf
  args : Nat → UInt32
  stringAt : UInt32 → CString
  convBuf : Nat → Buf

/-- The points of `printf` that read `*buf`. -/
inductive PrintfLabel where
  | loop
  | formatCharSwitch (alternate : Bool)

/-- `buf` and `esp` count from `format` and from the first argument. `reads` lists the format
    bytes read on the way, in order. -/
structure PrintfState where
  label : PrintfLabel
  screen : Screen
  buf : Nat
  esp : Nat
  reads : List Nat

/-- `%#x` fills `conv_buf` up to index 8. -/
def zeroFillLoop : Nat → Nat → Buf → Buf
  | 0, _, conv => conv
  | n + 1, i, conv => zeroFillLoop n (i + 1) (Function.update conv i 0x30)

def putHex (screen : Screen) (value : UInt32) (conv : Buf) (alternate : Bool) : Screen :=
  if alternate = false then screen.putsString (itoa value conv 0 hexadecimal)
  else
    let conv := itoa value conv 8 hexadecimal
    let startingIndex := strlen (conv.drop 8)
    screen.putsString ((zeroFillLoop (8 - startingIndex) startingIndex conv).drop startingIndex)

def putUnsigned (screen : Screen) (value : UInt32) (conv : Buf) : Screen :=
  screen.putsString (itoa value conv 0 decimal)

def putSigned (screen : Screen) (value : UInt32) (conv : Buf) : Screen :=
  if int32 value.toNat < 0 then
    screen.putsString (itoa (-value) (Function.update conv 0 0x2D) 1 decimal)
  else screen.putsString (itoa value conv 0 decimal)

/-- The conversion `c` with its argument. -/
def PrintfCall.convert (call : PrintfCall) (c : UInt8) (alternate : Bool) (st : PrintfState) :
    PrintfState :=
  let value := call.args st.esp
  let conv := call.convBuf st.esp
  let taken (screen : Screen) : PrintfState := { st with screen := screen, esp := st.esp + 1 }
  if c = 0x25 then { st with screen := st.screen.putc 0x25 }
  else if c = 0x78 then taken (putHex st.screen value conv alternate)
  else if c = 0x75 then taken (putUnsigned st.screen value conv)
  else if c = 0x64 then taken (putSigned st.screen value conv)
  else if c = 0x63 then taken (st.screen.putc value.toUInt8)
  else if c = 0x73 then taken (st.screen.puts (call.stringAt value).chars)
  else st

/-- From one read of `*buf` to the next one; `none` when the loop ends. -/
def printfStep (call : PrintfCall) (st : PrintfState) : Option PrintfState :=
  let c := call.format st.buf
  let st := { st with reads := st.reads ++ [st.buf] }
  match st.label with
  | .loop =>
    if c = 0 then none
    else if c = 0x25 then
      some { st with label := .formatCharSwitch false, buf := st.buf + 1 }
    else some { st with screen := st.screen.putc c, buf := st.buf + 1 }
  | .formatCharSwitch alternate =>
    if c = 0x23 then some { st with label := .formatCharSwitch true, buf := st.buf + 1 }
    else some { call.convert c alternate st with label := .loop, buf := st.buf + 1 }

/-- The state in which `printf` returns, if it does; the value it returns is `buf`. -/
def printf (call : PrintfCall) (screen : Screen) : Part PrintfState :=
  StateTransition.eval (printfStep call) ⟨.loop, screen, 0, 0, []⟩

/-! ## Steps -/

section Steps

variable {call : PrintfCall} (screen : Screen) {buf : Nat} (esp : Nat) (reads : List Nat)

theorem printfStep_end (h : call.format buf = 0) :
    printfStep call ⟨.loop, screen, buf, esp, reads⟩ = none := by
  unfold printfStep
  dsimp only
  rw [if_pos h]

theorem printfStep_percent (h : call.format buf = 0x25) :
    printfStep call ⟨.loop, screen, buf, esp, reads⟩ =
      some ⟨.formatCharSwitch false, screen, buf + 1, esp, reads ++ [buf]⟩ := by
  unfold printfStep
  dsimp only
  rw [h]
  rfl

theorem printfStep_char (h0 : call.format buf ≠ 0) (h : call.format buf ≠ 0x25) :
    printfStep call ⟨.loop, screen, buf, esp, reads⟩ =
      some ⟨.loop, screen.putc (call.format buf), buf + 1, esp, reads ++ [buf]⟩ := by
  unfold printfStep
  dsimp only
  rw [if_neg h0, if_neg h]

theorem printfStep_hash (alternate : Bool) (h : call.format buf = 0x23) :
    printfStep call ⟨.formatCharSwitch alternate, screen, buf, esp, reads⟩ =
      some ⟨.formatCharSwitch true, screen, buf + 1, esp, reads ++ [buf]⟩ := by
  unfold printfStep
  dsimp only
  rw [if_pos h]

/-- A conversion prints, takes its argument and goes on behind its character. -/
theorem printfStep_convert (alternate : Bool) (h : call.format buf ≠ 0x23) :
    ∃ screen' esp', printfStep call ⟨.formatCharSwitch alternate, screen, buf, esp, reads⟩ =
      some ⟨.loop, screen', buf + 1, esp', reads ++ [buf]⟩ := by
  unfold printfStep
  dsimp only
  rw [if_neg h]
  unfold PrintfCall.convert
  dsimp only
  split
  · exact ⟨_, _, rfl⟩
  · split
    · exact ⟨_, _, rfl⟩
    · split
      · exact ⟨_, _, rfl⟩
      · split
        · exact ⟨_, _, rfl⟩
        · split
          · exact ⟨_, _, rfl⟩
          · split <;> exact ⟨_, _, rfl⟩

/-- Every step reads one byte of the format and goes to the next one. -/
theorem printfStep_buf {st st' : PrintfState} (h : printfStep call st = some st') :
    st'.buf = st.buf + 1 ∧ st'.reads = st.reads ++ [st.buf] := by
  obtain ⟨label, screen, buf, esp, reads⟩ := st
  cases label with
  | loop =>
    by_cases h0 : call.format buf = 0
    · rw [printfStep_end screen esp reads h0] at h
      exact absurd h (Option.some_ne_none _).symm
    · by_cases hc : call.format buf = 0x25
      · rw [printfStep_percent screen esp reads hc] at h
        exact Option.some.inj h ▸ ⟨rfl, rfl⟩
      · rw [printfStep_char screen esp reads h0 hc] at h
        exact Option.some.inj h ▸ ⟨rfl, rfl⟩
  | formatCharSwitch alternate =>
    by_cases hc : call.format buf = 0x23
    · rw [printfStep_hash screen esp reads alternate hc] at h
      exact Option.some.inj h ▸ ⟨rfl, rfl⟩
    · obtain ⟨screen', esp', he⟩ := printfStep_convert screen esp reads alternate hc
      rw [he] at h
      exact Option.some.inj h ▸ ⟨rfl, rfl⟩

/-! ## Runs -/

open Relation StateTransition

theorem range'_from (reads : List Nat) (buf n : Nat) :
    reads ++ List.range' buf (n + 1) = reads ++ [buf] ++ List.range' (buf + 1) n := by
  rw [List.range'_succ, List.append_assoc]
  rfl

/-- The jumps back to `format_char_switch`, one for every `#`. -/
theorem reaches_hashes : ∀ (hashes : Nat) (alternate : Bool) (buf : Nat) (reads : List Nat),
    (call.format.drop buf).StartsWith (List.replicate hashes 0x23) →
      Reaches (printfStep call) ⟨.formatCharSwitch alternate, screen, buf, esp, reads⟩
        ⟨.formatCharSwitch (alternate || decide (0 < hashes)), screen, buf + hashes, esp,
          reads ++ List.range' buf hashes⟩
  | 0, alternate, buf, reads, _ => by
      have hflag : (alternate || decide (0 < 0)) = alternate := Bool.or_false alternate
      rw [hflag, List.range'_zero, List.append_nil]
      exact ReflTransGen.refl
  | hashes + 1, alternate, buf, reads, h => by
      have hflag : (alternate || decide (0 < hashes + 1)) = (true || decide (0 < hashes)) := by
        rw [decide_eq_true (Nat.zero_lt_succ hashes), Bool.or_true, Bool.true_or]
      have hbuf : buf + (hashes + 1) = buf + 1 + hashes := by omega
      rw [List.replicate_succ, Buf.startsWith_cons, Buf.drop_drop] at h
      rw [hflag, hbuf, range'_from]
      exact ReflTransGen.head (printfStep_hash screen esp reads alternate h.1)
        (reaches_hashes hashes true _ _ h.2)

/-- From a `%` to the character behind its `#`s. -/
theorem reaches_specifier (hashes : Nat)
    (h : (call.format.drop buf).StartsWith (0x25 :: List.replicate hashes 0x23)) :
    Reaches (printfStep call) ⟨.loop, screen, buf, esp, reads⟩
      ⟨.formatCharSwitch (decide (0 < hashes)), screen, buf + (hashes + 1), esp,
        reads ++ List.range' buf (hashes + 1)⟩ := by
  have hflag : decide (0 < hashes) = (false || decide (0 < hashes)) := (Bool.false_or _).symm
  have hbuf : buf + (hashes + 1) = buf + 1 + hashes := by omega
  rw [Buf.startsWith_cons, Buf.drop_drop] at h
  rw [hflag, hbuf, range'_from]
  exact ReflTransGen.head (printfStep_percent screen esp reads h.1)
    (reaches_hashes screen esp hashes false _ _ h.2)

end Steps

end LmaOS
