import LmaOS.Printf

/-
  The numerals `itoa` and `printf` write.

  The text of a numeral is its digits as characters of the lookup table. `%u`, `%x` and `%d` print
  what `itoa` left in `conv_buf`, `%d` with its sign in front of it; `%#x` prints the zeros it
  filled in below index 8 and the numeral behind them, one string of eight digits.

  `numerals_canonical`: `itoa` stores the one numeral of its argument, and each of the four
  conversions prints the numeral of the argument it takes, wherever in a format it stands and
  whatever `conv_buf` held.
-/
namespace LmaOS

open Util

abbrev digitChars (ds : List Nat) : List UInt8 := ds.map digitChar

/-! ## conv_buf -/

section Put

variable (screen : Screen) (value : UInt32) (conv : Buf)

theorem numeral_noNul (radix : Radix) (value : UInt32) :
    0 ∉ digitChars (numeral radix.val value.toNat) :=
  digitChars_noNul (numeral_isNumeral radix.two_le value.toNat).digits

theorem numeral_chars_length (radix : Radix) (value : UInt32) :
    (digitChars (numeral radix.val value.toNat)).length ≤ 32 := by
  rw [List.length_map]
  exact numeral_length_word radix value

/-- A numeral in `conv_buf` from index `o` on. -/
theorem itoa_spells (o : Nat) (radix : Radix) :
    ((itoa value conv o radix).drop o).Spells (digitChars (numeral radix.val value.toNat)) := by
  rw [itoa_eq]
  exact Buf.write_spells (numeral_noNul radix value)

theorem putsString_itoa (radix : Radix) : screen.putsString (itoa value conv 0 radix) =
    screen.puts (digitChars (numeral radix.val value.toNat)) := by
  have hspells := itoa_spells value conv 0 radix
  have hlen := numeral_chars_length radix value
  rw [Buf.drop_zero] at hspells
  exact Screen.putsString_spells hspells (by omega) screen

theorem putUnsigned_eq :
    putUnsigned screen value conv = screen.puts (digitChars (numeral 10 value.toNat)) :=
  putsString_itoa screen value conv decimal

theorem putHex_eq :
    putHex screen value conv false = screen.puts (digitChars (numeral 16 value.toNat)) :=
  putsString_itoa screen value conv hexadecimal

theorem zeroFillLoop_eq : ∀ n i (conv : Buf),
    zeroFillLoop n i conv = conv.write i (List.replicate n 0x30)
  | 0, i, conv => Buf.write_nil.symm
  | n + 1, i, conv => by
      rw [zeroFillLoop, zeroFillLoop_eq n, Buf.update_eq_write, List.replicate_succ]
      exact Buf.write_append

/-- The eight digits of `%#x`. -/
def paddedHex (value : UInt32) : List Nat :=
  List.replicate (8 - (numeral 16 value.toNat).length) 0 ++ numeral 16 value.toNat

theorem hex_length_le (value : UInt32) : (numeral 16 value.toNat).length ≤ 8 :=
  numeral_length_le (by decide) (by decide) value.toNat_lt

theorem paddedHex_length (value : UInt32) : (paddedHex value).length = 8 := by
  have hlen := hex_length_le value
  unfold paddedHex
  rw [List.length_append, List.length_replicate]
  omega

theorem paddedHex_lt (value : UInt32) : ∀ d ∈ paddedHex value, d < 16 := by
  intro d hd
  rcases List.mem_append.mp hd with hzero | hnumeral
  · rw [List.eq_of_mem_replicate hzero]
    decide
  · exact (numeral_isNumeral (by decide) value.toNat).digits d hnumeral

/-- The numeral starts at index 8, the zeros fill the bytes from its length up to there. -/
theorem putHex_alternate : putHex screen value conv true =
    screen.puts (digitChars (paddedHex value)) := by
  have hspells := itoa_spells value conv 8 hexadecimal
  have hlen : (digitChars (numeral 16 value.toNat)).length ≤ 8 := by
    rw [List.length_map]
    exact hex_length_le value
  have hstart : strlen ((itoa value conv 8 hexadecimal).drop 8) =
      (digitChars (numeral 16 value.toNat)).length :=
    strlen_spells hspells (Nat.lt_of_le_of_lt hlen (by decide))
  have hzeros : digitChars (List.replicate (8 - (numeral 16 value.toNat).length) 0) =
      List.replicate (8 - (digitChars (numeral 16 value.toNat)).length) 0x30 := by
    unfold digitChars
    rw [List.map_replicate, List.length_map]
    rfl
  unfold putHex
  rw [if_neg Bool.noConfusion]
  dsimp only
  rw [hstart, zeroFillLoop_eq]
  refine Screen.putsString_spells ?_ ?_ screen
  · have htext : digitChars (paddedHex value) =
        List.replicate (8 - (digitChars (numeral 16 value.toNat)).length) 0x30 ++
          digitChars (numeral 16 value.toNat) := by
      rw [← hzeros]
      exact List.map_append
    rw [htext]
    refine Buf.Spells.append Buf.write_startsWith ?_ ?_
    · intro h0
      exact absurd (List.eq_of_mem_replicate h0) (by decide)
    · rw [Buf.drop_drop, List.length_replicate, Nat.add_sub_of_le hlen]
      have hframe : Buf.drop (Buf.write (itoa value conv 8 hexadecimal)
          (digitChars (numeral 16 value.toNat)).length
          (List.replicate (8 - (digitChars (numeral 16 value.toNat)).length) 0x30)) 8 =
            (itoa value conv 8 hexadecimal).drop 8 := by
        funext i
        refine if_neg ?_
        rw [List.length_replicate]
        omega
      rw [hframe]
      exact hspells
  · rw [List.length_map, paddedHex_length]
    decide

/-- The magnitude of a negative argument, the least one included. -/
theorem neg_toNat {value : UInt32} (h : int32 value.toNat < 0) :
    (-value).toNat = (int32 value.toNat).natAbs := by
  have hlt := value.toNat_lt
  have hsize : UInt32.size = 4294967296 := rfl
  rw [UInt32.toNat_neg, hsize]
  unfold int32 at *
  split at h
  · omega
  · rename_i hbig
    rw [if_neg hbig]
    omega

theorem nonneg_toNat {value : UInt32} (h : ¬ int32 value.toNat < 0) :
    value.toNat = (int32 value.toNat).natAbs := by
  have hlt := value.toNat_lt
  unfold int32 at *
  split at h
  · rename_i hsmall
    rw [if_pos hsmall]
    omega
  · omega

/-- The text of a signed number with the digits `ds`. -/
def signedChars (z : Int) (ds : List Nat) : List UInt8 :=
  if z < 0 then 0x2D :: digitChars ds else digitChars ds

theorem putSigned_eq : putSigned screen value conv =
    screen.puts (signedChars (int32 value.toNat)
      (numeral 10 (int32 value.toNat).natAbs)) := by
  unfold putSigned signedChars
  split
  · rename_i hneg
    have hspells := itoa_spells (-value) (Function.update conv 0 0x2D) 1 decimal
    have hlen := numeral_chars_length decimal (-value)
    have hsign : itoa (-value) (Function.update conv 0 0x2D) 1 decimal 0 = 0x2D := by
      rw [itoa_eq]
      refine (if_neg (by omega)).trans ?_
      exact Function.update_self 0 _ _
    rw [neg_toNat hneg] at hspells hlen
    have hall : (itoa (-value) (Function.update conv 0 0x2D) 1 decimal).Spells
        ([0x2D] ++ digitChars (numeral 10 (int32 value.toNat).natAbs)) :=
      Buf.Spells.append (Buf.startsWith_cons.mpr ⟨hsign, Buf.startsWith_nil⟩)
        (by decide) hspells
    refine Screen.putsString_spells hall ?_ screen
    rw [List.length_append, List.length_singleton]
    exact Nat.lt_of_le_of_lt (Nat.add_le_add_left hlen 1) (by decide)
  · rename_i hpos
    rw [putsString_itoa, ← nonneg_toNat hpos]
    rfl

end Put

/-! ## Conversions -/

/-- Where a format goes on with `spec`, `printf` prints `text`, takes one argument and goes on
    behind `spec`, every byte of which it reads once. -/
def Prints (call : PrintfCall) (st : PrintfState) (spec text : List UInt8) : Prop :=
  st.label = .loop → (call.format.drop st.buf).StartsWith spec →
    StateTransition.Reaches (printfStep call) st
      ⟨.loop, st.screen.puts text, st.buf + spec.length, st.esp + 1,
        st.reads ++ List.range' st.buf spec.length⟩

section Conversions

open Relation StateTransition

variable (call : PrintfCall) (st : PrintfState)

/-- A conversion with its `#`s prints what its branch prints. -/
theorem prints_conversion (hashes : Nat) {c : UInt8} (hc : c ≠ 0x23) {text : List UInt8}
    (hprint : ∀ st' : PrintfState, st'.screen = st.screen → st'.esp = st.esp →
      call.convert c (decide (0 < hashes)) st' =
        { st' with screen := st.screen.puts text, esp := st.esp + 1 }) :
    Prints call st (0x25 :: List.replicate hashes 0x23 ++ [c]) text := by
  intro hlabel hspec
  obtain ⟨label, screen, buf, esp, reads⟩ := st
  obtain rfl : label = .loop := hlabel
  dsimp only at hspec hprint ⊢
  rw [Buf.startsWith_append, Buf.drop_drop, List.length_cons, List.length_replicate] at hspec
  have hchar : call.format (buf + (hashes + 1)) = c := hspec.2 0 Nat.zero_lt_one
  have hstep : printfStep call ⟨.formatCharSwitch (decide (0 < hashes)), screen,
      buf + (hashes + 1), esp, reads ++ List.range' buf (hashes + 1)⟩ =
        some ⟨.loop, screen.puts text, buf + (hashes + 1) + 1, esp + 1,
          reads ++ List.range' buf (hashes + 1) ++ [buf + (hashes + 1)]⟩ := by
    unfold printfStep
    dsimp only
    rw [hchar, if_neg hc, hprint _ rfl rfl]
  have hlen : (0x25 :: List.replicate hashes 0x23 ++ [c]).length = hashes + 1 + 1 := by
    rw [List.length_append, List.length_cons, List.length_replicate, List.length_singleton]
  rw [hlen, List.range'_1_concat, ← List.append_assoc, ← Nat.add_assoc]
  exact ReflTransGen.tail (reaches_specifier screen esp reads hashes hspec.1) hstep

/-- `itoa` writes the one numeral of its argument, with its NUL into 33 bytes at most and into no
    others; `%u`, `%d` and `%x` print the numerals of their arguments, `%#x` its eight digits. -/
theorem numerals_canonical :
    (∀ (value : UInt32) (mem : Buf) (buf : Nat) (radix : Radix),
      ∃ ds, (∀ ds', IsNumeral radix.val value.toNat ds' ↔ ds' = ds) ∧ ds.length + 1 ≤ 33 ∧
        itoa value mem buf radix = mem.write buf (digitChars ds ++ [0])) ∧
    ∀ (call : PrintfCall) (st : PrintfState), let value := (call.args st.esp).toNat
      (∃ ds, IsNumeral 10 value ds ∧ Prints call st (bytes "%u") (digitChars ds)) ∧
      (∃ ds, IsNumeral 10 (int32 value).natAbs ds ∧
        Prints call st (bytes "%d") (signedChars (int32 value) ds)) ∧
      (∃ ds, IsNumeral 16 value ds ∧ Prints call st (bytes "%x") (digitChars ds)) ∧
      ∃ ds, ds.length = 8 ∧ (∀ d ∈ ds, d < 16) ∧ digitsValue 16 ds = value ∧
        Prints call st (bytes "%#x") (digitChars ds) := by
  refine ⟨fun value mem buf radix => ⟨numeral radix.val value.toNat,
    fun ds' => isNumeral_iff radix.two_le, Nat.succ_le_succ (numeral_length_word radix value),
    itoa_eq value mem buf radix⟩, fun call st => ⟨?_, ?_, ?_, ?_⟩⟩
  · refine ⟨_, numeral_isNumeral (by decide) _,
      prints_conversion call st 0 (by decide) fun st' hscreen hesp => ?_⟩
    rw [← putUnsigned_eq st.screen _ (call.convBuf st.esp), ← hscreen, ← hesp]
    rfl
  · refine ⟨_, numeral_isNumeral (by decide) _,
      prints_conversion call st 0 (by decide) fun st' hscreen hesp => ?_⟩
    rw [← putSigned_eq st.screen _ (call.convBuf st.esp), ← hscreen, ← hesp]
    rfl
  · refine ⟨_, numeral_isNumeral (by decide) _,
      prints_conversion call st 0 (by decide) fun st' hscreen hesp => ?_⟩
    rw [← putHex_eq st.screen _ (call.convBuf st.esp), ← hscreen, ← hesp]
    rfl
  · refine ⟨paddedHex (call.args st.esp), paddedHex_length _, paddedHex_lt _, ?_,
      prints_conversion call st 1 (by decide) fun st' hscreen hesp => ?_⟩
    · exact (digitsValue_padded 16 _ _).trans (numeral_isNumeral (by decide) _).value
    · rw [← putHex_alternate st.screen _ (call.convBuf st.esp), ← hscreen, ← hesp]
      rfl

end Conversions

end LmaOS
