import LmaOS.Printf

/-
  How far `printf` reads its format.

  A format is complete if it consists of plain characters and whole conversions: a `%`, any number
  of `#`s and one more character. `format_char_switch` does not ask whether that character is
  there: behind a `%` or a `#` that is the last character it takes the NUL for a conversion, does
  nothing and steps over it.

  `printf_inside_iff`: `printf` stops at the NUL, returns the length and reads nothing behind the
  NUL exactly if the format is complete. `printf_runs_over`: on the format `%` it does not.
-/
namespace LmaOS

open Util Relation StateTransition

/-- Plain characters and whole conversions. -/
inductive Complete : List UInt8 → Prop
  | nil : Complete []
  | char {c rest} : c ≠ 0x25 → Complete rest → Complete (c :: rest)
  | conversion (hashes : Nat) {c rest} : c ≠ 0x23 → Complete rest →
      Complete (0x25 :: List.replicate hashes 0x23 ++ c :: rest)

/-- A format whose last conversion lacks its character. -/
def OpenEnded (l : List UInt8) : Prop :=
  ∃ front hashes, Complete front ∧ l = front ++ 0x25 :: List.replicate hashes 0x23

/-- The call with the string `format`, in memory that goes on behind its NUL. -/
def PrintfCall.withFormat (call : PrintfCall) (format : CString) : PrintfCall :=
  { call with format := call.format.write 0 (format.chars ++ [0]) }

/-- All format bytes read, the last one included. -/
def PrintfState.allReads (st : PrintfState) : List Nat := st.reads ++ [st.buf]

/-- `printf` returns the length of the format, having stopped at its NUL and read no byte behind
    it. -/
def StaysInside (call : PrintfCall) (screen : Screen) (format : CString) : Prop :=
  ∃ st ∈ printf (call.withFormat format) screen, st.buf = format.chars.length ∧
    ∀ o ∈ st.allReads, o ≤ format.chars.length

/-! ## Formats -/

theorem hashes_split (l : List UInt8) :
    (∃ hashes, l = List.replicate hashes 0x23) ∨
      ∃ hashes c rest, c ≠ 0x23 ∧ l = List.replicate hashes 0x23 ++ c :: rest := by
  induction l with
  | nil => exact Or.inl ⟨0, rfl⟩
  | cons c l ih =>
    by_cases hc : c = 0x23
    · subst hc
      rcases ih with ⟨hashes, rfl⟩ | ⟨hashes, c, rest, hne, rfl⟩
      · exact Or.inl ⟨hashes + 1, rfl⟩
      · exact Or.inr ⟨hashes + 1, c, rest, hne, rfl⟩
    · exact Or.inr ⟨0, c, l, hc, rfl⟩

theorem Complete.append {front l : List UInt8} (h : Complete front) (hl : Complete l) :
    Complete (front ++ l) := by
  induction h with
  | nil => exact hl
  | char hc _ ih => exact Complete.char hc ih
  | conversion hashes hc _ ih =>
    rw [List.append_assoc, List.cons_append]
    exact Complete.conversion hashes hc ih

theorem OpenEnded.append {front l : List UInt8} (h : Complete front) (hl : OpenEnded l) :
    OpenEnded (front ++ l) := by
  obtain ⟨front', hashes, hfront', rfl⟩ := hl
  exact ⟨front ++ front', hashes, h.append hfront', (List.append_assoc _ _ _).symm⟩

/-- A format ends outside a conversion or inside one. -/
theorem complete_or_openEnded (l : List UInt8) : Complete l ∨ OpenEnded l := by
  induction hn : l.length using Nat.strong_induction_on generalizing l with
  | _ n ih =>
    cases l with
    | nil => exact Or.inl Complete.nil
    | cons c rest =>
      have hless : rest.length < n := by
        rw [← hn]
        exact Nat.lt_succ_self _
      by_cases hc : c = 0x25
      · subst hc
        rcases hashes_split rest with ⟨hashes, rfl⟩ | ⟨hashes, c, rest, hne, rfl⟩
        · exact Or.inr ⟨[], hashes, Complete.nil, rfl⟩
        · have hshort : rest.length < n := by
            rw [List.length_append, List.length_cons] at hless
            omega
          have hspec : Complete (0x25 :: List.replicate hashes 0x23 ++ [c]) :=
            Complete.conversion hashes hne Complete.nil
          have happ : 0x25 :: (List.replicate hashes 0x23 ++ c :: rest) =
              (0x25 :: List.replicate hashes 0x23 ++ [c]) ++ rest := by
            rw [List.append_assoc]
            rfl
          rw [happ]
          exact (ih _ hshort rest rfl).imp hspec.append (OpenEnded.append hspec)
      · have hspec : Complete [c] := Complete.char hc Complete.nil
        exact (ih _ hless rest rfl).imp hspec.append (OpenEnded.append hspec)

/-! ## Runs -/

section Runs

variable {call : PrintfCall}

/-- From the start of a complete piece of format `printf` comes to the head of its loop behind
    it. -/
theorem Complete.reaches {l : List UInt8} (h : Complete l) (h0 : 0 ∉ l) (call : PrintfCall) :
    ∀ (screen : Screen) (buf esp : Nat) (reads : List Nat),
      (call.format.drop buf).StartsWith l →
        ∃ screen' esp' reads', Reaches (printfStep call) ⟨.loop, screen, buf, esp, reads⟩
          ⟨.loop, screen', buf + l.length, esp', reads'⟩ := by
  induction h with
  | nil => exact fun screen buf esp reads _ => ⟨screen, esp, reads, ReflTransGen.refl⟩
  | @char c rest hc _ ih =>
    intro screen buf esp reads hspec
    rw [Buf.startsWith_cons, Buf.drop_drop] at hspec
    obtain ⟨hchar, hrest⟩ := hspec
    have hchar : call.format buf = c := hchar
    have hne : call.format buf ≠ 0 := fun he => h0 (he ▸ hchar ▸ List.mem_cons_self)
    have hnext := printfStep_char screen esp reads hne (hchar ▸ hc)
    obtain ⟨screen', esp', reads', hreach⟩ := ih (fun hm => h0 (List.mem_cons_of_mem _ hm))
      (screen.putc (call.format buf)) (buf + 1) esp (reads ++ [buf]) hrest
    have hlen : buf + (c :: rest).length = buf + 1 + rest.length := by
      rw [List.length_cons]
      omega
    rw [hlen]
    exact ⟨screen', esp', reads', ReflTransGen.head hnext hreach⟩
  | @conversion hashes c rest hc _ ih =>
    intro screen buf esp reads hspec
    obtain ⟨hspecifier, htail⟩ := Buf.startsWith_append.mp hspec
    rw [Buf.drop_drop, List.length_cons, List.length_replicate] at htail
    obtain ⟨hchar, hrest⟩ := Buf.startsWith_cons.mp htail
    rw [Buf.drop_drop] at hrest
    have hchar : call.format (buf + (hashes + 1)) = c := hchar
    have hbehind := reaches_specifier screen esp reads hashes
      hspecifier
    obtain ⟨screen₁, esp₁, hnext⟩ := printfStep_convert screen esp _ (decide (0 < hashes))
      (hchar ▸ hc)
    obtain ⟨screen', esp', reads', hreach⟩ := ih
      (fun hm => h0 (List.mem_append_right _ (List.mem_cons_of_mem _ hm))) screen₁ _ esp₁ _ hrest
    have hlen : buf + (0x25 :: List.replicate hashes 0x23 ++ c :: rest).length =
        buf + (hashes + 1) + 1 + rest.length := by
      rw [List.length_append, List.length_cons, List.length_cons, List.length_replicate]
      omega
    rw [hlen]
    exact ⟨screen', esp', reads', hbehind.trans (ReflTransGen.head hnext hreach)⟩

/-- Plain text is printed as it stands. -/
theorem reaches_plain {l : List UInt8} (hplain : ∀ c ∈ l, c ≠ 0 ∧ c ≠ 0x25) :
    ∀ (screen : Screen) (buf esp : Nat) (reads : List Nat),
      (call.format.drop buf).StartsWith l →
        ∃ reads', Reaches (printfStep call) ⟨.loop, screen, buf, esp, reads⟩
          ⟨.loop, screen.puts l, buf + l.length, esp, reads'⟩ := by
  induction l with
  | nil => exact fun screen buf esp reads _ => ⟨reads, ReflTransGen.refl⟩
  | cons c l ih =>
    intro screen buf esp reads hspec
    rw [Buf.startsWith_cons, Buf.drop_drop] at hspec
    obtain ⟨hchar, hrest⟩ := hspec
    have hchar : call.format buf = c := hchar
    obtain ⟨h0, hc⟩ := hplain c List.mem_cons_self
    have hnext := printfStep_char screen esp reads
      (hchar.symm ▸ h0) (hchar.symm ▸ hc)
    rw [hchar] at hnext
    obtain ⟨reads', hreach⟩ := ih (fun c hm => hplain c (List.mem_cons_of_mem _ hm))
      (screen.putc c) (buf + 1) esp (reads ++ [buf]) hrest
    have hlen : buf + (c :: l).length = buf + 1 + l.length := by
      rw [List.length_cons]
      omega
    rw [hlen]
    exact ⟨reads', ReflTransGen.head hnext hreach⟩

/-- `printf` never goes back, and what it has read lies in front of `buf`. -/
theorem reaches_buf {st st' : PrintfState} (h : Reaches (printfStep call) st st') :
    st.buf ≤ st'.buf ∧ ((∀ o ∈ st.reads, o < st.buf) → ∀ o ∈ st'.reads, o < st'.buf) := by
  induction h with
  | refl => exact ⟨Nat.le_refl _, id⟩
  | tail _ hstep ih =>
    obtain ⟨hbuf, hreads⟩ := printfStep_buf hstep
    obtain ⟨hle, hkeep⟩ := ih
    refine ⟨by omega, fun hst o ho => ?_⟩
    rw [hreads] at ho
    rcases List.mem_append.mp ho with ho | ho
    · exact Nat.lt_of_lt_of_le (hkeep hst o ho) (by omega)
    · rw [List.mem_singleton.mp ho]
      omega

end Runs

section Formats

variable (call : PrintfCall) (screen : Screen) (format : CString)

theorem withFormat_spells : (call.withFormat format).format.Spells format.chars := by
  have hspells : ((call.format.write 0 (format.chars ++ [0])).drop 0).Spells format.chars :=
    Buf.write_spells format.noNul
  rwa [Buf.drop_zero] at hspells

theorem complete_stays (h : Complete format.chars) : StaysInside call screen format := by
  have hspells := withFormat_spells call format
  obtain ⟨hspec, hend⟩ := Buf.startsWith_append.mp hspells.2
  obtain ⟨screen', esp', reads', hreach⟩ := h.reaches format.noNul (call.withFormat format)
    screen 0 0 [] (by rwa [Buf.drop_zero])
  rw [Nat.zero_add] at hreach
  have hnul : (call.withFormat format).format format.chars.length = 0 := hend 0 Nat.zero_lt_one
  refine ⟨_, mem_eval.mpr ⟨hreach, printfStep_end _ _ _ hnul⟩, rfl, fun o ho => ?_⟩
  have hreads := (reaches_buf hreach).2 (fun o ho => absurd ho List.not_mem_nil)
  rcases List.mem_append.mp ho with ho | ho
  · exact Nat.le_of_lt (hreads o ho)
  · exact Nat.le_of_eq (List.mem_singleton.mp ho)

/-- The messages of the kernel, texts without conversions, are printed as `Screen.printf` says. -/
theorem printf_plain (message : String) (hplain : ∀ c ∈ bytes message, c ≠ 0 ∧ c ≠ 0x25)
    (hformat : call.format.Spells (bytes message)) :
    ∃ st ∈ printf call screen, st.screen = screen.printf message ∧
      st.buf = (bytes message).length := by
  obtain ⟨hspec, hend⟩ := Buf.startsWith_append.mp hformat.2
  obtain ⟨reads', hreach⟩ := reaches_plain hplain screen 0 0 [] (by rwa [Buf.drop_zero])
  rw [Nat.zero_add] at hreach
  exact ⟨_, mem_eval.mpr ⟨hreach, printfStep_end _ _ _ (hend 0 Nat.zero_lt_one)⟩, rfl, rfl⟩

/-- The NUL taken for the character of the last conversion: the next byte read lies behind it. -/
theorem openEnded_runs_over (h : OpenEnded format.chars) {st : PrintfState}
    (hst : st ∈ printf (call.withFormat format) screen) : format.chars.length < st.buf := by
  obtain ⟨front, hashes, hfront, hchars⟩ := h
  have hspells := withFormat_spells call format
  have h0 := format.noNul
  rw [hchars] at hspells h0
  obtain ⟨hspec, hend⟩ := Buf.startsWith_append.mp hspells.2
  have hnul : (call.withFormat format).format (front.length + (hashes + 1)) = 0 := by
    have hnul := hend 0 Nat.zero_lt_one
    rw [List.length_append, List.length_cons, List.length_replicate] at hnul
    exact hnul
  obtain ⟨hfirst, hlast⟩ := Buf.startsWith_append.mp hspec
  obtain ⟨screen₁, esp₁, reads₁, hreach⟩ := hfront.reaches
    (fun hm => h0 (List.mem_append_left _ hm)) (call.withFormat format) screen 0 0 []
    (by rwa [Buf.drop_zero])
  rw [Nat.zero_add] at hreach
  have hbehind := reaches_specifier screen₁ esp₁ reads₁ hashes hlast
  obtain ⟨screen₂, esp₂, hnext⟩ := printfStep_convert screen₁ esp₁ _ (decide (0 < hashes))
    (hnul ▸ (by decide : (0 : UInt8) ≠ 0x23))
  have hover := (hreach.trans hbehind).tail hnext
  have hlen : format.chars.length = front.length + (hashes + 1) := by
    rw [hchars, List.length_append, List.length_cons, List.length_replicate]
  unfold printf at hst
  rw [reaches_eval hover] at hst
  have hle := (reaches_buf (mem_eval.mp hst).1).1
  dsimp only at hle
  omega

/-- The formats `printf` stays inside of. -/
theorem printf_inside_iff : StaysInside call screen format ↔ Complete format.chars := by
  refine ⟨fun ⟨st, hst, hbuf, _⟩ => ?_, complete_stays call screen format⟩
  rcases complete_or_openEnded format.chars with hcomplete | hopen
  · exact hcomplete
  · have hover := openEnded_runs_over call screen format hopen hst
    omega

end Formats

/-- The format `%`, in front of the string `ab`. -/
def percent : CString := ⟨[0x25], by decide⟩

def percentCall : PrintfCall :=
  ⟨Buf.ofList [0x25, 0, 0x61, 0x62, 0], fun _ => 0, fun _ => percent, fun _ _ => 0⟩

theorem printf_runs_over : ¬ StaysInside percentCall ⟨0, 0, fun _ => 0⟩ percent := by
  rintro ⟨st, hst, hbuf, _⟩
  have hopen : OpenEnded percent.chars := ⟨[], 0, Complete.nil, rfl⟩
  have hover := openEnded_runs_over _ _ _ hopen hst
  omega

end LmaOS
