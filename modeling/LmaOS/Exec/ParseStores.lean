import LmaOS.Exec.Executable

/-
  The stores of the parser of `execute`.

  `parseStores` lists, in the order of the source, the indices of `fname` and `arg` the parse loop
  and the two terminating NULs are stored at; `executeStores` is the whole call, with the copy
  into the PCB. `fname` is guarded, `arg` is not.

  `parser_inBounds_iff`: the call stays inside its arrays exactly when it does not get to parse,
  refuses the file name, or finds an argument of at most 128 characters. `parser_overruns` is an
  argument of 129.
-/
namespace LmaOS

open Util

/-- The arrays the parser fills: two locals, and the field of the PCB. -/
inductive ArgArray where
  | fname | arg | pcbArg
  deriving DecidableEq

def ArgArray.size : ArgArray → Nat
  | fname => 33
  | arg | pcbArg => cmdLen + 1

/-- A store to an index of one of the arrays. -/
abbrev ArgStore := ArgArray × Nat

def ArgStore.InBounds (s : ArgStore) : Prop := s.2 < s.1.size

instance (s : ArgStore) : Decidable s.InBounds := inferInstanceAs (Decidable (_ < _))

/-! ## The stores -/

/-- One round of the loop; `exe_idx` and `arg_idx` are the lengths of what was stored. -/
def parseStepStores (st : ParseState) (c : UInt8) : List ArgStore :=
  if c ≠ 0x20 ∧ (st.commandFlag = 0 ∨ st.commandFlag = 1) then
    if st.fname.length ≥ 32 then [] else [(.fname, st.fname.length)]
  else if c = 0x20 ∧ st.commandFlag = 1 then []
  else if c ≠ 0x20 ∧ (st.commandFlag = 2 ∨ st.commandFlag = 3) then [(.arg, st.arg.length)]
  else if c = 0x20 ∧ st.commandFlag = 3 then [(.arg, st.arg.length)]
  else []

/-- The loop, and behind it the two NULs. -/
def parseLoopStores : List UInt8 → ParseState → List ArgStore
  | [], st => [(.fname, st.fname.length), (.arg, st.arg.length)]
  | c :: cs, st => parseStepStores st c ++
      match parseStep st c with
      | none => []
      | some st => parseLoopStores cs st

def parseStores (command : CString) : List ArgStore := parseLoopStores command.chars ⟨[], [], 0⟩

/-- `strncpy(cur_process->arg, arg, strlen(arg) + 1)`. -/
def copyStores (arg : List UInt8) : List ArgStore :=
  (List.range (strlen (Buf.ofList arg) + 1)).map fun i => (.pcbArg, i)

/-- The command passes the tests in front of the parser. -/
def Parses (k : Kernel) (command : CString) : Prop :=
  command.chars ≠ [] ∧ k.allActive = false ∧ k.term.numProc ≤ 3

instance (k : Kernel) (command : CString) : Decidable (Parses k command) :=
  inferInstanceAs (Decidable (_ ∧ _ ∧ _))

/-- The stores of `execute`: the parser's, and the copy once the file is loaded. -/
def executeStores (img : Image) (k : Kernel) (l : Locals) (command : CString) : List ArgStore :=
  if Parses k command then
    parseStores command ++
      match parse command with
      | some (name, arg) => if Loadable img l name then copyStores arg else []
      | none => []
  else []

/-! ## One round -/

/-- The five things a round can do, each with its next state and its store. -/
inductive ParseRound (st : ParseState) (c : UInt8) : Option ParseState → List ArgStore → Prop where
  | refused (hflag : st.commandFlag = 0 ∨ st.commandFlag = 1) (hfull : 32 ≤ st.fname.length) :
      ParseRound st c none []
  | name (hflag : st.commandFlag = 0 ∨ st.commandFlag = 1) (hroom : st.fname.length < 32) :
      ParseRound st c (some { st with fname := st.fname ++ [c], commandFlag := 1 })
        [(.fname, st.fname.length)]
  | gap (hflag : st.commandFlag = 1) : ParseRound st c (some { st with commandFlag := 2 }) []
  | arg (hflag : st.commandFlag = 2 ∨ st.commandFlag = 3) :
      ParseRound st c (some { st with arg := st.arg ++ [c], commandFlag := 3 })
        [(.arg, st.arg.length)]
  | skip : ParseRound st c (some st) []

theorem parseStep_round (st : ParseState) (c : UInt8) :
    ParseRound st c (parseStep st c) (parseStepStores st c) := by
  unfold parseStep parseStepStores
  split
  · rename_i hword
    split
    · rename_i hfull
      exact .refused hword.2 hfull
    · rename_i hroom
      exact .name hword.2 (Nat.lt_of_not_le hroom)
  · split
    · rename_i hgap
      exact .gap hgap.2
    · split
      · rename_i harg
        exact .arg harg.2
      · split
        · rename_i hspace
          exact .arg (Or.inr hspace.2)
        · exact .skip

/-! ## The loop -/

/-- Behind the file name nothing is refused. -/
theorem parseLoop_ne_none {cs : List UInt8} {st : ParseState}
    (hflag : st.commandFlag = 2 ∨ st.commandFlag = 3) : parseLoop cs st ≠ none := by
  induction cs generalizing st with
  | nil => exact Option.some_ne_none st
  | cons c cs ih =>
    rw [parseLoop]
    have hround := parseStep_round st c
    generalize parseStep st c = next at hround ⊢
    generalize parseStepStores st c = stores at hround
    cases hround with
    | refused hname _ => omega
    | name hname _ => omega
    | gap hname => omega
    | arg _ => exact ih (Or.inr rfl)
    | skip => exact ih hflag

/-- A loop that refuses the file name has stored to `fname` only. -/
theorem parseLoopStores_refused {cs : List UInt8} {st : ParseState} (h : parseLoop cs st = none)
    (hflag : st.commandFlag = 0 ∨ st.commandFlag = 1) :
    ∀ s ∈ parseLoopStores cs st, s.InBounds := by
  induction cs generalizing st with
  | nil => cases h
  | cons c cs ih =>
    rw [parseLoop] at h
    rw [parseLoopStores]
    have hround := parseStep_round st c
    generalize parseStep st c = next at hround h ⊢
    generalize parseStepStores st c = stores at hround ⊢
    cases hround with
    | refused _ _ => exact fun s hs => absurd hs List.not_mem_nil
    | name _ hroom =>
      refine List.forall_mem_cons.mpr ⟨?_, ih h (Or.inr rfl)⟩
      exact Nat.lt_succ_of_lt hroom
    | gap _ => exact absurd h (parseLoop_ne_none (Or.inl rfl))
    | arg harg => omega
    | skip => exact ih h hflag

/-- A loop that ends has stored to `fname` inside it, and to `arg` up to the argument's length. -/
theorem parseLoopStores_iff {cs : List UInt8} {st st' : ParseState}
    (h : parseLoop cs st = some st') (hname : st.fname.length ≤ 32) :
    st.arg.length ≤ st'.arg.length ∧
      ((∀ s ∈ parseLoopStores cs st, s.InBounds) ↔ st'.arg.length ≤ cmdLen) := by
  induction cs generalizing st with
  | nil =>
    obtain rfl := Option.some.inj h
    refine ⟨Nat.le_refl _, ?_⟩
    rw [parseLoopStores, List.forall_mem_cons, List.forall_mem_singleton]
    exact ⟨fun hstores => Nat.lt_succ_iff.mp hstores.2,
      fun hlen => ⟨Nat.lt_succ_of_le hname, Nat.lt_succ_of_le hlen⟩⟩
  | cons c cs ih =>
    rw [parseLoop] at h
    rw [parseLoopStores]
    have hround := parseStep_round st c
    generalize parseStep st c = next at hround h ⊢
    generalize parseStepStores st c = stores at hround ⊢
    cases hround with
    | refused _ _ => cases h
    | name _ hroom =>
      have hlen : (st.fname ++ [c]).length ≤ 32 := by
        rw [List.length_append, List.length_singleton]
        exact hroom
      obtain ⟨hle, hiff⟩ := ih h hlen
      refine ⟨hle, ?_⟩
      rw [List.forall_mem_append, hiff, List.forall_mem_singleton]
      exact and_iff_right (Nat.lt_succ_of_lt hroom)
    | gap _ => exact ih h hname
    | arg _ =>
      obtain ⟨hle, hiff⟩ := ih h hname
      have hgrown : st.arg.length < st'.arg.length := by
        rw [List.length_append, List.length_singleton] at hle
        exact hle
      refine ⟨Nat.le_of_lt hgrown, ?_⟩
      rw [List.forall_mem_append, hiff, List.forall_mem_singleton]
      exact and_iff_right_of_imp fun hlen =>
        Nat.lt_succ_of_le (Nat.le_trans (Nat.le_of_lt hgrown) hlen)
    | skip => exact ih h hname

/-- The parser stays in its arrays exactly if the argument fits. -/
theorem parseStores_inBounds_iff (command : CString) :
    (∀ s ∈ parseStores command, s.InBounds) ↔
      ∀ name arg, parse command = some (name, arg) → arg.length ≤ cmdLen := by
  unfold parseStores parse
  cases hloop : parseLoop command.chars ⟨[], [], 0⟩ with
  | none =>
    refine iff_of_true (parseLoopStores_refused hloop (Or.inl rfl)) fun name arg h => ?_
    cases h
  | some st =>
    rw [(parseLoopStores_iff hloop (Nat.zero_le 32)).2]
    constructor
    · intro hlen name arg h
      obtain ⟨_, rfl⟩ := Prod.mk.inj (Option.some.inj h)
      exact hlen
    · exact fun h => h st.fname st.arg rfl

/-! ## The call -/

/-- The copy into the PCB ends with the NUL of the argument. -/
theorem copyStores_inBounds {arg : List UInt8} (hnul : 0 ∉ arg) (hlen : arg.length ≤ cmdLen) :
    ∀ s ∈ copyStores arg, s.InBounds := by
  have hstrlen : strlen (Buf.ofList arg) = arg.length :=
    strlen_spells (Buf.spells_ofList hnul) (Nat.lt_of_le_of_lt hlen (by decide))
  intro s hs
  obtain ⟨i, hi, rfl⟩ := List.mem_map.mp hs
  rw [List.mem_range, hstrlen] at hi
  exact Nat.lt_of_lt_of_le hi (Nat.succ_le_succ hlen)

/-- `execute` stays in its arrays exactly if it does not parse, refuses the file name, or finds an
    argument of at most 128 characters. -/
theorem parser_inBounds_iff (img : Image) (k : Kernel) (l : Locals) (command : CString) :
    (∀ s ∈ executeStores img k l command, s.InBounds) ↔
      ¬ Parses k command ∨ 32 < (firstWord command.chars).length ∨
        (argument command.chars).length ≤ cmdLen := by
  have hfits : (∀ name arg, parse command = some (name, arg) → arg.length ≤ cmdLen) ↔
      32 < (firstWord command.chars).length ∨ (argument command.chars).length ≤ cmdLen := by
    rw [parse_eq]
    split
    · rename_i hlong
      exact iff_of_true (fun _ _ h => nomatch h) (Or.inl hlong)
    · rename_i hshort
      constructor
      · exact fun h => Or.inr (h _ _ rfl)
      · rintro h name arg hparse
        obtain ⟨_, rfl⟩ := Prod.mk.inj (Option.some.inj hparse)
        exact h.resolve_left hshort
  unfold executeStores
  by_cases hparses : Parses k command
  · rw [if_pos hparses, List.forall_mem_append, parseStores_inBounds_iff,
      or_iff_right (not_not.mpr hparses), ← hfits]
    refine and_iff_left_of_imp fun hlen => ?_
    cases hparse : parse command with
    | none => exact fun s hs => absurd hs List.not_mem_nil
    | some parsed =>
      obtain ⟨name, arg⟩ := parsed
      dsimp only
      split
      · exact copyStores_inBounds (parse_parts hparse).2.2 (hlen name arg hparse)
      · exact fun s hs => absurd hs List.not_mem_nil
  · rw [if_neg hparses]
    exact iff_of_true (fun s hs => absurd hs List.not_mem_nil) (Or.inl hparses)

/-- "a" with an argument of 129 characters. -/
def longCommand : CString := ⟨0x61 :: 0x20 :: List.replicate 129 0x62, by decide⟩

/-- The NUL of a long argument is stored behind `arg`. -/
theorem parser_overruns : ¬ ∀ (img : Image) (k : Kernel) (l : Locals) (command : CString),
    ∀ s ∈ executeStores img k l command, s.InBounds := by
  intro hclaim
  have hparses : Parses dotShell longCommand := by decide
  have hparse : parse longCommand = some ([0x61], List.replicate 129 0x62) :=
    (parse_eq longCommand).trans rfl
  have hstores : ∀ s ∈ parseStores longCommand, s.InBounds := by
    intro s hs
    refine hclaim dotImage dotShell (Locals.zero ⟨0, 0⟩) longCommand s ?_
    unfold executeStores
    rw [if_pos hparses]
    exact List.mem_append_left _ hs
  have hlen := (parseStores_inBounds_iff longCommand).mp hstores _ _ hparse
  rw [List.length_replicate] at hlen
  exact absurd hlen (by decide)

end LmaOS
