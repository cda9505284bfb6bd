import LmaOS.Process

/-
  The parse loop of `execute` in closed form.

  A command is spaces, a word (the file name), spaces, and the rest (the argument), which keeps
  its own spaces. `parse_eq`: the loop finds exactly these two parts and refuses a word of more
  than 32 characters.
-/
namespace LmaOS

def isSpace (c : UInt8) : Bool := decide (c = 0x20)

/-- The command without the spaces before its first word. -/
def trimmed (cs : List UInt8) : List UInt8 := cs.dropWhile isSpace

def firstWord (cs : List UInt8) : List UInt8 := (trimmed cs).takeWhile fun c => !isSpace c

/-- What follows the first word and the spaces behind it. -/
def argument (cs : List UInt8) : List UInt8 :=
  ((trimmed cs).dropWhile fun c => !isSpace c).dropWhile isSpace

section Loop

variable (fname arg : List UInt8)

/-- The stored parts, without the flag. -/
def stored (r : Option ParseState) : Option (List UInt8 × List UInt8) :=
  r.map fun st => (st.fname, st.arg)

/-- Inside the argument every character is stored. -/
theorem parseLoop_argument (cs : List UInt8) :
    stored (parseLoop cs ⟨fname, arg, 3⟩) = some (fname, arg ++ cs) := by
  induction cs generalizing arg with
  | nil => rw [List.append_nil]; rfl
  | cons c cs ih =>
    have hstep : parseStep ⟨fname, arg, 3⟩ c = some ⟨fname, arg ++ [c], 3⟩ := by
      unfold parseStep
      by_cases hc : c = 0x20 <;> simp [hc]
    rw [parseLoop, hstep]
    exact (ih (arg ++ [c])).trans (by rw [List.append_assoc]; rfl)

/-- Between the file name and the argument, spaces are skipped. -/
theorem parseLoop_gap (cs : List UInt8) :
    stored (parseLoop cs ⟨fname, [], 2⟩) = some (fname, cs.dropWhile isSpace) := by
  induction cs with
  | nil => rfl
  | cons c cs ih =>
    rw [parseLoop, List.dropWhile_cons]
    by_cases hc : c = 0x20
    · have hstep : parseStep ⟨fname, [], 2⟩ c = some ⟨fname, [], 2⟩ := by
        unfold parseStep
        simp [hc]
      rw [hstep, if_pos (show isSpace c = true from decide_eq_true hc)]
      exact ih
    · have hstep : parseStep ⟨fname, [], 2⟩ c = some ⟨fname, [c], 3⟩ := by
        unfold parseStep
        simp [hc]
      rw [hstep, if_neg (by simpa [isSpace] using hc)]
      exact parseLoop_argument fname [c] cs

/-- Inside the file name: it goes on to the next space, if it does not get too long. -/
theorem parseLoop_name (cs : List UInt8) (hlen : fname.length ≤ 32) :
    stored (parseLoop cs ⟨fname, [], 1⟩) =
      if 32 < (fname ++ cs.takeWhile fun c => !isSpace c).length then none
      else some (fname ++ cs.takeWhile fun c => !isSpace c,
        (cs.dropWhile fun c => !isSpace c).dropWhile isSpace) := by
  induction cs generalizing fname with
  | nil =>
    rw [List.takeWhile_nil, List.append_nil, if_neg (Nat.not_lt_of_le hlen)]
    rfl
  | cons c cs ih =>
    rw [parseLoop, List.takeWhile_cons, List.dropWhile_cons]
    by_cases hc : c = 0x20
    · have hstep : parseStep ⟨fname, [], 1⟩ c = some ⟨fname, [], 2⟩ := by
        unfold parseStep
        simp [hc]
      have hspace : ¬ (!isSpace c) = true := by simp [isSpace, hc]
      rw [hstep, if_neg hspace, if_neg hspace, List.append_nil, if_neg (Nat.not_lt_of_le hlen),
        List.dropWhile_cons, if_pos (show isSpace c = true from decide_eq_true hc)]
      exact parseLoop_gap fname cs
    · have hletter : (!isSpace c) = true := by simpa [isSpace] using hc
      have hjoin : fname ++ c :: (cs.takeWhile fun c => !isSpace c) =
          fname ++ [c] ++ cs.takeWhile fun c => !isSpace c := by rw [List.append_assoc]; rfl
      rw [if_pos hletter, if_pos hletter, hjoin]
      rcases Nat.lt_or_ge fname.length 32 with hroom | hfull
      · have hstep : parseStep ⟨fname, [], 1⟩ c = some ⟨fname ++ [c], [], 1⟩ := by
          unfold parseStep
          simp [hc, Nat.not_le_of_lt hroom]
        rw [hstep]
        exact ih (fname ++ [c]) (by rw [List.length_append, List.length_singleton]; exact hroom)
      · have hstep : parseStep ⟨fname, [], 1⟩ c = none := by
          unfold parseStep
          simp [hc, hfull]
        rw [hstep, if_pos ?_]
        · rfl
        · rw [List.length_append, List.length_append, List.length_singleton]
          omega

end Loop

/-- The parts of a command. -/
theorem parse_eq (command : CString) : parse command =
    if 32 < (firstWord command.chars).length then none
    else some (firstWord command.chars, argument command.chars) := by
  show stored (parseLoop command.chars ⟨[], [], 0⟩) = _
  unfold firstWord argument trimmed
  generalize command.chars = cs
  induction cs with
  | nil => rfl
  | cons c cs ih =>
    rw [parseLoop, List.dropWhile_cons]
    by_cases hc : c = 0x20
    · have hstep : parseStep ⟨[], [], 0⟩ c = some ⟨[], [], 0⟩ := by
        unfold parseStep
        simp [hc]
      rw [hstep, if_pos (show isSpace c = true from decide_eq_true hc)]
      exact ih
    · have hstep : parseStep ⟨[], [], 0⟩ c = some ⟨[c], [], 1⟩ := by
        unfold parseStep
        simp [hc]
      have hnot : ¬ isSpace c = true := of_decide_eq_true.mt hc
      have hletter : (!isSpace c) = true := by simpa [isSpace] using hc
      rw [hstep, if_neg hnot, List.takeWhile_cons, if_pos hletter, List.dropWhile_cons,
        if_pos hletter]
      exact parseLoop_name [c] cs (show 1 ≤ 32 by decide)

/-- The two parts are pieces of the command: neither holds a NUL, and a file name has at most 32
    characters. -/
theorem parse_parts {command : CString} {name arg : List UInt8}
    (h : parse command = some (name, arg)) : 0 ∉ name ∧ name.length ≤ 32 ∧ 0 ∉ arg := by
  rw [parse_eq] at h
  split at h
  · cases h
  · rename_i hshort
    obtain ⟨rfl, rfl⟩ := Prod.mk.inj (Option.some.inj h)
    refine ⟨fun hmem => ?_, Nat.le_of_not_lt hshort, fun hmem => ?_⟩
    · have hword := (List.takeWhile_prefix _).subset hmem
      exact command.noNul ((List.dropWhile_suffix _).subset hword)
    · have hrest := (List.dropWhile_suffix _).subset ((List.dropWhile_suffix _).subset hmem)
      exact command.noNul ((List.dropWhile_suffix _).subset hrest)

/-- A command is refused for its first word only. -/
theorem parse_eq_none_iff {command : CString} :
    parse command = none ↔ 32 < (firstWord command.chars).length := by
  rw [parse_eq]
  split
  · rename_i hlong
    exact iff_of_true rfl hlong
  · rename_i hshort
    exact iff_of_false (Option.some_ne_none _) hshort

end LmaOS
