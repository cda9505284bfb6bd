import LmaOS.Files.Read

/-
  Directory lookup by name.

  `Image.FirstNamed l i`: entry `i` is the first one whose name is `l`. `read_dentry_by_name`
  compares 32 bytes, so a query stands for its first 32 characters (`CString.key`), and what it
  copies is the first entry of that name, as `read_dentry_by_index` copies it.

  * `readDentryByName_first`, `readDentryByName_missing`: the lookup in closed form.
  * `lookup_agrees`: lookup by name and lookup by index agree. With distinct names every entry is
    found under its own name, and what a longer or a shorter query finds is another entry.
-/
namespace LmaOS

open Util

/-- What a query is compared by: its first 32 characters. -/
def CString.key (s : CString) : List UInt8 := s.chars.take filenameLen

namespace Image

/-- Entry `i` is the first one with the name `l`. -/
structure FirstNamed (img : Image) (l : List UInt8) (i : Nat) : Prop where
  listed : i < img.dirCount
  named : img.name i = l
  first : ∀ j, j < i → img.name j ≠ l

section Names

variable {img : Image}

theorem name_length (i : Nat) : (img.name i).length = img.nameLength i := Buf.take_length _ _

theorem name_noNul (i : Nat) : 0 ∉ img.name i := by
  intro h
  obtain ⟨j, hj, hzero⟩ := List.mem_map.mp h
  exact fileName_ne_zero (List.mem_range.mp hj) hzero

/-- The name of entry `i` as a query. -/
def entryName (img : Image) (i : Nat) : CString := ⟨img.name i, name_noNul i⟩

theorem entryName_key (i : Nat) : (img.entryName i).key = img.name i :=
  List.take_of_length_le (Nat.le_trans (Nat.le_of_eq (name_length i)) (nameLength_le img i))

/-- `strncmp` of an entry's field with a query. -/
theorem name_matches_iff (i : Nat) (s : CString) :
    strncmp (img.fileName i) s.buf filenameLen = 0 ↔ img.name i = s.key := by
  rw [strncmp_eq_zero_iff_text, CString.text_buf]
  rfl

theorem FirstNamed.unique {l : List UInt8} {i j : Nat} (hi : img.FirstNamed l i)
    (hj : img.FirstNamed l j) : i = j := by
  rcases Nat.lt_trichotomy i j with hlt | heq | hgt
  · exact absurd hi.named (hj.first i hlt)
  · exact heq
  · exact absurd hj.named (hi.first j hgt)

/-- A name that is listed is listed first somewhere. -/
theorem exists_firstNamed {l : List UInt8} {i : Nat} (hi : i < img.dirCount)
    (hname : img.name i = l) : ∃ j, img.FirstNamed l j := by
  induction i using Nat.strongRecOn with
  | _ i ih =>
    by_cases hearlier : ∃ j, j < i ∧ img.name j = l
    · obtain ⟨j, hj, hjname⟩ := hearlier
      exact ih j hj (Nat.lt_trans hj hi) hjname
    · exact ⟨i, hi, hname, fun j hj hjname => hearlier ⟨j, hj, hjname⟩⟩

end Names

end Image

/-! ## The lookup in closed form -/

section Lookup

variable {img : Image} {s : CString}

/-- A name that is listed: its first entry is copied. -/
theorem readDentryByName_first {i : Nat} (h : img.FirstNamed s.key i) (d : Dentry) :
    readDentryByName img s.buf d = readDentryByIndex img i d := by
  have hlisted := h.listed
  unfold readDentryByName
  rw [readDentryLoop_first d ((Image.name_matches_iff i s).mpr h.named) _ 0 (Nat.zero_le i)
    (by omega) fun j _ hj hmatch => h.first j hj ((Image.name_matches_iff j s).mp hmatch)]
  unfold readDentryByIndex
  rw [if_neg (Nat.not_le_of_lt hlisted)]

/-- A name that is not. -/
theorem readDentryByName_missing (h : ∀ i, i < img.dirCount → img.name i ≠ s.key) (d : Dentry) :
    readDentryByName img s.buf d = (-1, d) := by
  rcases readDentryByName_cases img s.buf d with heq | ⟨i, hi, hmatch, _⟩
  · exact heq
  · exact absurd ((Image.name_matches_iff i s).mp hmatch) (h i hi)

theorem readDentryByIndex_listed {i : Nat} (hi : i < img.dirCount) (d : Dentry) :
    (readDentryByIndex img i d).1 = 0 := by
  unfold readDentryByIndex
  rw [if_neg (Nat.not_le_of_lt hi)]

end Lookup

/-- The lookup succeeds exactly on a name that is listed. -/
theorem readDentryByName_found_iff (img : Image) (s : CString) (d : Dentry) :
    (readDentryByName img s.buf d).1 ≠ -1 ↔ ∃ i, img.FirstNamed s.key i := by
  constructor
  · intro hfound
    by_contra hnone
    refine hfound (congrArg Prod.fst (readDentryByName_missing (fun i hi hname => ?_) d))
    exact hnone (Image.exists_firstNamed hi hname)
  · rintro ⟨i, h⟩
    rw [readDentryByName_first h, readDentryByIndex_listed h.listed]
    decide

/-! ## Lookup by name and by index -/

/-- What a lookup of `s` into `d` returns and leaves: the first entry of that name as lookup by
    index copies it, or -1 and `d` as it was. -/
structure LooksUp (img : Image) (s : CString) (d : Dentry) (r : Int × Dentry) : Prop where
  success : r.1 = 0 ↔ ∃ i, i < img.dirCount ∧ img.name i = s.key
  found : ∀ i, img.FirstNamed s.key i → r = readDentryByIndex img i d
  missing : (∀ i, i < img.dirCount → img.name i ≠ s.key) → r = (-1, d)

/-- No two entries have the same name. -/
def Image.DistinctNames (img : Image) : Prop :=
  ∀ i j, i < img.dirCount → j < img.dirCount → img.name i = img.name j → i = j

theorem readDentryByName_looksUp (img : Image) (s : CString) (d : Dentry) :
    LooksUp img s d (readDentryByName img s.buf d) where
  success := by
    constructor
    · intro hzero
      obtain ⟨i, h⟩ := (readDentryByName_found_iff img s d).mp (by rw [hzero]; decide)
      exact ⟨i, h.listed, h.named⟩
    · rintro ⟨i, hi, hname⟩
      obtain ⟨j, h⟩ := Image.exists_firstNamed hi hname
      rw [readDentryByName_first h, readDentryByIndex_listed h.listed]
  found := fun _ h => readDentryByName_first h d
  missing := fun h => readDentryByName_missing h d

/-- With distinct names an entry is the first one of its name. -/
theorem Image.DistinctNames.first {img : Image} (h : img.DistinctNames) {i : Nat}
    (hi : i < img.dirCount) : img.FirstNamed (img.entryName i).key i := by
  rw [entryName_key]
  exact ⟨hi, rfl, fun j hj hname => Nat.ne_of_lt hj (h j i (Nat.lt_trans hj hi) hi hname)⟩

/-- A query other than a name of fewer than 32 characters is not cut down to it. -/
theorem key_ne_of_short {img : Image} {i : Nat} {s : CString}
    (hshort : (img.name i).length < filenameLen) (hne : s.chars ≠ img.name i) :
    s.key ≠ img.name i := by
  intro hkey
  refine hne ?_
  rcases Nat.lt_or_ge s.chars.length filenameLen with hlt | hge
  · exact (List.take_of_length_le (Nat.le_of_lt hlt)).symm.trans hkey
  · have hlen := congrArg List.length hkey
    unfold CString.key at hlen
    rw [List.length_take, Nat.min_eq_left hge] at hlen
    omega

/-- Lookup by name finds the first entry of the name and copies what lookup by index copies. With
    distinct names each entry is found by its own name, and a prefix or an extension of a name of
    fewer than 32 characters finds something only where another entry has that name. -/
theorem lookup_agrees (img : Image) :
    (∀ (s : CString) (d : Dentry), LooksUp img s d (readDentryByName img s.buf d)) ∧
    (img.DistinctNames → ∀ i, i < img.dirCount → ∀ d : Dentry,
      readDentryByName img (img.entryName i).buf d = readDentryByIndex img i d ∧
      ∀ s : CString, (img.name i).length < filenameLen → s.chars ≠ img.name i →
        s.chars <+: img.name i ∨ img.name i <+: s.chars →
          ((readDentryByName img s.buf d).1 = 0 ↔
            ∃ j, j < img.dirCount ∧ j ≠ i ∧ img.name j = s.key)) := by
  refine ⟨readDentryByName_looksUp img, fun hdistinct i hi d => ?_⟩
  refine ⟨readDentryByName_first (hdistinct.first hi) d, fun s hshort hne _ => ?_⟩
  rw [(readDentryByName_looksUp img s d).success]
  refine exists_congr fun j => and_congr_right fun _ => ?_
  constructor
  · intro hname
    refine ⟨fun hij => key_ne_of_short hshort hne ?_, hname⟩
    rw [← hname, hij]
  · exact And.right

end LmaOS
