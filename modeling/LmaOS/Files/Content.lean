import LmaOS.Filesys

/-
  `read_data` against the content of a file.

  A file's content is defined from its blocks: the data blocks its inode names, one after the
  other, cut at the file's length (`Image.content_eq`). `read_data_correct`: for every inode,
  offset and length the call copies that part of the content and nothing else, if none of its
  loads faults.
-/
namespace LmaOS

open Util

/-! ## Blocks in order -/

/-- Consecutive chunks of `c` elements are one list: element `j` is element `j % c` of chunk
    `j / c`. -/
theorem flatten_chunks {α : Type} (f : Nat → Nat → α) {c : Nat} (hc : 0 < c) (m : Nat) :
    ((List.range m).map fun k => (List.range c).map (f k)).flatten =
      (List.range (m * c)).map fun j => f (j / c) (j % c) := by
  induction m with
  | zero => rw [Nat.zero_mul]; rfl
  | succ m ih =>
    have hlast : (List.range c).map (f m) =
        ((List.range c).map (m * c + ·)).map fun j => f (j / c) (j % c) := by
      rw [List.map_map]
      refine List.map_congr_left fun j hj => ?_
      have hj : j < c := List.mem_range.mp hj
      have hdiv : (m * c + j) / c = m := by
        rw [Nat.mul_comm, Nat.mul_add_div hc, Nat.div_eq_of_lt hj, Nat.add_zero]
      have hmod : (m * c + j) % c = j := by
        rw [Nat.mul_comm, Nat.mul_add_mod, Nat.mod_eq_of_lt hj]
      show f m j = f ((m * c + j) / c) ((m * c + j) % c)
      rw [hdiv, hmod]
    rw [List.range_succ, List.map_append, List.flatten_append, ih, Nat.succ_mul, List.range_add,
      List.map_append, ← hlast, List.map_singleton, List.flatten_singleton]

namespace Image

/-- The data block number `b` of the image. -/
def block (img : Image) (b : Nat) : List UInt8 :=
  (List.range absBlockSize).map fun j => img.byte (img.dataBlockStart + b * absBlockSize + j)

/-- The data blocks of a file, in order: `ceil(length / 4096)` of them. -/
def fileBlocks (img : Image) (inode : Nat) : List (List UInt8) :=
  (List.range ((img.inodeLength inode + (absBlockSize - 1)) / absBlockSize)).map fun k =>
    img.block (img.dataBlock inode k)

/-- The content of a file is the beginning of its blocks. -/
theorem content_eq (img : Image) (inode : Nat) :
    img.content inode = (img.fileBlocks inode).flatten.take (img.inodeLength inode) := by
  have hblocks : (img.fileBlocks inode).flatten = (List.range
      ((img.inodeLength inode + (absBlockSize - 1)) / absBlockSize * absBlockSize)).map
        (img.contentByte inode) :=
    flatten_chunks (fun k j => img.byte (img.dataBlockStart + img.dataBlock inode k * absBlockSize
      + j)) (Nat.zero_lt_succ 4095) _
  have hfit : img.inodeLength inode ≤
      (img.inodeLength inode + (absBlockSize - 1)) / absBlockSize * absBlockSize := by
    simp only [absBlockSize]
    omega
  rw [hblocks, ← List.map_take, List.take_range, Nat.min_eq_left hfit]
  rfl

end Image

/-! ## read_data -/

/-- `read_data` returned `r` and the bytes of `content` from `offset` on. -/
structure ReadsPart (content : List UInt8) (offset length : Nat) (buf : Buf) (r : Nat × Buf) :
    Prop where
  count : r.1 = min length (content.length - offset)
  bytes : r.2.take r.1 = (content.drop offset).take r.1
  frame : ∀ j, r.1 ≤ j → r.2 j = buf j

theorem take_content (img : Image) (inode offset r : Nat) (h : offset + r ≤ img.inodeLength inode) :
    ((img.content inode).drop offset).take r =
      (List.range r).map fun j => img.contentByte inode (offset + j) := by
  refine List.ext_getElem ?_ fun j h1 h2 => ?_
  · simp only [List.length_take, List.length_drop, Image.content_length, List.length_map,
      List.length_range]
    omega
  · rw [List.getElem_take, List.getElem_drop, List.getElem_map, List.getElem_range]
    exact (List.getElem_map _).trans (congrArg (img.contentByte inode) (List.getElem_range _))

/-- `read_data` returned `r` as it should: nothing for an invalid inode, else the part of the file
    asked for. -/
structure ReadsFile (img : Image) (inode offset length : Nat) (buf : Buf) (r : Nat × Buf) : Prop
    where
  invalid : img.inodeCount ≤ inode → r = (0, buf)
  valid : inode < img.inodeCount →
    ReadsPart ((img.fileBlocks inode).flatten.take (img.inodeLength inode)) offset length buf r

/-- `read_data` on any inode, offset and length, as far as it does not fault. -/
theorem read_data_correct (img : Image)
    (hlen : ∀ n, n < img.inodeCount → img.inodeLength n ≤ datablockSize * absBlockSize)
    (inode : Nat) (offset length : Fin 4294967296) (buf : Buf) :
    ReadsFile img inode offset length buf (readData img inode offset buf length) where
  invalid := by
    intro hout
    unfold readData
    exact if_pos hout
  valid := by
    intro hin
    rw [← img.content_eq, readData_eq img inode offset buf length hin (hlen inode hin) offset.isLt]
    refine ⟨?_, ?_, fun j hj => if_neg (Nat.not_lt_of_le hj)⟩
    · rw [Image.content_length]
    · -- a read at or past the end returns nothing
      dsimp only
      generalize hr : min (length : Nat) (img.inodeLength inode - offset) = r
      rcases Nat.eq_zero_or_pos r with rfl | hpos
      · rfl
      · rw [take_content img inode offset r (by omega)]
        unfold Buf.take
        exact List.map_congr_left fun j hj => if_pos (List.mem_range.mp hj)

end LmaOS
