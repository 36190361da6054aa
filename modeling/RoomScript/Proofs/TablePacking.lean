import RoomScript.Bytes
import RoomScript.Proofs.Placement

/-!
# Tables of offsets

Several things in a room come as a table of offsets with the parts behind it: the messages of a
language and the functions of a script.  The offsets are words of two or of four bytes and count
from the table, and the parts lie one behind the other in the order of the table.

`packTable` writes such a table.  What it writes is told by `Piece`s: every word and every part is
a piece of the whole (`piece_word`, `piece_part`), and a piece is what is read at its place
(`field?_of_piece` and its siblings).
-/

set_option autoImplicit false

namespace RoomScript
namespace Bytes

/-! ## Pieces are read back -/

section

variable {b : Bytes} {pos : Nat}

theorem window_of_piece {part : Bytes} (h : Piece 0 b.toList pos part.toList) :
    b.window pos part.size = part := by
  refine Array.toList_inj.1 ?_
  rw [toList_window]
  simpa using h.eq_take_drop.symm

/-- A window that lies in a piece of a byte string. -/
theorem toList_window_of_piece {start len : Nat} {part : List UInt8}
    (h : Piece 0 b.toList start part) (hstart : start ≤ pos)
    (hstop : pos + len ≤ start + part.length) :
    (b.window pos len).toList = (part.drop (pos - start)).take len := by
  obtain ⟨before, after, hbytes, rfl⟩ := h
  rw [Nat.zero_add] at hstart hstop ⊢
  have hdrop : (before ++ (part ++ after)).drop pos
      = part.drop (pos - before.length) ++ after := by
    rw [List.drop_append, List.drop_eq_nil_of_le hstart, List.nil_append,
      List.drop_append_of_le_length (by omega)]
  rw [toList_window, hbytes, hdrop, List.take_append_of_le_length]
  rw [List.length_drop]
  omega

/-- Neighbouring windows make one window. -/
theorem window_append (b : Bytes) (start m n : Nat) :
    b.window start (m + n) = b.window start m ++ b.window (start + m) n := by
  refine Array.toList_inj.1 ?_
  rw [Array.toList_append, toList_window, toList_window, toList_window, List.take_add,
    List.drop_drop]

theorem field?_of_piece {part : Bytes} (h : Piece 0 b.toList pos part.toList) :
    b.field? pos part.size = some part := by
  have hstop : pos + part.size ≤ b.size := by simpa using h.stop_le
  rw [field?_eq_some_window hstop, window_of_piece h]

/-- A word that was written is read back, as the number that was meant. -/
theorem field?_of_piece_littleEndian {width n : Nat}
    (h : Piece 0 b.toList pos (littleEndian width n)) :
    (b.field? pos width).map (ofLittleEndian ·.toList) = some (n % Nat.pow 256 width) := by
  have hfield : b.field? pos (littleEndian width n).toArray.size
      = some (littleEndian width n).toArray := field?_of_piece h
  rw [List.size_toArray, length_littleEndian] at hfield
  rw [hfield, Option.map_some, ofLittleEndian_littleEndian]

theorem u16?_of_piece {n : Nat} (h : Piece 0 b.toList pos (littleEndian 2 n))
    (hn : n < UInt16.size) : b.u16? pos = some (UInt16.ofNat n) := by
  obtain ⟨f, hf, hword⟩ := Option.map_eq_some_iff.1 (field?_of_piece_littleEndian h)
  rw [u16?, hf, Option.map_some, hword, Nat.mod_eq_of_lt hn]

theorem u32?_of_piece {n : Nat} (h : Piece 0 b.toList pos (littleEndian 4 n))
    (hn : n < UInt32.size) : b.u32? pos = some (UInt32.ofNat n) := by
  obtain ⟨f, hf, hword⟩ := Option.map_eq_some_iff.1 (field?_of_piece_littleEndian h)
  rw [u32?, hf, Option.map_some, hword, Nat.mod_eq_of_lt hn]

end

/-! ## Words one behind the other -/

/-- The words of a table come one behind the other. -/
theorem piece_of_getElem? {words : List Nat} {i n : Nat} (h : words[i]? = some n)
    (width start : Nat) :
    Piece start (words.flatMap (littleEndian width)) (start + width * i)
      (littleEndian width n) := by
  induction words generalizing i start with
  | nil => cases h
  | cons word words ih =>
    rw [List.flatMap_cons]
    cases i with
    | zero =>
      cases h
      exact .left _ _ _
    | succ i =>
      have hrest := ih h (start + width)
      rw [Nat.add_assoc, Nat.add_comm width, ← Nat.mul_succ] at hrest
      refine (Piece.right start _ _).trans ?_
      rwa [length_littleEndian]

theorem length_flatMap_littleEndian (width : Nat) (words : List Nat) :
    (words.flatMap (littleEndian width)).length = width * words.length := by
  simp only [List.length_flatMap, length_littleEndian, List.map_const', List.sum_replicate_nat]
  exact Nat.mul_comm _ _

/-! ## Parts behind a table -/

/-- The places of some parts, one behind the other from `start` on. -/
def starts : (start : Nat) → List Bytes → List Nat
  | _, [] => []
  | start, part :: rest => start :: starts (start + part.size) rest

@[simp]
theorem length_starts (start : Nat) (parts : List Bytes) :
    (starts start parts).length = parts.length := by
  induction parts generalizing start with
  | nil => rfl
  | cons part rest ih => rw [starts, List.length_cons, ih, List.length_cons]

/-- Some parts, one behind the other. -/
def joined (parts : List Bytes) : List UInt8 := parts.flatMap (·.toList)

/-- Some parts behind a table of their places, in words of `width` bytes. -/
def packTable (width : Nat) (parts : List Bytes) : Bytes :=
  ((starts (width * parts.length) parts).flatMap (littleEndian width) ++ joined parts).toArray

/-- A part lies where the table says, and up to where the next one starts or all of them end. -/
theorem exists_start {parts : List Bytes} {i : Nat} {part : Bytes} (h : parts[i]? = some part)
    (start : Nat) :
    ∃ offset, (starts start parts)[i]? = some offset ∧
      Piece start (joined parts) offset part.toList ∧
        (starts start parts)[i + 1]?.getD (start + (joined parts).length)
          = offset + part.size := by
  induction parts generalizing i start with
  | nil => cases h
  | cons head rest ih =>
    have hjoined : joined (head :: rest) = head.toList ++ joined rest := rfl
    cases i with
    | zero =>
      cases h
      refine ⟨start, rfl, .left _ _ _, ?_⟩
      rw [starts, List.getElem?_cons_succ]
      cases rest with
      | nil => simp [starts, joined]
      | cons next rest => rfl
    | succ i =>
      obtain ⟨offset, hoffset, hpiece, hnext⟩ := ih h (start + head.size)
      refine ⟨offset, hoffset, (Piece.right start head.toList _).trans ?_, ?_⟩
      · rwa [Array.length_toList]
      · rw [starts, List.getElem?_cons_succ, hjoined, List.length_append, Array.length_toList,
          ← Nat.add_assoc]
        exact hnext

section

variable (width : Nat) (parts : List Bytes)

theorem size_packTable :
    (packTable width parts).size = width * parts.length + (joined parts).length := by
  rw [packTable, List.size_toArray, List.length_append, length_flatMap_littleEndian,
    length_starts]

variable {width parts}

theorem piece_word {i offset : Nat}
    (h : (starts (width * parts.length) parts)[i]? = some offset) :
    Piece 0 (packTable width parts).toList (width * i) (littleEndian width offset) := by
  have hword := piece_of_getElem? h width 0
  rw [Nat.zero_add] at hword
  exact (Piece.left 0 _ _).trans hword

theorem piece_part {offset : Nat} {part : Bytes}
    (h : Piece (width * parts.length) (joined parts) offset part.toList) :
    Piece 0 (packTable width parts).toList offset part.toList := by
  refine (Piece.right 0 _ _).trans ?_
  rwa [Nat.zero_add, length_flatMap_littleEndian, length_starts]

end

end Bytes
end RoomScript
