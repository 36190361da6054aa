import RoomScript.FunctionTable

/-!
# What the entries of a function table are

`EntryTable.entries` cuts the table of a section off, takes it apart word by word, and in one of the
layouts stops at a zero.  Most of what is proved about functions takes this list as it is.  Here it
is compared with the bytes of the section, one entry at a time: `EntryTable.entryAt?` looks up entry
`i` at its own place, without a list and without a table that is cut off.

* `Bytes.getElem?_halfWords`, `Bytes.getElem?_words`: the words that some bytes make up are the
  words at the multiples of their width.
* `Bytes.field?_window_table`: the words of a table that is cut off are the words of the whole
  section at the same places.
* `EntryTable.getElem?_entries`: entry `i` of the list is `entryAt?`, so the list is what the bytes
  of the section say.
-/

set_option autoImplicit false

namespace RoomScript

/-! ## Words at their places -/

namespace Bytes

theorem map_field?_eq_ite {α : Type} (read : List UInt8 → α) (b : Bytes) (pos len : Nat) :
    ((b.field? pos len).map fun f ↦ read f.toList)
      = if pos + len ≤ b.toList.length then some (read ((b.toList.drop pos).take len))
        else none := by
  rw [field?, apply_ite (Option.map _), Option.map_some, Option.map_none, toList_window,
    Array.length_toList]

/-- The words of 16 bits that some bytes make up are those at the even places. -/
theorem getElem?_halfWords (b : Bytes) (i : Nat) : (halfWords b.toList)[i]? = b.u16? (2 * i) := by
  rw [u16?, map_field?_eq_ite fun bytes ↦ UInt16.ofNat (ofLittleEndian bytes)]
  induction b.toList using halfWords.induct generalizing i with
  | case1 x y rest ih =>
    cases i with
    | zero => simp [halfWords]
    | succ i =>
      have hplace : 2 * (i + 1) = 2 * i + 1 + 1 := by omega
      have hfits : 2 * i + 1 + 1 + 2 ≤ (x :: y :: rest).length ↔ 2 * i + 2 ≤ rest.length := by
        simp only [List.length_cons]
        omega
      rw [halfWords, List.getElem?_cons_succ, ih, hplace, List.drop_succ_cons, List.drop_succ_cons]
      simp only [hfits]
  | case2 bytes hshort =>
    have hlength : ¬ 2 * i + 2 ≤ bytes.length := by
      match bytes with
      | [] | [_] => simp
      | x :: y :: rest => exact absurd rfl (hshort x y rest)
    rw [if_neg hlength, halfWords.eq_2 bytes hshort, List.getElem?_nil]

/-- The words of 32 bits that some bytes make up are those at the multiples of four. -/
theorem getElem?_words (b : Bytes) (i : Nat) : (words b.toList)[i]? = b.u32? (4 * i) := by
  rw [u32?, map_field?_eq_ite fun bytes ↦ UInt32.ofNat (ofLittleEndian bytes)]
  induction b.toList using words.induct generalizing i with
  | case1 x y z w rest ih =>
    cases i with
    | zero => simp [words]
    | succ i =>
      have hplace : 4 * (i + 1) = 4 * i + 1 + 1 + 1 + 1 := by omega
      have hfits : 4 * i + 1 + 1 + 1 + 1 + 4 ≤ (x :: y :: z :: w :: rest).length
          ↔ 4 * i + 4 ≤ rest.length := by
        simp only [List.length_cons]
        omega
      rw [words, List.getElem?_cons_succ, ih, hplace, List.drop_succ_cons, List.drop_succ_cons,
        List.drop_succ_cons, List.drop_succ_cons]
      simp only [hfits]
  | case2 bytes hshort =>
    have hlength : ¬ 4 * i + 4 ≤ bytes.length := by
      match bytes with
      | [] | [_] | [_, _] | [_, _, _] => simp
      | x :: y :: z :: w :: rest => exact absurd rfl (hshort x y z w rest)
    rw [if_neg hlength, words.eq_2 bytes hshort, List.getElem?_nil]

/-- A table at the head of a byte string has the words of the string at its own places, and no
others. -/
theorem field?_window_table {width : Nat} (hwidth : 0 < width) (b : Bytes) (count i : Nat) :
    (b.window 0 (width * count)).field? (width * i) width
      = if i < count then b.field? (width * i) width else none := by
  by_cases h : i < count
  · have hstop : width * i + width ≤ width * count := Nat.mul_le_mul_left width h
    have hwindow : (b.window 0 (width * count)).window (width * i) width
        = b.window (width * i) width := by
      refine Array.toList_inj.1 ?_
      rw [toList_window, toList_window, toList_window, List.drop_zero, List.drop_take,
        List.take_take, Nat.min_eq_left (by omega)]
    have hfits : width * i + width ≤ (b.window 0 (width * count)).size
        ↔ width * i + width ≤ b.size := by
      rw [size_window]
      omega
    rw [if_pos h, field?, field?, hwindow]
    simp only [hfits]
  · have hstart : width * count ≤ width * i := Nat.mul_le_mul_left width (Nat.le_of_not_lt h)
    rw [if_neg h, field?, if_neg]
    rw [size_window]
    omega

end Bytes

/-! ## Entries at their places -/

/-- Up to the first mark, a list is as it was. -/
theorem getElem?_takeWhile_ne {α : Type} [DecidableEq α] (mark : α) (l : List α) (i : Nat) :
    (l.takeWhile (· ≠ mark))[i]? = if ∀ j ≤ i, l[j]? ≠ some mark then l[i]? else none := by
  induction l generalizing i with
  | nil => simp
  | cons a l ih =>
    by_cases ha : a = mark
    · have hmark : ¬ ∀ j ≤ i, (a :: l)[j]? ≠ some mark := fun h ↦
        h 0 (Nat.zero_le i) (congrArg some ha)
      rw [List.takeWhile_cons_of_neg (by simpa using ha), if_neg hmark, List.getElem?_nil]
    · rw [List.takeWhile_cons_of_pos (by simpa using ha)]
      cases i with
      | zero => simp [ha]
      | succ i =>
        have hall : (∀ j ≤ i + 1, (a :: l)[j]? ≠ some mark) ↔ ∀ j ≤ i, l[j]? ≠ some mark := by
          refine ⟨fun h j hj ↦ h (j + 1) (by omega), fun h j hj ↦ ?_⟩
          cases j with
          | zero => simpa using ha
          | succ j => exact h j (by omega)
        rw [List.getElem?_cons_succ, List.getElem?_cons_succ, ih]
        simp only [hall]

namespace EntryTable

/-- Entry `i` of a table, looked up in the section.  The first word of a table with offsets has the
size of the table; in a table of 32 bit words there is nothing behind a zero. -/
def entryAt? (table : EntryTable) (content : Bytes) (i : Nat) : Option UInt32 :=
  match table with
  | lengthPrefixed => if i = 0 then (content.u16? 0).map fun _ ↦ 2 else none
  | halfWords =>
    (content.u16? 0).bind fun first ↦
      if i < first.toNat / 2 then (content.u16? (2 * i)).map UInt16.toUInt32 else none
  | words =>
    (content.u32? 0).bind fun first ↦
      if i < first.toNat / 4 ∧ ∀ j ≤ i, content.u32? (4 * j) ≠ some 0 then content.u32? (4 * i)
      else none

/-- **The entries of a table are those that the bytes of the section say.** -/
theorem getElem?_entries (table : EntryTable) (content : Bytes) (i : Nat) :
    (table.entries content)[i]? = table.entryAt? content i := by
  cases table with
  | lengthPrefixed =>
    cases hfirst : content.u16? 0 <;> cases i <;> simp [entries, entryAt?, hfirst]
  | halfWords =>
    cases hfirst : content.u16? 0 with
    | none => simp [entries, entryAt?, hfirst]
    | some first =>
      have hword : (content.window 0 (2 * (first.toNat / 2))).u16? (2 * i)
          = if i < first.toNat / 2 then content.u16? (2 * i) else none := by
        rw [Bytes.u16?, Bytes.field?_window_table (by decide), apply_ite (Option.map _)]
        rfl
      simp only [entries, entryAt?, hfirst]
      rw [List.getElem?_map, Bytes.getElem?_halfWords, hword, apply_ite (Option.map _),
        Option.map_none, Option.bind_some]
  | words =>
    cases hfirst : content.u32? 0 with
    | none => simp [entries, entryAt?, hfirst]
    | some first =>
      have hword (j : Nat) : (Bytes.words (content.window 0 (4 * (first.toNat / 4))).toList)[j]?
          = if j < first.toNat / 4 then content.u32? (4 * j) else none := by
        rw [Bytes.getElem?_words, Bytes.u32?, Bytes.field?_window_table (by decide),
          apply_ite (Option.map _)]
        rfl
      simp only [entries, entryAt?, hfirst, Option.bind_some]
      rw [getElem?_takeWhile_ne]
      simp only [hword]
      by_cases hi : i < first.toNat / 4
      · -- the words in front of entry `i` are in the table, too
        have hbefore : (∀ j ≤ i, (if j < first.toNat / 4 then content.u32? (4 * j) else none)
            ≠ some 0) ↔ ∀ j ≤ i, content.u32? (4 * j) ≠ some 0 := by
          refine forall₂_congr fun j hj ↦ ?_
          rw [if_pos (by omega)]
        simp only [hbefore, hi, true_and, if_true]
      · simp [hi]

end EntryTable
end RoomScript
