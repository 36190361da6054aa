import Mathlib.Data.List.TakeWhile
import RoomScript.Proofs.Packing
import RoomScript.Proofs.Relocation

/-!
# Functions come back as they were packed

A script section says where its functions start, and the rest is inferred: how many there are from
the first offset, where a function ends from the next one, and where the last one ends from the
section table of the room.  The three layouts do that in three ways, and one of them stops at the
first offset that is zero.

## What is here

* `EntryTable.Packs` — what a section looks like that was packed in a layout.  A table of offsets
  has a part for each function, and the single function has its length in front of it.
* `EntryTable.Packs.entries_eq` — the table of a packed section is read back.  No offset is zero, as
  there is the table in front of the functions, so nothing is taken for the end of the table.
* `EntryTable.Packs.exists_place`, `EntryTable.Packs.exists_function` — what is inferred from the
  table is right: a function lies where its entry says, and ends where it should.
* `EntryTable.Unpacks`, `EntryTable.Packs.unpacks` — the functions of a packed section are those
  that were packed, and this is kept when the section is moved to its place in a room
  (`EntryTable.Unpacks.move`).
* `Room.functions_build` — together with what is known of packed rooms: the functions of a packed
  section are those that were put into it, in order, and calls go to them.

The places of functions are words of 32 bits, and the section has to end below 4 GiB for them to be
right.  A room that is packed and smaller than that is no problem, and this is a part of the main
statement.
-/

set_option autoImplicit false

namespace RoomScript
namespace Bytes

/-! ## Tables are read back -/

/-- Half words that were written are read back. -/
theorem halfWords_flatMap (numbers : List Nat) :
    halfWords (numbers.flatMap (littleEndian 2)) = numbers.map UInt16.ofNat := by
  induction numbers with
  | nil => rfl
  | cons n numbers ih =>
    have hword : UInt16.ofNat (ofLittleEndian [UInt8.ofNat n, UInt8.ofNat (n / 256)])
        = UInt16.ofNat n := by
      rw [show [UInt8.ofNat n, UInt8.ofNat (n / 256)] = littleEndian 2 n from rfl,
        ofLittleEndian_littleEndian]
      exact UInt16.ofNat_mod_size
    rw [List.flatMap_cons, List.map_cons, ← ih, ← hword]
    rfl

/-- Words that were written are read back. -/
theorem words_flatMap (numbers : List Nat) :
    words (numbers.flatMap (littleEndian 4)) = numbers.map UInt32.ofNat := by
  induction numbers with
  | nil => rfl
  | cons n numbers ih =>
    have hword : UInt32.ofNat (ofLittleEndian (littleEndian 4 n)) = UInt32.ofNat n := by
      rw [ofLittleEndian_littleEndian]
      exact UInt32.ofNat_mod_size
    rw [List.flatMap_cons, List.map_cons, ← ih, ← hword]
    rfl

/-- Parts start behind the table, and within what is packed. -/
theorem bounds_of_mem_starts {width offset : Nat} {parts : List Bytes}
    (h : offset ∈ starts (width * parts.length) parts) :
    width * parts.length ≤ offset ∧ offset ≤ (packTable width parts).size := by
  obtain ⟨i, hi⟩ := List.mem_iff_getElem?.1 h
  have hlt := (List.getElem?_eq_some_iff.1 hi).1
  rw [length_starts] at hlt
  obtain ⟨offset', hoffset, hpiece, -⟩ :=
    exists_start (List.getElem?_eq_getElem hlt) (width * parts.length)
  obtain rfl : offset' = offset := Option.some.inj (hoffset.symm.trans hi)
  have hstop := hpiece.stop_le
  rw [size_packTable]
  exact ⟨hpiece.le_start, Nat.le_of_add_right_le hstop⟩

/-- What is packed begins with its table. -/
theorem toList_window_packTable (width : Nat) (parts : List Bytes) :
    ((packTable width parts).window 0 (width * parts.length)).toList
      = (starts (width * parts.length) parts).flatMap (littleEndian width) := by
  rw [toList_window, List.drop_zero, packTable, List.take_left']
  rw [length_flatMap_littleEndian, length_starts]

/-- The first word of a table that is not empty says where the table ends. -/
theorem piece_first_word {width : Nat} {parts : List Bytes} (h : parts ≠ []) :
    Piece 0 (packTable width parts).toList 0 (littleEndian width (width * parts.length)) := by
  obtain ⟨part, rest, rfl⟩ := List.exists_cons_of_ne_nil h
  exact piece_word (i := 0) rfl

end Bytes

/-! ## Sections in the three layouts -/

namespace EntryTable

open Bytes (littleEndian starts packTable)

/-- The place of the first one of `count` functions. -/
def headLength : EntryTable → (count : Nat) → Nat
  | lengthPrefixed, _ => 2
  | halfWords, count => 2 * count
  | words, count => 4 * count

/-- The offsets of functions that were packed. -/
def places (table : EntryTable) (functions : List Bytes) : List Nat :=
  starts (table.headLength functions.length) functions

/-- `content` is a section with the functions `functions`, in the layout `table`. -/
inductive Packs : (table : EntryTable) → (functions : List Bytes) → (content : Bytes) → Prop
  /-- A length, a single function, and whatever else there is in the section. -/
  | lengthPrefixed {f padding : Bytes} (hsize : f.size + 2 < UInt16.size) :
      Packs .lengthPrefixed [f] ((littleEndian 2 (f.size + 2)).toArray ++ (f ++ padding))
  /-- Offsets of 16 bits, and the functions. -/
  | halfWords {functions : List Bytes} (hsize : (packTable 2 functions).size < UInt16.size) :
      Packs .halfWords functions (packTable 2 functions)
  /-- Offsets of 32 bits, and the functions. -/
  | words {functions : List Bytes} : Packs .words functions (packTable 4 functions)

/-- `F` are the functions `functions` of a packed section, as they are found in `file`. -/
structure Unpacks (table : EntryTable) (functions : List Bytes) (F : List ScriptFunction)
    (file : Bytes) : Prop where
  index : F.map (·.index) = List.range functions.length
  code : F.map (fun f ↦ (f.code file).toList) = functions.map (·.toList)
  /-- The offset of a function is the one that was written for it. -/
  entryOffset : F.map (·.entryOffset.toNat) = table.places functions
  /-- Calls go through the whole table. -/
  entries : ∀ f ∈ F, f.entries = F.map (·.entryOffset)

/-- The 16 bit table of a packed section. -/
theorem entries_halfWords {functions : List Bytes}
    (hsize : (packTable 2 functions).size < UInt16.size) :
    EntryTable.halfWords.entries (packTable 2 functions)
      = (starts (2 * functions.length) functions).map UInt32.ofNat := by
  by_cases hnil : functions = []
  · subst hnil
    rfl
  have hlt : 2 * functions.length < UInt16.size := by
    have hle := Bytes.size_packTable 2 functions
    omega
  have hhead : 2 * ((UInt16.ofNat (2 * functions.length)).toNat / 2) = 2 * functions.length := by
    rw [UInt16.toNat_ofNat_of_lt' hlt]
    omega
  simp only [entries, Bytes.u16?_of_piece (Bytes.piece_first_word hnil) hlt, hhead,
    Bytes.toList_window_packTable, Bytes.halfWords_flatMap, List.map_map]
  refine List.map_congr_left fun offset hoffset ↦ ?_
  have hbounds := Bytes.bounds_of_mem_starts hoffset
  refine UInt32.toNat_inj.1 ?_
  rw [Function.comp_apply, UInt16.toNat_toUInt32,
    UInt16.toNat_ofNat_of_lt' (Nat.lt_of_le_of_lt hbounds.2 hsize), UInt32.toNat_ofNat_of_lt']
  exact Nat.lt_trans (Nat.lt_of_le_of_lt hbounds.2 hsize) (by decide)

/-- The 32 bit table of a packed section.  No entry is zero, so nothing ends it early. -/
theorem entries_words {functions : List Bytes}
    (hsize : (packTable 4 functions).size < UInt32.size) :
    EntryTable.words.entries (packTable 4 functions)
      = (starts (4 * functions.length) functions).map UInt32.ofNat := by
  by_cases hnil : functions = []
  · subst hnil
    rfl
  have hlt : 4 * functions.length < UInt32.size := by
    have hle := Bytes.size_packTable 4 functions
    omega
  have hhead : 4 * ((UInt32.ofNat (4 * functions.length)).toNat / 4) = 4 * functions.length := by
    rw [UInt32.toNat_ofNat_of_lt' hlt]
    omega
  simp only [entries, Bytes.u32?_of_piece (Bytes.piece_first_word hnil) hlt, hhead,
    Bytes.toList_window_packTable, Bytes.words_flatMap]
  refine List.takeWhile_eq_self_iff.2 fun entry hentry ↦ ?_
  obtain ⟨offset, hoffset, rfl⟩ := List.mem_map.1 hentry
  have hbounds := Bytes.bounds_of_mem_starts hoffset
  have hpos := List.length_pos_of_ne_nil hnil
  have hne : (UInt32.ofNat offset).toNat ≠ 0 := by
    rw [UInt32.toNat_ofNat_of_lt' (Nat.lt_of_le_of_lt hbounds.2 hsize)]
    omega
  simpa [← UInt32.toNat_inj] using hne

/-- A packed function lies where the table says, and the next entry is where it ends. -/
theorem exists_start_packTable {width i : Nat} {functions : List Bytes} {f : Bytes}
    (hsize : (packTable width functions).size < UInt32.size) (hf : functions[i]? = some f) :
    ∃ offset, (starts (width * functions.length) functions)[i]? = some offset ∧
      Piece 0 (packTable width functions).toList offset f.toList ∧
        min (((((starts (width * functions.length) functions).map UInt32.ofNat)[i + 1]?.map
          UInt32.toNat).getD (packTable width functions).size)) (packTable width functions).size
          = offset + f.size := by
  obtain ⟨offset, hoffset, hpiece, hnext⟩ := Bytes.exists_start hf (width * functions.length)
  have hpiece' := Bytes.piece_part hpiece
  have hstop := hpiece'.stop_le
  rw [Nat.zero_add, Array.length_toList, Array.length_toList] at hstop
  have hread : ((starts (width * functions.length) functions).map UInt32.ofNat)[i + 1]?.map
      UInt32.toNat = (starts (width * functions.length) functions)[i + 1]? := by
    rw [List.getElem?_map, Option.map_map]
    match hentry : (starts (width * functions.length) functions)[i + 1]? with
    | none => rfl
    | some next =>
      have hbounds := Bytes.bounds_of_mem_starts (List.mem_of_getElem? hentry)
      rw [Option.map_some, Function.comp_apply,
        UInt32.toNat_ofNat_of_lt' (Nat.lt_of_le_of_lt hbounds.2 hsize)]
  refine ⟨offset, hoffset, hpiece', ?_⟩
  rw [hread, Bytes.size_packTable, hnext]
  rw [Bytes.size_packTable] at hstop
  exact Nat.min_eq_left hstop

namespace Packs

variable {table : EntryTable} {functions : List Bytes} {content : Bytes}

/-- The length in front of a single function. -/
theorem u16?_lengthPrefixed {f padding content : Bytes} (hsize : f.size + 2 < UInt16.size)
    (hcontent : content = (littleEndian 2 (f.size + 2)).toArray ++ (f ++ padding)) :
    content.u16? 0 = some (UInt16.ofNat (f.size + 2)) := by
  refine Bytes.u16?_of_piece ?_ hsize
  rw [hcontent, Array.toList_append]
  exact .left 0 _ _

section

variable (h : table.Packs functions content) (hsize : content.size < UInt32.size)
include h hsize

/-- **The table of a packed section is read back.** -/
theorem entries_eq : table.entries content = (table.places functions).map UInt32.ofNat := by
  match h with
  | lengthPrefixed hlength => rw [entries, u16?_lengthPrefixed hlength rfl]; rfl
  | halfWords hlength => exact entries_halfWords hlength
  | words => exact entries_words hsize

/-- **A packed function lies where its entry says, and ends where it should.** -/
theorem exists_place {i : Nat} {f : Bytes} (hf : functions[i]? = some f) :
    ∃ offset, (table.places functions)[i]? = some offset ∧
      Piece 0 content.toList offset f.toList ∧
        table.stop content content.size (table.entries content).toArray i = offset + f.size := by
  have hentries := h.entries_eq hsize
  match h with
  | @lengthPrefixed f' padding hlength =>
    obtain ⟨rfl, rfl⟩ : i = 0 ∧ f' = f := by
      match i with
      | 0 => exact ⟨rfl, Option.some.inj hf⟩
      | i + 1 => cases hf
    refine ⟨2, rfl, ?_, ?_⟩
    · rw [Array.toList_append, Array.toList_append]
      exact (Piece.right 0 _ _).trans (.left _ _ _)
    · simp only [stop, u16?_lengthPrefixed hlength rfl, Option.map_some, Option.getD_some,
        UInt16.toNat_ofNat_of_lt' hlength, Array.size_append, List.size_toArray,
        Bytes.length_littleEndian]
      omega
  | halfWords hlength =>
    rw [hentries, stop, List.getElem?_toArray]
    exact exists_start_packTable hsize hf
  | words =>
    rw [hentries, stop, List.getElem?_toArray]
    exact exists_start_packTable hsize hf

theorem length_functions : (table.functions content).length = functions.length := by
  rw [EntryTable.functions, List.length_map, List.length_zipIdx, h.entries_eq hsize,
    List.length_map, places, Bytes.length_starts]

/-- A function of a packed section is the one that was packed. -/
theorem exists_function {i : Nat} {f : Bytes} (hf : functions[i]? = some f) :
    ∃ g, (table.functions content)[i]? = some g ∧ g.index = i ∧
      (table.places functions)[i]? = some g.entryOffset.toNat ∧
        (g.code content).toList = f.toList := by
  obtain ⟨offset, hoffset, hpiece, hstop⟩ := h.exists_place hsize hf
  have hend := hpiece.stop_le
  rw [Nat.zero_add, Array.length_toList, Array.length_toList] at hend
  have hlt : offset < UInt32.size := by omega
  have hentry : (table.entries content)[i]? = some (UInt32.ofNat offset) := by
    rw [h.entries_eq hsize, List.getElem?_map, hoffset, Option.map_some]
  let g : ScriptFunction :=
    { index := i, baseOffset := UInt32.ofNat offset, byteLength := UInt32.ofNat f.size
      entries := table.entries content }
  refine ⟨g, ?_, rfl, ?_, ?_⟩
  · rw [EntryTable.functions, List.getElem?_map, List.getElem?_zipIdx, hentry, Nat.zero_add]
    simp only [Option.map_some]
    rw [hstop, UInt32.toNat_ofNat_of_lt' hlt, Nat.min_eq_left (by omega), Nat.add_sub_cancel_left]
  · rw [hoffset, ScriptFunction.entryOffset, UInt32.sub_zero, UInt32.toNat_ofNat_of_lt' hlt]
  · rw [ScriptFunction.toList_code, UInt32.toNat_ofNat_of_lt' hlt,
      UInt32.toNat_ofNat_of_lt' (by omega), Bytes.window_of_piece hpiece]

/-- **The functions of a packed section are those that were packed.** -/
theorem unpacks : table.Unpacks functions (table.functions content) content := by
  have hlength := h.length_functions hsize
  have hplaces : (table.places functions).length = functions.length := by
    rw [places, Bytes.length_starts]
  have hget : ∀ i (hi : i < functions.length), ∃ hi' : i < (table.functions content).length,
      (table.functions content)[i].index = i ∧
        (table.places functions)[i]? = some (table.functions content)[i].entryOffset.toNat ∧
          ((table.functions content)[i].code content).toList = functions[i].toList := by
    intro i hi
    obtain ⟨g, hg, hall⟩ := h.exists_function hsize (List.getElem?_eq_getElem hi)
    obtain ⟨hi', rfl⟩ := List.getElem?_eq_some_iff.1 hg
    exact ⟨hi', hall⟩
  have hoffsets : (table.functions content).map (·.entryOffset.toNat)
      = table.places functions := by
    refine List.ext_getElem (by rw [List.length_map, hlength, hplaces]) fun i _ hi ↦ ?_
    obtain ⟨_, -, hplace, -⟩ := hget i (by omega)
    rw [List.getElem_map]
    exact (List.getElem_eq_iff hi).2 hplace |>.symm
  refine ⟨?_, ?_, hoffsets, fun g hg ↦ ?_⟩
  · refine List.ext_getElem (by rw [List.length_map, hlength, List.length_range]) fun i _ hi ↦ ?_
    rw [List.length_range] at hi
    obtain ⟨_, hindex, -⟩ := hget i hi
    rw [List.getElem_map, List.getElem_range, hindex]
  · refine List.ext_getElem (by rw [List.length_map, List.length_map, hlength]) fun i _ hi ↦ ?_
    rw [List.length_map] at hi
    obtain ⟨_, -, -, hcode⟩ := hget i hi
    rw [List.getElem_map, List.getElem_map, hcode]
  · have hentries : g.entries = table.entries content := by
      obtain ⟨_, -, rfl⟩ := List.mem_map.1 hg
      rfl
    rw [hentries, h.entries_eq hsize, ← hoffsets, List.map_map]
    exact List.map_congr_left fun _ _ ↦ UInt32.ofNat_toNat

end

/-- Only a section without functions has no bytes. -/
theorem eq_nil_of_isEmpty (h : table.Packs functions content) (hempty : content.isEmpty = true) :
    functions = [] := by
  have hsize : content.size = 0 := Array.isEmpty_iff_size_eq_zero.1 hempty
  match h with
  | lengthPrefixed _ => simp [Bytes.length_littleEndian] at hsize
  | halfWords _ =>
    rw [Bytes.size_packTable] at hsize
    exact List.eq_nil_of_length_eq_zero (by omega)
  | words =>
    rw [Bytes.size_packTable] at hsize
    exact List.eq_nil_of_length_eq_zero (by omega)

end Packs

namespace Unpacks

variable {table : EntryTable} {functions : List Bytes} {F : List ScriptFunction} {file : Bytes}

/-- Functions are the same in a file that has their section at `offset`. -/
theorem move {offset size : Nat} (hend : offset + (file.window offset size).size < UInt32.size)
    (hstop : ∀ f ∈ F, f.baseOffset.toNat + f.byteLength.toNat ≤ (file.window offset size).size)
    (h : table.Unpacks functions F (file.window offset size)) :
    table.Unpacks functions (F.map (·.move offset)) file := by
  have hagrees := fun f hf ↦ ScriptFunction.agrees_move hend (hstop f hf)
  have hentryOffset : (F.map (·.move offset)).map (·.entryOffset) = F.map (·.entryOffset) := by
    rw [List.map_map]
    exact List.map_congr_left fun f hf ↦ (hagrees f hf).entryOffset
  refine ⟨?_, ?_, ?_, fun f hf ↦ ?_⟩
  · rw [← h.index, List.map_map]
    exact List.map_congr_left fun f hf ↦ (hagrees f hf).index
  · rw [← h.code, List.map_map]
    exact List.map_congr_left fun f hf ↦ (hagrees f hf).toList
  · rw [← h.entryOffset, List.map_map]
    exact List.map_congr_left fun f hf ↦ congrArg UInt32.toNat (hagrees f hf).entryOffset
  · obtain ⟨f', hf', rfl⟩ := List.mem_map.1 hf
    rw [hentryOffset, (hagrees f' hf').entries, h.entries f' hf']

/-- Calls go to the functions, by their numbers. -/
theorem callTarget_eq (h : table.Unpacks functions F file) {f : ScriptFunction} (hf : f ∈ F)
    (k : Nat) :
    callTarget f.entries k =
      match F[k]? with
      | some target => .ok target.entryOffset
      | none => .error (.functionOutOfRange k functions.length) := by
  have hlength : F.length = functions.length := by
    rw [← List.length_map, h.index, List.length_range]
  rw [callTarget, h.entries f hf, List.getElem?_map, List.length_map, hlength]
  match F[k]? with
  | some target => rfl
  | none => rfl

end Unpacks
end EntryTable

/-! ## Rooms with functions -/

namespace Room

open EntryTable

variable {d : Draft} {r : Room} {index : Nat} {table : EntryTable} {functions : List Bytes}
  {content : Bytes}

/-- A section that is present has the functions that were packed. -/
theorem unpacks_of_sectionBytes? (h : table.Packs functions content)
    (hcontent : r.sectionBytes? index = some content)
    (hend : ∀ offset, r.sectionOffset? index = some offset →
      offset + content.size < UInt32.size) :
    table.Unpacks functions (r.functions index table) r.bytes := by
  obtain ⟨start, size, hstart, -, rfl⟩ := exists_window hcontent
  have hstop := hend start hstart
  have hsize := Nat.lt_of_le_of_lt (Nat.le_add_left _ _) hstop
  rw [functions_eq hstart hcontent]
  exact (h.unpacks hsize).move hstop fun f hf ↦ EntryTable.le_size_of_mem hsize hf

section

variable (hnodup : (d.sections.map Prod.fst).Nodup) (hr : d.build = .ok r)
  (hmem : (index, content) ∈ d.sections)
include hnodup hr

theorem sectionBytes?_eq_some_iff_of_build (content : Bytes) :
    r.sectionBytes? index = some content ↔
      (index, content) ∈ d.sections ∧ content.isEmpty = false := by
  obtain ⟨-, hoffsets, hbytes⟩ := Draft.eq_of_build_eq_ok hr
  exact Draft.sectionBytes?_eq_some_iff hnodup (Draft.lt_of_build_eq_ok hr) hoffsets hbytes

include hmem

/-- A section that was put in without any bytes is absent. -/
theorem sectionBytes?_eq_none_of_isEmpty (hempty : content.isEmpty = true) :
    r.sectionBytes? index = none := by
  refine Option.eq_none_iff_forall_ne_some.2 fun content' hcontent' ↦ ?_
  obtain ⟨hmem', hne⟩ := (sectionBytes?_eq_some_iff_of_build hnodup hr content').1 hcontent'
  obtain rfl : content' = content := congrArg Prod.snd
    (List.inj_on_of_nodup_map hnodup hmem' hmem rfl)
  rw [hempty] at hne
  cases hne

/-- A section ends within the file. -/
theorem offset_add_size_le {offset : Nat} (hoffset : r.sectionOffset? index = some offset) :
    offset + content.size ≤ r.bytes.size := by
  have hlt := (lt_of_sectionOffset? hoffset).2
  match hempty : content.isEmpty with
  | true =>
    have hzero := Array.isEmpty_iff_size_eq_zero.1 hempty
    omega
  | false =>
    obtain ⟨offset', size, hoffset', -, hwindow⟩ :=
      exists_window ((sectionBytes?_eq_some_iff_of_build hnodup hr content).2 ⟨hmem, hempty⟩)
    obtain rfl : offset' = offset := Option.some.inj (hoffset'.symm.trans hoffset)
    have hle : content.size ≤ r.bytes.size - offset' := by
      rw [hwindow, Bytes.size_window]
      exact Nat.min_le_right _ _
    omega

end

/-- **Functions come back as they were packed.**  Take a draft in which no section comes twice, with
a section that packs some functions in one of the three layouts, beside whatever other sections
there are.  If the section table has entries for all of them and there is room, it is packed.  In
the packed room, if the section ends below 4 GiB:

* there is one function for each one that was packed, numbered in the same order; its code is
  exactly the bytes that were packed, and its offset is the one that was written for it;
* a call of a function, from any of them, goes to the offset of that function, and a call of any
  other number goes nowhere. -/
theorem functions_build (hnodup : (d.sections.map Prod.fst).Nodup)
    (hpacks : table.Packs functions content) (hmem : (index, content) ∈ d.sections) :
    ((∀ entry ∈ d.sections, entry.1 < d.generation.sectionCount) → d.size < UInt32.size →
        ∃ r, d.build = .ok r ∧
          ∀ offset, r.sectionOffset? index = some offset → offset + content.size < UInt32.size) ∧
      ∀ r, d.build = .ok r →
        (∀ offset, r.sectionOffset? index = some offset → offset + content.size < UInt32.size) →
          let F := r.functions index table
          table.Unpacks functions F r.bytes ∧
            ∀ f ∈ F, ∀ k, callTarget f.entries k =
              match F[k]? with
              | some target => .ok target.entryOffset
              | none => .error (.functionOutOfRange k functions.length) := by
  refine ⟨fun hindex hsize ↦ ?_, fun r hr hend ↦ ?_⟩
  · obtain ⟨r, hr, -, -, hbytes⟩ := Draft.exists_build hindex hsize
    have hfile : r.bytes.size < UInt32.size := by rwa [hbytes, Draft.size_packed_file]
    exact ⟨r, hr, fun offset hoffset ↦
      Nat.lt_of_le_of_lt (offset_add_size_le hnodup hr hmem hoffset) hfile⟩
  · suffices hunpacks : table.Unpacks functions (r.functions index table) r.bytes from
      ⟨hunpacks, fun f hf k ↦ hunpacks.callTarget_eq hf k⟩
    match hempty : content.isEmpty with
    | false =>
      have hcontent := (sectionBytes?_eq_some_iff_of_build hnodup hr content).2 ⟨hmem, hempty⟩
      exact unpacks_of_sectionBytes? hpacks hcontent hend
    | true =>
      -- The section is not stored, and there was nothing in it.
      obtain rfl := hpacks.eq_nil_of_isEmpty hempty
      rw [functions_of_sectionBytes?_eq_none
        (sectionBytes?_eq_none_of_isEmpty hnodup hr hmem hempty)]
      exact ⟨rfl, rfl, rfl, nofun⟩

/-- Three sections of one room, one in each layout.  Two of them have empty functions, one in front
of another function and one at the end, where the next section follows. -/
theorem functions_build_neighbours :
    let functions : List Bytes := [#[0x02], #[], #[0x0a, 0x00], #[]]
    let d : Draft :=
      { generation := .re2
        sections := [(17, Bytes.packTable 4 functions), (16, Bytes.packTable 2 functions),
          (18, (Bytes.littleEndian 2 4).toArray ++ (#[0x01, 0x00] ++ #[0xff, 0xff]))] }
    (d.sections.map Prod.fst).Nodup ∧ (∀ entry ∈ d.sections, entry.1 < d.generation.sectionCount) ∧
      d.size < UInt32.size ∧ ∃ r, d.build = .ok r ∧
        (r.functions 16 .halfWords).map (fun f ↦ (f.code r.bytes).toList)
          = [[0x02], [], [0x0a, 0x00], []] ∧
        (r.functions 16 .halfWords).map (·.entryOffset.toNat) = [8, 9, 9, 11] ∧
        (r.functions 17 .words).map (fun f ↦ (f.code r.bytes).toList)
          = [[0x02], [], [0x0a, 0x00], []] ∧
        (r.functions 17 .words).map (·.entryOffset.toNat) = [16, 17, 17, 19] ∧
        (r.functions 18 .lengthPrefixed).map (fun f ↦ (f.code r.bytes).toList)
          = [[0x01, 0x00]] ∧
        (r.functions 18 .lengthPrefixed).map (·.entryOffset.toNat) = [2] := by
  intro functions d
  have hnodup : (d.sections.map Prod.fst).Nodup := by decide
  have hindex : ∀ entry ∈ d.sections, entry.1 < d.generation.sectionCount := by decide
  have hsize : d.size < UInt32.size := by decide +kernel
  have hwords : EntryTable.words.Packs functions (Bytes.packTable 4 functions) := .words
  have hhalfWords : EntryTable.halfWords.Packs functions (Bytes.packTable 2 functions) :=
    .halfWords (by decide +kernel)
  have hsingle : EntryTable.lengthPrefixed.Packs [#[0x01, 0x00]]
      ((Bytes.littleEndian 2 4).toArray ++ (#[0x01, 0x00] ++ #[0xff, 0xff])) :=
    .lengthPrefixed (by decide +kernel)
  obtain ⟨hbuild, hresult⟩ := functions_build hnodup hwords (.head _)
  obtain ⟨hbuild', hresult'⟩ := functions_build hnodup hhalfWords (.tail _ (.head _))
  obtain ⟨hbuild'', hresult''⟩ := functions_build hnodup hsingle (.tail _ (.tail _ (.head _)))
  obtain ⟨r, hr, hend⟩ := hbuild hindex hsize
  obtain ⟨r', hr', hend'⟩ := hbuild' hindex hsize
  obtain ⟨r'', hr'', hend''⟩ := hbuild'' hindex hsize
  obtain rfl : r = r' := Except.ok.inj (hr.symm.trans hr')
  obtain rfl : r = r'' := Except.ok.inj (hr.symm.trans hr'')
  obtain ⟨hunpacks, -⟩ := hresult r hr hend
  obtain ⟨hunpacks', -⟩ := hresult' r hr hend'
  obtain ⟨hunpacks'', -⟩ := hresult'' r hr hend''
  exact ⟨hnodup, hindex, hsize, r, hr, hunpacks'.code.trans (by decide +kernel),
    hunpacks'.entryOffset.trans (by decide +kernel), hunpacks.code.trans (by decide +kernel),
    hunpacks.entryOffset.trans (by decide +kernel), hunpacks''.code.trans (by decide +kernel),
    hunpacks''.entryOffset.trans (by decide +kernel)⟩

end Room
end RoomScript
