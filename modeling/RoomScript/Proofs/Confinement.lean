import RoomScript.Proofs.ByteListing

/-!
# Functions stay inside their section

The table of a script section is not trusted.  Its entries can be odd, unsorted or past the end, and
the first one decides how many of them there are, so that some can be read from the middle of code.
None of this lets a function reach into the next section: where it starts and where it ends are both
cut off at the end of its own one.

What one function can do is said by `ScriptFunction.Confined`.  The places of functions are words of
32 bits, and that none of them wraps around is a part of it.  It is shown for a section that is a
file of its own (`EntryTable.confined_functions`) and kept when the section is moved to its place in
a room (`Confined.move`).
-/

set_option autoImplicit false

namespace RoomScript

/-! ## One function -/

namespace ScriptFunction

/-- A function that was found through the entry `entry` of a section, and ends at `stop`.  The
section has the bytes `content` and starts at `offset` of `file`. -/
structure Confined (f : ScriptFunction) (file : Bytes) (offset : Nat) (content : Bytes)
    (entry : UInt32) (stop : Nat) : Prop where
  sectionOffset : f.sectionOffset.toNat = offset
  /-- An entry past the end of the section is taken to be the end. -/
  baseOffset : f.baseOffset.toNat = offset + min entry.toNat content.size
  byteLength : f.byteLength.toNat = stop - min entry.toNat content.size
  sectionOffset_le : f.sectionOffset ≤ f.baseOffset
  stop_le : f.baseOffset.toNat + f.byteLength.toNat ≤ offset + content.size
  entryOffset : f.entryOffset.toNat = min entry.toNat content.size
  /-- The code is a part of the section. -/
  toList_code : (f.code file).toList
    = (content.toList.drop f.entryOffset.toNat).take f.byteLength.toNat
  size_code : (f.code file).size = f.byteLength.toNat

/-- A function is as long as it says if the file goes on for that long. -/
theorem size_code_of_le {f : ScriptFunction} {file : Bytes}
    (h : f.baseOffset.toNat + f.byteLength.toNat ≤ file.size) :
    (f.code file).size = f.byteLength.toNat := by
  rw [code, Bytes.size_stretch]
  omega

namespace Confined

variable {f : ScriptFunction} {offset size stop : Nat} {file : Bytes} {entry : UInt32}

/-- A function stays inside a section that is moved. -/
theorem move (hend : offset + (file.window offset size).size < UInt32.size)
    (h : f.Confined (file.window offset size) 0 (file.window offset size) entry stop) :
    (f.move offset).Confined file offset (file.window offset size) entry stop := by
  have hsection : f.sectionOffset = 0 := UInt32.toNat_inj.1 h.sectionOffset
  have hstop : f.baseOffset.toNat + f.byteLength.toNat ≤ (file.window offset size).size :=
    Nat.le_trans h.stop_le (Nat.le_of_eq (Nat.zero_add _))
  have hagrees := agrees_move hend hstop
  have hbase : (f.move offset).baseOffset.toNat = offset + f.baseOffset.toNat :=
    toNat_baseOffset_move (by omega)
  have hoffset : (f.move offset).sectionOffset.toNat = offset := by
    rw [ScriptFunction.move, hsection, UInt32.zero_add]
    exact UInt32.toNat_ofNat_of_lt' (by omega)
  refine ⟨hoffset, ?_, h.byteLength, ?_, ?_, ?_, ?_, ?_⟩
  · rw [hbase, h.baseOffset, Nat.zero_add]
  · rw [UInt32.le_iff_toNat_le, hoffset, hbase]
    exact Nat.le_add_right _ _
  · rw [hbase, hagrees.byteLength]
    omega
  · rw [hagrees.entryOffset, h.entryOffset]
  · rw [hagrees.toList, hagrees.entryOffset, hagrees.byteLength, h.toList_code]
  · rw [← Subarray.length_toList, hagrees.toList, Subarray.length_toList, h.size_code,
      hagrees.byteLength]

end Confined
end ScriptFunction

/-! ## The functions of a section -/

namespace EntryTable

variable {table : EntryTable} {content : Bytes}

/-- There is one function for each entry, in the order of the table. -/
theorem getElem?_functions (table : EntryTable) (content : Bytes) (i : Nat) :
    (table.functions content)[i]? = (table.entries content)[i]?.map fun entry ↦
      { index := i
        baseOffset := UInt32.ofNat (min entry.toNat content.size)
        byteLength := UInt32.ofNat (table.stop content content.size
          (table.entries content).toArray i - min entry.toNat content.size)
        entries := table.entries content } := by
  rw [functions, List.getElem?_map, List.getElem?_zipIdx, Option.map_map, Nat.zero_add]
  rfl

theorem map_index_functions (table : EntryTable) (content : Bytes) :
    (table.functions content).map (·.index) = List.range (table.entries content).length := by
  rw [functions, List.map_map, List.range_eq_range',
    ← List.zipIdx_map_snd 0 (table.entries content)]
  rfl

/-- **A function of a section stays inside it.** -/
theorem confined_functions (hsize : content.size < UInt32.size) {i : Nat} {f : ScriptFunction}
    (hf : (table.functions content)[i]? = some f) :
    f.entries = table.entries content ∧ ∃ entry, (table.entries content)[i]? = some entry ∧
      f.Confined content 0 content entry
        (table.stop content content.size (table.entries content).toArray i) := by
  have hmem : f ∈ table.functions content := List.mem_of_getElem? hf
  have hstop := le_size_of_mem hsize hmem
  have hpiece := piece_code hsize hmem
  rw [getElem?_functions] at hf
  obtain ⟨entry, hentry, rfl⟩ := Option.map_eq_some_iff.1 hf
  have hend := table.stop_le content (table.entries content).toArray i
  have hbase : (UInt32.ofNat (min entry.toNat content.size)).toNat = min entry.toNat content.size :=
    UInt32.toNat_ofNat_of_lt' (Nat.lt_of_le_of_lt (Nat.min_le_right _ _) hsize)
  have hsizeCode := ScriptFunction.size_code_of_le hstop
  refine ⟨rfl, entry, hentry, rfl, ?_, UInt32.toNat_ofNat_of_lt' (by omega), UInt32.zero_le, ?_, ?_,
    ?_, hsizeCode⟩
  · rw [hbase, Nat.zero_add]
  · rwa [Nat.zero_add]
  · rw [ScriptFunction.entryOffset, UInt32.sub_zero, hbase]
  · rw [hpiece.eq_take_drop, Subarray.length_toList, hsizeCode, Nat.sub_zero]

end EntryTable

/-! ## The functions of a room -/

namespace Room

variable {r : Room}

/-- The length of a section is the number of its bytes. -/
theorem sectionLength?_eq (r : Room) (index : Nat) :
    r.sectionLength? index = (r.sectionBytes? index).map Array.size := by
  rw [sectionLength?, sectionBytes?, Option.map_map]
  refine Option.map_congr fun offset _ ↦ ?_
  have hend := r.sectionEnd_le offset
  rw [Function.comp_apply, Bytes.size_window]
  omega

/-- Below 4 GiB, the places in a section are words of 32 bits. -/
theorem eq_window (hsize : r.bytes.size < UInt32.size) {index offset : Nat} {content : Bytes}
    (hoffset : r.sectionOffset? index = some offset)
    (hcontent : r.sectionBytes? index = some content) :
    ∃ size, content = r.bytes.window offset size ∧ offset + content.size < UInt32.size := by
  obtain ⟨offset', size, hoffset', hle, rfl⟩ := exists_window hcontent
  obtain rfl : offset' = offset := Option.some.inj (hoffset'.symm.trans hoffset)
  refine ⟨size, rfl, ?_⟩
  rw [Bytes.size_window]
  omega

/-- **The functions of a room stay inside their section.** -/
theorem confined_functions (hsize : r.bytes.size < UInt32.size) {index offset : Nat}
    {content : Bytes} (hoffset : r.sectionOffset? index = some offset)
    (hcontent : r.sectionBytes? index = some content) (table : EntryTable) :
    let F := r.functions index table
    let entries := table.entries content
    F.map (·.index) = List.range entries.length ∧
      ∀ (i : Nat) (f : ScriptFunction), F[i]? = some f →
        f.entries = entries ∧ ∃ entry, entries[i]? = some entry ∧
          f.Confined r.bytes offset content entry
            (table.stop content content.size entries.toArray i) := by
  intro F entries
  obtain ⟨size, rfl, hend⟩ := eq_window hsize hoffset hcontent
  have hcontentSize := Nat.lt_of_le_of_lt (Nat.le_add_left _ _) hend
  have hF : F = (table.functions (r.bytes.window offset size)).map (·.move offset) :=
    functions_eq hoffset hcontent table
  rw [hF]
  refine ⟨?_, fun i f hf ↦ ?_⟩
  · rw [List.map_map]
    exact table.map_index_functions _
  · rw [List.getElem?_map] at hf
    obtain ⟨g, hg, rfl⟩ := Option.map_eq_some_iff.1 hf
    obtain ⟨hentries, entry, hentry, hconfined⟩ := EntryTable.confined_functions hcontentSize hg
    exact ⟨hentries, entry, hentry, hconfined.move hend⟩

/-- The functions of a section are the section from the first entry on, if no entry of the table is
in front of the one before it. -/
theorem flatMap_code_functions (hsize : r.bytes.size < UInt32.size) {index offset : Nat}
    {content : Bytes} (hoffset : r.sectionOffset? index = some offset)
    (hcontent : r.sectionBytes? index = some content) {table : EntryTable}
    (htable : table ≠ .lengthPrefixed) {first : UInt32} {rest : List UInt32}
    (hentries : table.entries content = first :: rest)
    (hsorted : (table.entries content).Pairwise (· ≤ ·)) :
    (r.functions index table).flatMap (fun f ↦ (f.code r.bytes).toList)
      = content.toList.drop (min first.toNat content.size) := by
  obtain ⟨size, rfl, hend⟩ := eq_window hsize hoffset hcontent
  have hcontentSize := Nat.lt_of_le_of_lt (Nat.le_add_left _ _) hend
  rw [hentries] at hsorted
  rw [functions_eq hoffset hcontent table, List.flatMap_map]
  refine Eq.trans (List.flatMap_congr fun g hg ↦ ?_)
    (EntryTable.flatMap_code hcontentSize htable hentries hsorted)
  exact ScriptFunction.toList_code_move hend (EntryTable.le_size_of_mem hcontentSize hg)

/-! ## Main statement -/

/-- **Functions stay inside their section.**  Whatever the bytes of a room below 4 GiB are, and
whatever layout its section `index` is taken to have, an absent section has no functions.  If the
section starts at `offset` and has the bytes `content`:

* the entries of its table are those at their places in `content`;
* there is one function for each entry of its table, they are numbered from zero in the order of the
  table, and they all have the same table;
* each function lies within the section, and its code is a part of the section;
* if the table has offsets and none of them is in front of the one before it, the functions are the
  section from the first entry on. -/
theorem functions_confined (hsize : r.bytes.size < UInt32.size) (index : Nat)
    (table : EntryTable) :
    let F := r.functions index table
    (r.sectionOffset? index = none → F = []) ∧
      ∀ offset, r.sectionOffset? index = some offset → ∃ content,
        r.sectionBytes? index = some content ∧ r.sectionLength? index = some content.size ∧
        let entries := table.entries content
        (∀ i, entries[i]? = table.entryAt? content i) ∧
          F.map (·.index) = List.range entries.length ∧
          (∀ (i : Nat) (f : ScriptFunction), F[i]? = some f →
            f.entries = entries ∧ ∃ entry, entries[i]? = some entry ∧
              f.Confined r.bytes offset content entry
                (table.stop content content.size entries.toArray i)) ∧
          (table ≠ .lengthPrefixed → ∀ first rest, entries = first :: rest →
            entries.Pairwise (· ≤ ·) →
              F.flatMap (fun f ↦ (f.code r.bytes).toList)
                = content.toList.drop (min first.toNat content.size)) := by
  intro F
  refine ⟨fun hnone ↦ functions_of_sectionBytes?_eq_none (by rw [sectionBytes?, hnone]; rfl) table,
    fun offset hoffset ↦ ?_⟩
  obtain ⟨content, hcontent⟩ : ∃ content, r.sectionBytes? index = some content :=
    ⟨_, by rw [sectionBytes?, hoffset]; rfl⟩
  have hlength : r.sectionLength? index = some content.size := by
    rw [sectionLength?_eq, hcontent, Option.map_some]
  obtain ⟨hindex, hconfined⟩ := confined_functions hsize hoffset hcontent table
  exact ⟨content, hcontent, hlength, table.getElem?_entries content, hindex, hconfined,
    fun htable _ _ ↦ flatMap_code_functions hsize hoffset hcontent htable⟩

/-- A table with an odd entry and one that is past the end.  The section behind it is not
reached. -/
theorem functions_confined_past_end :
    let content : Bytes := #[0x06, 0x00, 0x07, 0x00, 0x00, 0x40, 0x01, 0x02, 0x00]
    let file := Draft.Layout.file .re2 1
      { offsets := ((List.replicate 21 0).set 16 92).set 17 101
        body := content ++ #[0x02, 0x00, 0x0a] }
    ∃ r : Room, r.bytes = file ∧ r.bytes.size < UInt32.size ∧ r.sectionOffset? 16 = some 92 ∧
      r.sectionBytes? 16 = some content ∧ EntryTable.halfWords.entries content = [6, 7, 0x4000] ∧
        let F := r.functions 16 .halfWords
        F.map (·.index) = [0, 1, 2] ∧
          (∃ f, F[2]? = some f ∧ f.Confined file 92 content 0x4000 9 ∧ f.byteLength = 0) ∧
            F.flatMap (fun f ↦ (f.code file).toList) = [0x01, 0x02, 0x00] := by
  intro content file
  let r : Room :=
    { generation := .re2, bytes := file, offsets := Generation.offsetTable .re2 file,
      offsets_eq := rfl, header_le := by decide +kernel, offsets_valid := by decide +kernel }
  have hsize : r.bytes.size < UInt32.size := by decide +kernel
  have hoffset : r.sectionOffset? 16 = some 92 := by decide +kernel
  have hcontent : r.sectionBytes? 16 = some content := by decide +kernel
  have hentries : EntryTable.halfWords.entries content = [6, 7, 0x4000] := by decide +kernel
  obtain ⟨-, hpresent⟩ := functions_confined hsize 16 .halfWords
  obtain ⟨content', hcontent', -, -, hindex, hconfined, hall⟩ := hpresent 92 hoffset
  obtain rfl : content = content' := Option.some.inj (hcontent.symm.trans hcontent')
  rw [hentries] at hindex hconfined hall
  have hlength : 2 < (r.functions 16 .halfWords).length := by
    rw [← List.length_map (·.index), hindex]
    decide
  have hlast := List.getElem?_eq_getElem hlength
  obtain ⟨-, entry, hentry, hf⟩ := hconfined 2 _ hlast
  obtain rfl : 0x4000 = entry := Option.some.inj hentry
  have hbyteLength :=
    UInt32.toNat_inj.1 (hf.byteLength.trans (by decide +kernel : _ = (0 : UInt32).toNat))
  refine ⟨r, rfl, hsize, hoffset, hcontent, hentries, hindex, ⟨_, hlast, hf, hbyteLength⟩, ?_⟩
  exact (hall (by decide) 6 [7, 0x4000] rfl (by decide)).trans (by decide +kernel)

end Room
end RoomScript
