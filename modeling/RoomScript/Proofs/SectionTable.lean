import Mathlib.Logic.ExistsUnique
import RoomScript.Room.Draft

/-!
# The section table cuts the file up

A section table says where sections start, and says so in any order, more than once, and even
inside the header.  Where a section ends is worked out from where the others start.  This file says
that nothing can go wrong with that.

* A file is a room if its header is complete and its offsets are valid (`ofBytes_eq_ok_iff`,
  `exists_ofBytes`).  Otherwise the first offset that is not valid is named
  (`ofBytes_eq_error_of_firstInvalid`).
* A section ends where the next larger offset of the table is, so two sections are at the same
  place or have no byte in common (`sectionEnd_le_of_lt`), and the section with the largest offset
  up to some byte has that byte (`exists_section_at`).

`sections_partition_file` puts this together: the sections of a room are a partition of the file
from the smallest offset on.  `Partitioned` has what that means, by name.  Its first field
(`Partitioned.offset_iff`) says which sections there are at all, from the words of the table, so
that the others are about the table as it stands in the file.
-/

set_option autoImplicit false

namespace RoomScript
namespace Room

/-! ## Which files are rooms -/

/-- Of the offsets that a file of `size` bytes cannot have, the one at `index` is the first. -/
def FirstInvalid (size : Nat) (offsets : List Nat) (index offset : Nat) : Prop :=
  offsets[index]? = some offset ∧ ¬ ValidOffset size offset ∧
    ∀ earlier ∈ offsets.take index, ValidOffset size earlier

instance (size : Nat) (offsets : List Nat) (index offset : Nat) :
    Decidable (FirstInvalid size offsets index offset) :=
  inferInstanceAs (Decidable (_ ∧ _))

theorem find?_zipIdx_eq_some_iff {size : Nat} {offsets : List Nat} {index offset : Nat} :
    offsets.zipIdx.find? (fun entry ↦ ¬ ValidOffset size entry.1) = some (offset, index) ↔
      FirstInvalid size offsets index offset := by
  rw [List.find?_eq_some_iff_getElem, FirstInvalid]
  simp only [List.getElem_zipIdx, Nat.zero_add, List.length_zipIdx, Prod.mk.injEq, decide_not,
    Bool.not_eq_true', decide_eq_false_iff_not, Bool.not_not, decide_eq_true_eq]
  constructor
  · rintro ⟨hinvalid, i, hi, ⟨rfl, rfl⟩, hfirst⟩
    refine ⟨List.getElem?_eq_getElem hi, hinvalid, fun earlier hearlier ↦ ?_⟩
    obtain ⟨j, hj, rfl⟩ := List.mem_take_iff_getElem.1 hearlier
    exact hfirst j (by omega)
  · rintro ⟨hget, hinvalid, hfirst⟩
    obtain ⟨hlt, rfl⟩ := List.getElem?_eq_some_iff.1 hget
    refine ⟨hinvalid, index, hlt, ⟨rfl, rfl⟩, fun j hj ↦ hfirst _ ?_⟩
    exact List.mem_take_iff_getElem.2 ⟨j, by omega, rfl⟩

/-- If not all offsets are valid, one of them is the first that is not. -/
theorem exists_firstInvalid {size : Nat} {offsets : List Nat}
    (h : ¬ ∀ offset ∈ offsets, ValidOffset size offset) :
    ∃ index offset, FirstInvalid size offsets index offset := by
  cases hfind : offsets.zipIdx.find? (fun entry ↦ ¬ ValidOffset size entry.1) with
  | some entry => exact ⟨entry.2, entry.1, find?_zipIdx_eq_some_iff.1 hfind⟩
  | none =>
    refine absurd (fun offset hoffset ↦ ?_) h
    obtain ⟨index, hindex⟩ := List.mem_iff_getElem?.1 hoffset
    have hvalid :=
      List.find?_eq_none.1 hfind (offset, index) (List.mem_zipIdx_iff_getElem?.2 hindex)
    simpa using hvalid

section

variable {g : Generation} {file : Bytes}

/-- Behind a complete header, an offset of the table is a word of the file. -/
theorem exists_word_of_lt (hsize : g.headerLength ≤ file.size) {index : Nat}
    (hindex : index < g.sectionCount) :
    ∃ word, file.u32? (g.tableStart + 4 * index) = some word ∧
      (g.offsetTable file)[index]? = some word.toNat := by
  have hfield : g.tableStart + 4 * index + 4 ≤ file.size := by
    rw [Generation.headerLength] at hsize
    omega
  refine ⟨_, by rw [Bytes.u32?, Bytes.field?_eq_some_window hfield]; rfl, ?_⟩
  rw [Generation.offsetTable, List.getElem?_map, List.getElem?_range hindex, Option.map_some,
    Bytes.u32?, Bytes.field?_eq_some_window hfield]
  rfl

/-- A file with a valid table is a room. -/
theorem exists_ofBytes (hsize : g.headerLength ≤ file.size)
    (hvalid : ∀ offset ∈ g.offsetTable file, ValidOffset file.size offset) :
    ∃ r : Room, ofBytes g file = .ok r ∧ r.generation = g ∧ r.bytes = file := by
  have hnone : (g.offsetTable file).zipIdx.find?
      (fun entry ↦ ¬ ValidOffset file.size entry.1) = none := by
    refine List.find?_eq_none.2 fun entry hentry ↦ ?_
    have hmem := hvalid entry.1 (List.fst_mem_of_mem_zipIdx hentry)
    simpa using hmem
  rw [ofBytes, dif_pos hsize]
  split
  · next h =>
    rw [hnone] at h
    cases h
  · exact ⟨_, rfl, rfl, rfl⟩

/-- There is no more to a room than its file. -/
theorem eq_of_bytes_eq {r r' : Room} (hgeneration : r.generation = r'.generation)
    (hbytes : r.bytes = r'.bytes) : r = r' := by
  have hoffsets : r.offsets = r'.offsets := by
    rw [r.offsets_eq, r'.offsets_eq, hgeneration, hbytes]
  cases r
  cases r'
  cases hgeneration
  cases hbytes
  cases hoffsets
  rfl

/-- A room is what reading its own file gives. -/
theorem ofBytes_eq_ok_iff {r : Room} :
    ofBytes g file = .ok r ↔ r.generation = g ∧ r.bytes = file := by
  constructor
  · intro h
    rw [ofBytes] at h
    split at h
    · split at h
      · cases h
      · cases h
        exact ⟨rfl, rfl⟩
    · cases h
  · rintro ⟨rfl, rfl⟩
    have hvalid := r.offsets_valid
    rw [r.offsets_eq] at hvalid
    obtain ⟨r', hr', hgeneration, hbytes⟩ := exists_ofBytes r.header_le hvalid
    rw [hr', eq_of_bytes_eq hgeneration hbytes]

theorem ofBytes_eq_error_of_lt (hsize : file.size < g.headerLength) :
    ofBytes g file = .error (.tooSmall g file.size) := by
  rw [ofBytes, dif_neg (Nat.not_le.2 hsize)]

/-- The first offset that is not valid is named. -/
theorem ofBytes_eq_error_of_firstInvalid (hsize : g.headerLength ≤ file.size) {index offset : Nat}
    (h : FirstInvalid file.size (g.offsetTable file) index offset) :
    ofBytes g file = .error (.offsetOutside index offset file.size) := by
  have hfind := find?_zipIdx_eq_some_iff.2 h
  rw [ofBytes, dif_pos hsize]
  split
  · next offset' index' h' =>
    rw [hfind] at h'
    cases h'
    rfl
  · next h' =>
    rw [hfind] at h'
    cases h'

end

/-! ## Where sections end -/

section

variable {r : Room}

/-- If no section starts between `offset` and `stop`, and at `stop` a section starts or the file
ends, then a section at `offset` ends at `stop`. -/
theorem sectionEnd_eq {offset stop : Nat}
    (hbetween : ∀ next ∈ r.offsets, offset < next → stop ≤ next)
    (hstop : (stop ∈ r.offsets ∧ offset < stop) ∨ stop = r.bytes.size) :
    r.sectionEnd offset = stop := by
  have hle : ∀ next ∈ r.offsets.filter (offset < ·), stop ≤ next := by
    intro next hnext
    obtain ⟨hmem, hlt⟩ := List.mem_filter.1 hnext
    exact hbetween next hmem (by simpa using hlt)
  rw [sectionEnd]
  rcases hstop with ⟨hmem, hlt⟩ | rfl
  · rw [List.min?_eq_some_iff.2 ⟨List.mem_filter.2 ⟨hmem, by simpa using hlt⟩, hle⟩]
  · -- no section starts at the end of the file
    have hnil : r.offsets.filter (offset < ·) = [] := by
      refine List.eq_nil_iff_forall_not_mem.2 fun next hnext ↦ ?_
      have hsize := hle next hnext
      obtain ⟨hmem, hlt⟩ := List.mem_filter.1 hnext
      have hoffset : offset < next := by simpa using hlt
      rcases r.offsets_valid next hmem with h | h
      · omega
      · omega
    rw [hnil]
    rfl

/-- A section ends where another one starts, or with the file. -/
theorem sectionEnd_mem_or_eq (r : Room) (offset : Nat) :
    (r.sectionEnd offset ∈ r.offsets ∧ offset < r.sectionEnd offset) ∨
      r.sectionEnd offset = r.bytes.size := by
  rw [sectionEnd]
  cases hmin : (r.offsets.filter (offset < ·)).min? with
  | none => exact .inr rfl
  | some next =>
    obtain ⟨hmem, hlt⟩ := List.mem_filter.1 (List.min?_mem hmin)
    exact .inl ⟨hmem, by simpa using hlt⟩

/-- A section ends before any other one that starts behind it. -/
theorem sectionEnd_le_of_lt {offset next : Nat} (hnext : next ∈ r.offsets) (hlt : offset < next) :
    r.sectionEnd offset ≤ next := by
  have hmem : next ∈ r.offsets.filter (offset < ·) :=
    List.mem_filter.2 ⟨hnext, by simpa using hlt⟩
  rw [sectionEnd]
  cases hmin : (r.offsets.filter (offset < ·)).min? with
  | none =>
    rw [List.min?_eq_none_iff.1 hmin] at hmem
    cases hmem
  | some first => exact (List.min?_eq_some_iff.1 hmin).2 next hmem

theorem sectionOffset?_eq_some_iff {index offset : Nat} :
    r.sectionOffset? index = some offset ↔ r.offsets[index]? = some offset ∧ offset ≠ 0 := by
  rw [sectionOffset?, Option.filter_eq_some_iff]
  simp

theorem mem_offsets_of_sectionOffset? {index offset : Nat}
    (h : r.sectionOffset? index = some offset) : offset ∈ r.offsets :=
  List.mem_of_getElem? (sectionOffset?_eq_some_iff.1 h).1

/-- **There are no gaps**: a byte behind the start of some section belongs to a section. -/
theorem exists_section_at {pos : Nat} (hpos : pos < r.bytes.size)
    (h : ∃ index offset, r.sectionOffset? index = some offset ∧ offset ≤ pos) :
    ∃ index offset, r.sectionOffset? index = some offset ∧ offset ≤ pos ∧
      pos < r.sectionEnd offset := by
  -- the section that starts last, of those that start up to `pos`
  let starts := r.offsets.filter fun offset ↦ offset ≠ 0 ∧ offset ≤ pos
  have mem_starts {offset : Nat} :
      offset ∈ starts ↔ offset ∈ r.offsets ∧ offset ≠ 0 ∧ offset ≤ pos := by
    simp only [starts, List.mem_filter, decide_eq_true_eq]
  cases hmax : starts.max? with
  | none =>
    obtain ⟨index, offset, hoffset, hle⟩ := h
    have hmem : offset ∈ starts := mem_starts.2
      ⟨mem_offsets_of_sectionOffset? hoffset, (sectionOffset?_eq_some_iff.1 hoffset).2, hle⟩
    rw [List.max?_eq_none_iff.1 hmax] at hmem
    cases hmem
  | some last =>
    obtain ⟨hlast, hgreatest⟩ := List.max?_eq_some_iff.1 hmax
    obtain ⟨hmem, hne, hle⟩ := mem_starts.1 hlast
    obtain ⟨index, hindex⟩ := List.mem_iff_getElem?.1 hmem
    refine ⟨index, last, sectionOffset?_eq_some_iff.2 ⟨hindex, hne⟩, hle, ?_⟩
    rcases r.sectionEnd_mem_or_eq last with ⟨hend, hlt⟩ | hend
    · by_cases hpast : pos < r.sectionEnd last
      · exact hpast
      · have hstart : r.sectionEnd last ∈ starts := mem_starts.2 ⟨hend, by omega, by omega⟩
        have hback := hgreatest _ hstart
        omega
    · rwa [hend]

end

/-! ## Main statement -/

/-- Section `index` has the `length` bytes from `offset` on. -/
def HasRange (r : Room) (index offset length : Nat) : Prop :=
  r.sectionOffset? index = some offset ∧ r.sectionLength? index = some length

theorem hasRange_iff {r : Room} {index offset length : Nat} :
    r.HasRange index offset length ↔
      r.sectionOffset? index = some offset ∧ length = r.sectionEnd offset - offset := by
  refine and_congr_right fun hoffset ↦ ?_
  rw [sectionLength?, hoffset, Option.map_some, Option.some.injEq]
  exact eq_comm

theorem HasRange.stop_eq {r : Room} {index offset length : Nat}
    (h : r.HasRange index offset length) : offset + length = r.sectionEnd offset := by
  obtain ⟨hoffset, rfl⟩ := hasRange_iff.1 h
  exact Nat.add_sub_cancel' (Nat.le_of_lt (lt_sectionEnd hoffset))

/-- The sections of a room are a partition of its file, from the smallest offset on. -/
structure Partitioned (r : Room) : Prop where
  /-- A section is present if its offset in the table is not zero, and starts there. -/
  offset_iff : ∀ index offset, r.sectionOffset? index = some offset ↔
    r.offsets[index]? = some offset ∧ offset ≠ 0
  /-- A section that is present has at least one byte and ends inside the file, and its bytes are
  the ones found there. -/
  present : ∀ index offset, r.sectionOffset? index = some offset → ∃ length,
    r.HasRange index offset length ∧ 1 ≤ length ∧ offset + length ≤ r.bytes.size ∧
      r.sectionBytes? index = r.bytes.field? offset length
  absent : ∀ index, r.sectionOffset? index = none →
    r.sectionLength? index = none ∧ r.sectionBytes? index = none
  /-- Sections at the same place are the same bytes. -/
  shared : ∀ index index' offset length length', r.HasRange index offset length →
    r.HasRange index' offset length' → length = length'
  disjoint : ∀ index index' offset offset' length length', r.HasRange index offset length →
    r.HasRange index' offset' length' → offset ≠ offset' →
      offset + length ≤ offset' ∨ offset' + length' ≤ offset
  covering : ∀ pos < r.bytes.size,
    (∃ index offset, r.sectionOffset? index = some offset ∧ offset ≤ pos) →
      ∃! range : Nat × Nat, (∃ index, r.HasRange index range.1 range.2) ∧
        range.1 ≤ pos ∧ pos < range.1 + range.2
  /-- The table of contents has the sections that are present, with their ranges. -/
  listed : ∀ entry, entry ∈ r.sections ↔ r.HasRange entry.index entry.offset entry.length ∧
    entry.kind? = r.generation.sectionKind? entry.index
  ascending : r.sections.Pairwise (·.index < ·.index)

theorem mem_sections_iff {r : Room} {entry : Entry} :
    entry ∈ r.sections ↔ r.HasRange entry.index entry.offset entry.length ∧
      entry.kind? = r.generation.sectionKind? entry.index := by
  obtain ⟨index, kind?, offset, length⟩ := entry
  simp only [sections, List.mem_filterMap, List.mem_range, Option.map_eq_some_iff, Entry.mk.injEq,
    hasRange_iff]
  constructor
  · rintro ⟨_, -, _, hoffset, rfl, rfl, rfl, rfl⟩
    exact ⟨⟨hoffset, rfl⟩, rfl⟩
  · rintro ⟨⟨hoffset, rfl⟩, rfl⟩
    have hlt := (List.getElem?_eq_some_iff.1 (sectionOffset?_eq_some_iff.1 hoffset).1).1
    exact ⟨index, hlt, offset, hoffset, rfl, rfl, rfl, rfl⟩

/-- No section is listed twice, and they are listed in order. -/
theorem pairwise_sections (r : Room) : r.sections.Pairwise (·.index < ·.index) := by
  rw [sections, List.pairwise_filterMap]
  refine List.pairwise_lt_range.imp fun hlt entry hentry entry' hentry' ↦ ?_
  obtain ⟨_, -, rfl⟩ := Option.map_eq_some_iff.1 hentry
  obtain ⟨_, -, rfl⟩ := Option.map_eq_some_iff.1 hentry'
  exact hlt

theorem HasRange.disjoint {r : Room} {index index' offset offset' length length' : Nat}
    (h : r.HasRange index offset length) (h' : r.HasRange index' offset' length')
    (hne : offset ≠ offset') : offset + length ≤ offset' ∨ offset' + length' ≤ offset := by
  rw [h.stop_eq, h'.stop_eq]
  rcases Nat.lt_or_gt_of_ne hne with hlt | hlt
  · exact .inl (sectionEnd_le_of_lt (mem_offsets_of_sectionOffset? h'.1) hlt)
  · exact .inr (sectionEnd_le_of_lt (mem_offsets_of_sectionOffset? h.1) hlt)

theorem HasRange.length_eq {r : Room} {index index' offset length length' : Nat}
    (h : r.HasRange index offset length) (h' : r.HasRange index' offset length') :
    length = length' := by
  rw [(hasRange_iff.1 h).2, (hasRange_iff.1 h').2]

theorem partitioned (r : Room) : r.Partitioned where
  offset_iff _ _ := sectionOffset?_eq_some_iff
  present index offset hoffset := by
    have hlt := lt_sectionEnd hoffset
    have hle := r.sectionEnd_le offset
    have hstop : offset + (r.sectionEnd offset - offset) ≤ r.bytes.size := by omega
    refine ⟨_, hasRange_iff.2 ⟨hoffset, rfl⟩, by omega, hstop, ?_⟩
    rw [sectionBytes?, hoffset, Option.map_some, Bytes.field?_eq_some_window hstop]
  absent index hoffset := by
    rw [sectionLength?, sectionBytes?, hoffset]
    exact ⟨rfl, rfl⟩
  shared _ _ _ _ _ h h' := h.length_eq h'
  disjoint _ _ _ _ _ _ h h' hne := h.disjoint h' hne
  covering pos hpos hstart := by
    obtain ⟨index, offset, hoffset, hle, hlt⟩ := exists_section_at hpos hstart
    have hrange := hasRange_iff.2 ⟨hoffset, rfl⟩
    refine ⟨(offset, _), ⟨⟨index, hrange⟩, hle, by rwa [hrange.stop_eq]⟩, ?_⟩
    rintro ⟨offset', length'⟩ ⟨⟨index', hrange'⟩, hle', hlt'⟩
    by_cases hsame : offset' = offset
    · subst hsame
      exact congrArg (Prod.mk offset') (hrange'.length_eq hrange)
    · have hstop := hrange.stop_eq
      have hdisjoint := hrange'.disjoint hrange hsame
      dsimp only at hle' hlt'
      omega
  listed _ := mem_sections_iff
  ascending := r.pairwise_sections

/-- **The section table partitions the file.**  A file is accepted if and only if its header is
complete and every offset of its table is zero or inside the file; otherwise it is refused for its
size, or else for the first offset that is not valid.  A file that is accepted is cut up by its
sections, however their offsets are ordered and shared. -/
theorem sections_partition_file (g : Generation) (file : Bytes) :
    ((∃ r, ofBytes g file = .ok r) ↔ g.headerLength ≤ file.size ∧
      ∀ offset ∈ g.offsetTable file, ValidOffset file.size offset) ∧
    (file.size < g.headerLength → ofBytes g file = .error (.tooSmall g file.size)) ∧
    (g.headerLength ≤ file.size →
      (∀ index < g.sectionCount, ∃ word, file.u32? (g.tableStart + 4 * index) = some word ∧
        (g.offsetTable file)[index]? = some word.toNat) ∧
      ((¬ ∃ r, ofBytes g file = .ok r) → ∃ index offset,
        FirstInvalid file.size (g.offsetTable file) index offset ∧
          ofBytes g file = .error (.offsetOutside index offset file.size))) ∧
    ∀ r, ofBytes g file = .ok r →
      r.generation = g ∧ r.bytes = file ∧ r.offsets = g.offsetTable file ∧ r.Partitioned := by
  have haccepted : (∃ r, ofBytes g file = .ok r) ↔ g.headerLength ≤ file.size ∧
      ∀ offset ∈ g.offsetTable file, ValidOffset file.size offset := by
    constructor
    · rintro ⟨r, hr⟩
      obtain ⟨rfl, rfl⟩ := ofBytes_eq_ok_iff.1 hr
      rw [← r.offsets_eq]
      exact ⟨r.header_le, r.offsets_valid⟩
    · rintro ⟨hsize, hvalid⟩
      obtain ⟨r, hr, -⟩ := exists_ofBytes hsize hvalid
      exact ⟨r, hr⟩
  refine ⟨haccepted, ofBytes_eq_error_of_lt, fun hsize ↦ ⟨fun index ↦ exists_word_of_lt hsize, ?_⟩,
    fun r hr ↦ ?_⟩
  · intro hrefused
    have hinvalid : ¬ ∀ offset ∈ g.offsetTable file, ValidOffset file.size offset :=
      fun hvalid ↦ hrefused (haccepted.2 ⟨hsize, hvalid⟩)
    obtain ⟨index, offset, hfirst⟩ := exists_firstInvalid hinvalid
    exact ⟨index, offset, hfirst, ofBytes_eq_error_of_firstInvalid hsize hfirst⟩
  · obtain ⟨rfl, rfl⟩ := ofBytes_eq_ok_iff.1 hr
    exact ⟨rfl, rfl, r.offsets_eq, r.partitioned⟩

/-- Sections out of order, two of them at the same place and one that begins in the header; the
same file with two offsets that are too large; and a file that ends in its header. -/
theorem sections_partition_file_overlapping :
    let offsets := ((((List.replicate 21 0).set 16 92).set 17 92).set 13 94).set 18 90
    let file := Draft.Layout.file .re2 1 { offsets, body := #[1, 2, 3, 4] }
    let bad := Draft.Layout.file .re2 1
      { offsets := (offsets.set 9 200).set 8 96, body := #[1, 2, 3, 4] }
    (∃ r, ofBytes .re2 file = .ok r ∧ r.Partitioned ∧ r.HasRange 16 92 2 ∧ r.HasRange 17 92 2 ∧
      r.HasRange 13 94 2 ∧ r.HasRange 18 90 2 ∧ r.sectionBytes? 17 = some #[1, 2]) ∧
    (FirstInvalid 96 (Generation.offsetTable .re2 bad) 8 96 ∧
      ∃ index offset, FirstInvalid 96 (Generation.offsetTable .re2 bad) index offset ∧
        ofBytes .re2 bad = .error (.offsetOutside index offset 96)) ∧
    ofBytes .re2 #[0, 1] = .error (.tooSmall .re2 2) := by
  intro offsets file bad
  let r : Room :=
    { generation := .re2, bytes := file, offsets := Generation.offsetTable .re2 file,
      offsets_eq := rfl, header_le := by decide +kernel, offsets_valid := by decide +kernel }
  have hr : ofBytes .re2 file = .ok r := ofBytes_eq_ok_iff.2 ⟨rfl, rfl⟩
  obtain ⟨-, -, -, haccepted⟩ := sections_partition_file .re2 file
  obtain ⟨-, -, -, hpartitioned⟩ := haccepted r hr
  obtain ⟨hiff, -, hlarge, -⟩ := sections_partition_file .re2 bad
  have hrefused : ¬ ∃ r, ofBytes .re2 bad = .ok r := by
    rw [hiff]
    decide +kernel
  obtain ⟨-, hsmall, -⟩ := sections_partition_file .re2 #[0, 1]
  refine ⟨⟨r, hr, hpartitioned, ⟨?_, ?_⟩, ⟨?_, ?_⟩, ⟨?_, ?_⟩, ⟨?_, ?_⟩, ?_⟩,
    ⟨by decide +kernel, (hlarge (by decide +kernel)).2 hrefused⟩, hsmall (by decide)⟩ <;>
  decide +kernel

end Room
end RoomScript
