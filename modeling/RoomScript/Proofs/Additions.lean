import RoomScript.Proofs.Packing

/-!
# Adding a section to a draft

A section that is added goes behind all the others, and its entry of the table is overwritten.  The
others keep their places.  But where a section ends depends on the table as a whole: if the entry
had a place before, then what was there stays in the file and nothing marks its start any more, so
it falls to the section in front of it.

## What is here

* `Room.Extends` — of two rooms, the second one is the first one after such an addition, in terms of
  their tables and files.  How the sections of the two compare follows from this alone, and there is
  no draft in it.
* `Room.Follows` — whether a section lies right in front of another one.
* `Room.Extends.sectionBytes?_self` — the section that was added has its bytes.
* `Room.Extends.sectionBytes?_of_follows` — a section in front of the old one gets the bytes of the
  old one, behind its own.
* `Room.Extends.sectionBytes?_of_not_follows` — no other section is touched.
* `Room.Draft.extends_of_build` — a draft that is packed before and after an addition gives two such
  rooms.
* `Room.sectionBytes?_build_add` — the three points for drafts, with any history of additions.
-/

set_option autoImplicit false

namespace RoomScript
namespace Room

/-- Section `index` starts where section `before` ends. -/
def Follows (r : Room) (before index : Nat) : Prop :=
  ∃ offset, r.sectionOffset? before = some offset ∧
    r.sectionOffset? index = some (r.sectionEnd offset)

/-! ## A section behind all the others -/

/-- The room `r'` is the room `r` with `content` behind all that is there, as section `index`. -/
structure Extends (r r' : Room) (index : Nat) (content : Bytes) : Prop where
  offsets_eq : r'.offsets = r.offsets.set index r.bytes.size
  index_lt : index < r.offsets.length
  /-- No two sections of the first room are at the same place. -/
  distinct : ∀ i j offset, r.sectionOffset? i = some offset → r.sectionOffset? j = some offset →
    i = j
  size_eq : r'.bytes.size = r.bytes.size + content.size
  /-- The bytes of the sections are where they were. -/
  window_eq : ∀ i offset len, r.sectionOffset? i = some offset → offset + len ≤ r.bytes.size →
    r'.bytes.window offset len = r.bytes.window offset len
  window_content : r'.bytes.window r.bytes.size content.size = content

namespace Extends

variable {r r' : Room} {index : Nat} {content : Bytes} (h : r.Extends r' index content)
include h

theorem mem_offsets_iff {next : Nat} :
    next ∈ r'.offsets ↔ next = r.bytes.size ∨ ∃ k ≠ index, r.offsets[k]? = some next := by
  rw [List.mem_iff_getElem?, h.offsets_eq]
  constructor
  · rintro ⟨k, hk⟩
    by_cases hindex : k = index
    · subst hindex
      rw [List.getElem?_set_self h.index_lt] at hk
      cases hk
      exact .inl rfl
    · rw [List.getElem?_set_ne (Ne.symm hindex)] at hk
      exact .inr ⟨k, hindex, hk⟩
  · rintro (rfl | ⟨k, hindex, hk⟩)
    · exact ⟨index, List.getElem?_set_self h.index_lt⟩
    · exact ⟨k, by rwa [List.getElem?_set_ne (Ne.symm hindex)]⟩

/-- The others keep their places. -/
theorem sectionOffset?_of_ne {j : Nat} (hne : j ≠ index) :
    r'.sectionOffset? j = r.sectionOffset? j := by
  rw [sectionOffset?, h.offsets_eq, List.getElem?_set_ne (Ne.symm hne), sectionOffset?]

theorem sectionOffset?_self : r'.sectionOffset? index = some r.bytes.size := by
  have hheader : 0 < r.generation.headerLength := by cases r.generation <;> decide
  have hle := r.header_le
  rw [sectionOffset?_eq_some_iff, h.offsets_eq]
  exact ⟨List.getElem?_set_self h.index_lt, by omega⟩

theorem sectionEnd_self : r'.sectionEnd r.bytes.size = r'.bytes.size := by
  refine sectionEnd_eq (fun next hnext hlt ↦ ?_) (.inr rfl)
  rcases h.mem_offsets_iff.1 hnext with rfl | ⟨k, -, hk⟩
  · exact absurd hlt (Nat.lt_irrefl _)
  · rcases r.offsets_valid next (List.mem_of_getElem? hk) with hzero | hinside
    · omega
    · omega

section

variable {j offset : Nat} (hj : r.sectionOffset? j = some offset)
include hj

/-- If the section behind stays, or none is there, the end stays. -/
theorem sectionEnd_of_ne (hindex : r.sectionOffset? index ≠ some (r.sectionEnd offset)) :
    r'.sectionEnd offset = r.sectionEnd offset := by
  refine sectionEnd_eq (fun next hnext hlt ↦ ?_) (.inl ?_)
  · rcases h.mem_offsets_iff.1 hnext with rfl | ⟨k, -, hk⟩
    · exact r.sectionEnd_le offset
    · exact sectionEnd_le_of_lt (List.mem_of_getElem? hk) hlt
  · rcases r.sectionEnd_mem_or_eq offset with ⟨hmem, hlt⟩ | hend
    · obtain ⟨k, hk⟩ := List.mem_iff_getElem?.1 hmem
      refine ⟨h.mem_offsets_iff.2 (.inr ⟨k, ?_, hk⟩), hlt⟩
      rintro rfl
      exact hindex (sectionOffset?_eq_some_iff.2 ⟨hk, by omega⟩)
    · -- the new section starts there
      rw [hend]
      exact ⟨h.mem_offsets_iff.2 (.inl rfl), (lt_of_sectionOffset? hj).2⟩

/-- If the section behind goes away, the end is where that section ended. -/
theorem sectionEnd_of_eq (hindex : r.sectionOffset? index = some (r.sectionEnd offset)) :
    r'.sectionEnd offset = r.sectionEnd (r.sectionEnd offset) := by
  have hlt := lt_sectionEnd hj
  have hgone := (sectionOffset?_eq_some_iff.1 hindex).1
  refine sectionEnd_eq (fun next hnext hbehind ↦ ?_) (.inl ?_)
  · rcases h.mem_offsets_iff.1 hnext with rfl | ⟨k, hk, hget⟩
    · exact r.sectionEnd_le _
    · have hmem := List.mem_of_getElem? hget
      have hle := sectionEnd_le_of_lt hmem hbehind
      have hne : next ≠ r.sectionEnd offset := by
        rintro rfl
        exact hk (h.distinct _ _ _ (sectionOffset?_eq_some_iff.2 ⟨hget, by omega⟩) hindex)
      exact sectionEnd_le_of_lt hmem (by omega)
  · rcases r.sectionEnd_mem_or_eq (r.sectionEnd offset) with ⟨hmem, hend⟩ | hend
    · obtain ⟨k, hk⟩ := List.mem_iff_getElem?.1 hmem
      refine ⟨h.mem_offsets_iff.2 (.inr ⟨k, ?_, hk⟩), by omega⟩
      rintro rfl
      have hsame := Option.some.inj (hk.symm.trans hgone)
      omega
    · rw [hend]
      exact ⟨h.mem_offsets_iff.2 (.inl rfl), (lt_of_sectionOffset? hj).2⟩

end

theorem sectionBytes?_self : r'.sectionBytes? index = some content := by
  rw [sectionBytes?, h.sectionOffset?_self, Option.map_some, h.sectionEnd_self, h.size_eq,
    Nat.add_sub_cancel_left, h.window_content]

section

variable {j : Nat} (hne : j ≠ index)
include hne

/-- **A section that does not lie in front of the old one is left alone.** -/
theorem sectionBytes?_of_not_follows (hfollows : ¬ r.Follows j index) :
    r'.sectionBytes? j = r.sectionBytes? j := by
  rw [sectionBytes?, sectionBytes?, h.sectionOffset?_of_ne hne]
  cases hj : r.sectionOffset? j with
  | none => rfl
  | some offset =>
    have hend := h.sectionEnd_of_ne hj fun hindex ↦ hfollows ⟨offset, hj, hindex⟩
    have hlt := lt_sectionEnd hj
    have hle := r.sectionEnd_le offset
    rw [Option.map_some, Option.map_some, hend, h.window_eq j offset _ hj (by omega)]

/-- **The section in front of the old one gets the bytes of the old one.** -/
theorem sectionBytes?_of_follows (hfollows : r.Follows j index) :
    ∃ own old, r.sectionBytes? j = some own ∧ r.sectionBytes? index = some old ∧
      r'.sectionBytes? j = some (own ++ old) := by
  obtain ⟨offset, hj, hindex⟩ := hfollows
  have hend := h.sectionEnd_of_eq hj hindex
  have hlt := lt_sectionEnd hj
  have hlt' := lt_sectionEnd hindex
  have hle := r.sectionEnd_le (r.sectionEnd offset)
  have hlength : r.sectionEnd (r.sectionEnd offset) - offset
      = (r.sectionEnd offset - offset)
        + (r.sectionEnd (r.sectionEnd offset) - r.sectionEnd offset) := by omega
  have hstop : offset + (r.sectionEnd offset - offset) = r.sectionEnd offset := by omega
  have hwindow := r.bytes.window_append offset (r.sectionEnd offset - offset)
    (r.sectionEnd (r.sectionEnd offset) - r.sectionEnd offset)
  rw [← hlength, hstop] at hwindow
  refine ⟨_, _, by rw [sectionBytes?, hj, Option.map_some],
    by rw [sectionBytes?, hindex, Option.map_some], ?_⟩
  rw [sectionBytes?, h.sectionOffset?_of_ne hne, hj, Option.map_some, hend,
    h.window_eq j offset _ hj (by omega), hwindow]

end

end Extends

/-! ## Adding to a draft -/

namespace Draft

theorem contents_append (sections sections' : List (Nat × Bytes)) :
    contents (sections ++ sections') = contents sections ++ contents sections' :=
  List.flatMap_append

theorem placements_append (start : Nat) (sections sections' : List (Nat × Bytes)) :
    placements start (sections ++ sections')
      = placements start sections ++ placements (start + (contents sections).length) sections' := by
  induction sections generalizing start with
  | nil => rfl
  | cons head rest ih =>
    obtain ⟨index, content⟩ := head
    have hstart : start + (contents ((index, content) :: rest)).length
        = start + content.size + (contents rest).length := by
      simp [contents, Nat.add_assoc]
    rw [hstart, List.cons_append, placements, placements, ih]
    split
    · rfl
    · rfl

/-- No two sections that take room are at the same place. -/
theorem eq_of_offset_eq {start : Nat} {sections : List (Nat × Bytes)} {p q : Placed}
    (hp : p ∈ placements start sections) (hq : q ∈ placements start sections)
    (hoffset : p.offset = q.offset) : p = q := by
  have hincreasing : (placements start sections).Pairwise (·.offset < ·.offset) := by
    refine (pairwise_placements start sections).imp_of_mem fun {a b} ha _ hstop ↦ ?_
    have hpos := (piece_of_mem_placements ha).1
    rw [Placed.stop] at hstop
    omega
  have hnodup : ((placements start sections).map Placed.offset).Nodup :=
    List.pairwise_map.2 (hincreasing.imp Nat.ne_of_lt)
  exact List.inj_on_of_nodup_map hnodup hp hq hoffset

variable (d : Draft) (index : Nat) (content : Bytes)

theorem placed_add :
    (d.add index content).placed
      = d.placed ++ if content.isEmpty then [] else [⟨index, d.size, content⟩] :=
  placements_append _ _ _

/-- What is packed of a draft with one more section. -/
theorem packed_add :
    (d.add index content).packed = if content.isEmpty then d.packed
      else ⟨d.packed.offsets.set index d.size, d.packed.body ++ content⟩ := by
  have hcontents : contents (d.add index content).sections
      = contents d.sections ++ content.toList := by
    rw [add, contents_append]
    exact congrArg _ (List.append_nil _)
  have hgeneration : (d.add index content).generation = d.generation := rfl
  rw [packed, placed_add, hcontents, hgeneration, packed]
  cases hcontent : content.isEmpty with
  | true =>
    obtain rfl := Array.isEmpty_iff.1 hcontent
    simp
  | false => simp [fillIn]

variable {d} {index} (hlt : index < d.generation.sectionCount)
include hlt

/-- A draft with one more section is packed as well, however large the section is. -/
theorem exists_build_add (hindex : ∀ entry ∈ d.sections, entry.1 < d.generation.sectionCount)
    (hsize : d.size < UInt32.size) :
    ∃ r', (d.add index content).build = .ok r' ∧ r'.generation = d.generation ∧
      r'.offsets = (d.add index content).packed.offsets ∧
        r'.bytes = (d.add index content).packed.file d.generation d.cameras := by
  refine exists_build_of_offset_lt (d := d.add index content) (fun entry hentry ↦ ?_)
    fun p hp ↦ ?_
  · rcases List.mem_append.1 hentry with hentry | hentry
    · exact hindex entry hentry
    · cases List.mem_singleton.1 hentry
      exact hlt
  · rw [placed_add] at hp
    rcases List.mem_append.1 hp with hp | hp
    · have hbounds := bounds_of_mem_placed hp
      omega
    · split at hp
      · cases hp
      · cases List.mem_singleton.1 hp
        exact hsize

/-- The room of a draft with one more section is the room of the draft, extended. -/
theorem extends_of_build {r r' : Room} (hcontent : content.isEmpty = false)
    (hoffsets : r.offsets = d.packed.offsets)
    (hbytes : r.bytes = d.packed.file d.generation d.cameras)
    (hoffsets' : r'.offsets = (d.add index content).packed.offsets)
    (hbytes' : r'.bytes = (d.add index content).packed.file d.generation d.cameras) :
    r.Extends r' index content := by
  have hpacked := d.packed_add index content
  rw [if_neg (by simp [hcontent])] at hpacked
  have hlength : (d.packed.offsets.set index d.size).length = d.generation.sectionCount := by
    rw [List.length_set, length_packed_offsets]
  have hend : r.bytes.size = d.size := by rw [hbytes, size_packed_file]
  have hbody : Piece 0 r.bytes.toList d.generation.headerLength d.packed.body.toList := by
    rw [hbytes]
    exact Layout.piece_body d.length_packed_offsets
  have hbody' : Piece 0 r'.bytes.toList d.generation.headerLength
      (d.packed.body.toList ++ content.toList) := by
    rw [hbytes', hpacked, ← Array.toList_append]
    exact Layout.piece_body hlength
  have hsum : d.generation.headerLength + d.packed.body.toList.length = d.size := rfl
  have hplaced {i offset : Nat} (hi : r.sectionOffset? i = some offset) :
      ∃ p ∈ d.placed, p.index = i ∧ p.offset = offset := by
    obtain ⟨hget, hne⟩ := sectionOffset?_eq_some_iff.1 hi
    rw [hoffsets] at hget
    exact (exists_of_getElem?_packed_offsets hget).resolve_left hne
  refine ⟨?_, ?_, ?_, ?_, ?_, ?_⟩
  · rw [hoffsets', hpacked, hoffsets, hend]
  · rwa [hoffsets, length_packed_offsets]
  · intro i j offset hi hj
    obtain ⟨p, hp, rfl, hpoffset⟩ := hplaced hi
    obtain ⟨q, hq, rfl, hqoffset⟩ := hplaced hj
    rw [eq_of_offset_eq hp hq (hpoffset.trans hqoffset.symm)]
  · rw [hbytes', hpacked, Layout.size_file hlength, hend, Array.size_append, ← Nat.add_assoc]
    rfl
  · intro i offset len hi hstop
    obtain ⟨p, hp, -, rfl⟩ := hplaced hi
    have hheader := (bounds_of_mem_placed hp).1
    rw [hend] at hstop
    refine Array.toList_inj.1 ?_
    rw [Bytes.toList_window_of_piece hbody hheader (by omega),
      Bytes.toList_window_of_piece hbody' hheader (by rw [List.length_append]; omega),
      List.drop_append_of_le_length (by omega), List.take_append_of_le_length]
    rw [List.length_drop]
    omega
  · have hpiece := hbody'.trans (.right _ _ _)
    rw [hsum, ← hend] at hpiece
    exact Bytes.window_of_piece hpiece

end Draft

/-! ## Main statement -/

/-- **Adding a section leaves the others alone**, but for one of them.  Let a draft be packed, with
any sections, some of them perhaps at the same place of the table, and then be given one more
section.  An empty section changes nothing.  Any other one is found at its place, and of the others
the only one that can change is the one that ends where the replaced section started: it is
followed by the bytes of the replaced section, which are still in the file.  If there is nothing to
replace, the others stay as they are. -/
theorem sectionBytes?_build_add {d : Draft}
    (hindex : ∀ entry ∈ d.sections, entry.1 < d.generation.sectionCount)
    (hsize : d.size < UInt32.size) {index : Nat} (hlt : index < d.generation.sectionCount)
    (content : Bytes) :
    ∃ r r', d.build = .ok r ∧ (d.add index content).build = .ok r' ∧
      (content.isEmpty = true → ∀ j, r'.sectionBytes? j = r.sectionBytes? j) ∧
      (content.isEmpty = false → r'.sectionBytes? index = some content ∧ ∀ j ≠ index,
        (¬ r.Follows j index → r'.sectionBytes? j = r.sectionBytes? j) ∧
        (r.Follows j index → ∃ own old, r.sectionBytes? j = some own ∧
          r.sectionBytes? index = some old ∧ r'.sectionBytes? j = some (own ++ old))) ∧
      ((∀ old, (index, old) ∈ d.sections → old.isEmpty = true) →
        ∀ j ≠ index, r'.sectionBytes? j = r.sectionBytes? j) := by
  obtain ⟨r, hr, hgeneration, hoffsets, hbytes⟩ := Draft.exists_build hindex hsize
  obtain ⟨r', hr', hgeneration', hoffsets', hbytes'⟩ :=
    Draft.exists_build_add content hlt hindex hsize
  refine ⟨r, r', hr, hr', ?_⟩
  cases hcontent : content.isEmpty with
  | true =>
    have hpacked := d.packed_add index content
    rw [if_pos hcontent] at hpacked
    have hsame : r' = r := by
      refine eq_of_bytes_eq (hgeneration'.trans hgeneration.symm) ?_
      rw [hbytes', hpacked, hbytes]
    rw [hsame]
    exact ⟨fun _ _ ↦ rfl, nofun, fun _ _ _ ↦ rfl⟩
  | false =>
    have hextends := Draft.extends_of_build content hlt hcontent hoffsets hbytes hoffsets' hbytes'
    refine ⟨nofun, fun _ ↦ ⟨hextends.sectionBytes?_self, ?_⟩, ?_⟩
    · intro j hne
      exact ⟨hextends.sectionBytes?_of_not_follows hne, hextends.sectionBytes?_of_follows hne⟩
    · intro hold j hne
      refine hextends.sectionBytes?_of_not_follows hne ?_
      -- where nothing was placed, nothing can follow
      rintro ⟨offset, -, hfollows⟩
      obtain ⟨hget, hnonzero⟩ := sectionOffset?_eq_some_iff.1 hfollows
      rw [hoffsets] at hget
      obtain ⟨p, hp, rfl, -⟩ :=
        (Draft.exists_of_getElem?_packed_offsets hget).resolve_left hnonzero
      obtain ⟨hmem, hnonempty⟩ := Draft.exists_mem_placements_iff.1 ⟨p.offset, hp⟩
      rw [hold _ hmem] at hnonempty
      cases hnonempty

/-- A section is replaced that lies between two others. -/
theorem sectionBytes?_build_add_between :
    let d : Draft :=
      { generation := .re2, sections := [(17, #[1]), (16, #[7]), (16, #[2]), (13, #[5])] }
    (∀ entry ∈ d.sections, entry.1 < d.generation.sectionCount) ∧ d.size < UInt32.size ∧
      16 < d.generation.sectionCount ∧
        ∃ r r', d.build = .ok r ∧ (d.add 16 #[3, 4]).build = .ok r' ∧
          r'.sectionBytes? 16 = some #[3, 4] ∧ r'.sectionBytes? 13 = r.sectionBytes? 13 ∧
            ∃ own old, r.sectionBytes? 17 = some own ∧ r.sectionBytes? 16 = some old ∧
              r'.sectionBytes? 17 = some (own ++ old) := by
  intro d
  have hindex : ∀ entry ∈ d.sections, entry.1 < d.generation.sectionCount := by decide
  have hsize : d.size < UInt32.size := by decide +kernel
  have hlt : 16 < d.generation.sectionCount := by decide
  obtain ⟨r, r', hr, hr', -, hadded, -⟩ := sectionBytes?_build_add hindex hsize hlt #[3, 4]
  obtain ⟨hself, hothers⟩ := hadded rfl
  obtain ⟨-, hoffsets, hbytes⟩ := Draft.eq_of_build_eq_ok hr
  have hoffset : r.sectionOffset? 17 = some 92 ∧ r.sectionOffset? 16 = some 94 ∧
      r.sectionOffset? 13 = some 95 := by
    simp only [sectionOffset?, hoffsets]
    decide +kernel
  have hend : r.sectionEnd 92 = 94 ∧ r.sectionEnd 95 = 96 := by
    simp only [sectionEnd, hoffsets, hbytes]
    decide +kernel
  refine ⟨hindex, hsize, hlt, r, r', hr, hr', hself, (hothers 13 (by decide)).1 ?_,
    (hothers 17 (by decide)).2 ⟨92, hoffset.1, ?_⟩⟩
  · rintro ⟨offset, h13, h16⟩
    rw [hoffset.2.2] at h13
    cases h13
    rw [hoffset.2.1, hend.2] at h16
    cases h16
  · rw [hoffset.2.1, hend.1]

/-- A section that is added for the second time changes another section. -/
theorem sectionBytes?_ne_of_replaced :
    let d : Draft := { generation := .re2, sections := [(17, #[1]), (16, #[2])] }
    (∀ entry ∈ d.sections, entry.1 < d.generation.sectionCount) ∧ d.size < UInt32.size ∧
      16 < d.generation.sectionCount ∧
        ∃ r r', d.build = .ok r ∧ (d.add 16 #[3]).build = .ok r' ∧
          r.sectionBytes? 17 = some #[1] ∧ r'.sectionBytes? 17 = some #[1, 2] := by
  intro d
  have hindex : ∀ entry ∈ d.sections, entry.1 < d.generation.sectionCount := by decide
  have hsize : d.size < UInt32.size := by decide +kernel
  have hlt : 16 < d.generation.sectionCount := by decide
  obtain ⟨r, hr, -, hoffsets, hbytes⟩ := Draft.exists_build hindex hsize
  obtain ⟨r', hr', -, hoffsets', hbytes'⟩ := Draft.exists_build_add #[3] hlt hindex hsize
  refine ⟨hindex, hsize, hlt, r, r', hr, hr', ?_, ?_⟩
  · simp only [sectionBytes?, sectionOffset?, sectionEnd, hoffsets, hbytes]
    decide +kernel
  · simp only [sectionBytes?, sectionOffset?, sectionEnd, hoffsets', hbytes']
    decide +kernel

end Room
end RoomScript
