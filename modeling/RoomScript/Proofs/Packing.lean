import Mathlib.Data.List.Nodup
import RoomScript.Proofs.SectionTable
import RoomScript.Proofs.TablePacking

/-!
# Packing keeps the sections

A packed file says where its sections start and not where they end.  Whoever reads it takes the end
of a section to be the next larger offset of the table, or the end of the file.  This is right as
long as the writer leaves no gaps, and the writer leaves none: the sections are placed one behind
the other, and an empty one takes no room and gets no place.

## What is here

* `Draft.placements` — the sections that are not empty, with their places.  No section starts inside
  another one (`Draft.pairwise_placements`), and where one ends the next one starts or all of them
  end (`Draft.exists_offset_eq_stop`).  These two are all that reading needs.
* `Draft.fillIn` — a table with the places filled in.  It has no other offsets
  (`Draft.exists_of_getElem?_fillIn`), and if no section comes twice it has them all
  (`Draft.getElem?_fillIn_of_mem`); otherwise the last one of an index would win.
* `Draft.foldlM_place_eq_ok_iff` — laying sections out, one after the other, comes to this table and
  to all contents in a row.  It fails if the table has no entry for a section or a section starts at
  4 GiB or behind, and for no other reason.
* `Draft.Layout.offsetTable_file`, `Draft.Layout.piece_body` — the table and the contents are found
  in the file again, whatever the header has in front of them.
* `Draft.exists_build` — a draft is packed if the table has entries for its sections and there is
  room.
* `Draft.sectionBytes?_eq_some_iff` — a packed draft has its own sections and no others, in whatever
  order they were given.
* `sectionBytes?_build` — both together, and for the draft of a room that was read.

The draft of a room is as good as any other, even if the room's own sections share their bytes,
overlap the header or come in any order: no section comes twice in it (`nodup_draft_sections`), and
packing it writes each section for itself.
-/

set_option autoImplicit false

namespace RoomScript
namespace Room

namespace Draft

/-! ## The places of sections -/

/-- A section that has a place in the file. -/
structure Placed where
  index : Nat
  offset : Nat
  content : Bytes

/-- Where a section ends. -/
def Placed.stop (p : Placed) : Nat := p.offset + p.content.size

/-- The sections that are not empty, one behind the other from `start` on. -/
def placements : (start : Nat) → List (Nat × Bytes) → List Placed
  | _, [] => []
  | start, (index, content) :: rest =>
    let behind := placements (start + content.size) rest
    if content.isEmpty then behind else ⟨index, start, content⟩ :: behind

/-- The bytes of some sections, one behind the other. -/
def contents (sections : List (Nat × Bytes)) : List UInt8 := sections.flatMap (·.2.toList)

/-- The size of the file of a draft. -/
def size (d : Draft) : Nat := d.generation.headerLength + (contents d.sections).length

section

variable {start : Nat} {sections : List (Nat × Bytes)} {p : Placed}

theorem mem_placements_cons {index : Nat} {content : Bytes} :
    p ∈ placements start ((index, content) :: sections) ↔
      (content.isEmpty = false ∧ p = ⟨index, start, content⟩) ∨
        p ∈ placements (start + content.size) sections := by
  rw [placements]
  cases content.isEmpty <;> simp

/-- What is placed is what is there and not empty. -/
theorem exists_mem_placements_iff {index : Nat} {content : Bytes} :
    (∃ offset, ⟨index, offset, content⟩ ∈ placements start sections) ↔
      (index, content) ∈ sections ∧ content.isEmpty = false := by
  induction sections generalizing start with
  | nil => simp [placements]
  | cons head rest ih =>
    obtain ⟨index', content'⟩ := head
    simp only [mem_placements_cons, exists_or, ih, List.mem_cons, Prod.mk.injEq]
    constructor
    · rintro (⟨offset, hcontent, heq⟩ | ⟨hmem, hcontent⟩)
      · cases heq
        exact ⟨.inl ⟨rfl, rfl⟩, hcontent⟩
      · exact ⟨.inr hmem, hcontent⟩
    · rintro ⟨⟨rfl, rfl⟩ | hmem, hcontent⟩
      · exact .inl ⟨start, hcontent, rfl⟩
      · exact .inr ⟨hmem, hcontent⟩

/-- Every section is in its place. -/
theorem piece_of_mem_placements (hp : p ∈ placements start sections) :
    0 < p.content.size ∧ Piece start (contents sections) p.offset p.content.toList := by
  induction sections generalizing start with
  | nil => cases hp
  | cons head rest ih =>
    obtain ⟨index, content⟩ := head
    rw [contents, List.flatMap_cons]
    rcases mem_placements_cons.1 hp with ⟨hcontent, rfl⟩ | hp
    · refine ⟨Nat.pos_of_ne_zero fun hzero ↦ ?_, .left _ _ _⟩
      rw [Array.isEmpty_iff_size_eq_zero.2 hzero] at hcontent
      cases hcontent
    · obtain ⟨hpos, hpiece⟩ := ih hp
      exact ⟨hpos, (Piece.right start _ _).trans hpiece⟩

theorem start_le_offset (hp : p ∈ placements start sections) : start ≤ p.offset :=
  (piece_of_mem_placements hp).2.le_start

theorem stop_le_of_mem_placements (hp : p ∈ placements start sections) :
    p.stop ≤ start + (contents sections).length := by
  simpa [Placed.stop] using (piece_of_mem_placements hp).2.stop_le

/-- A section ends before the next one starts. -/
theorem pairwise_placements (start : Nat) (sections : List (Nat × Bytes)) :
    (placements start sections).Pairwise (·.stop ≤ ·.offset) := by
  induction sections generalizing start with
  | nil => exact .nil
  | cons head rest ih =>
    obtain ⟨index, content⟩ := head
    rw [placements]
    split
    · exact ih _
    · exact List.pairwise_cons.2 ⟨fun p hp ↦ start_le_offset hp, ih _⟩

/-- Two sections do not overlap. -/
theorem stop_le_offset {q : Placed} (hp : p ∈ placements start sections)
    (hq : q ∈ placements start sections) (hlt : p.offset < q.offset) : p.stop ≤ q.offset := by
  refine List.Pairwise.forall_of_forall_of_flip
    (R := fun a b : Placed ↦ a.offset < b.offset → a.stop ≤ b.offset) ?_ ?_ ?_ hp hq hlt
  · exact fun a _ h ↦ absurd h (Nat.lt_irrefl _)
  · exact (pairwise_placements start sections).imp fun {a b} h (_ : a.offset < b.offset) ↦ h
  · refine (pairwise_placements start sections).imp fun {a b} h hlt ↦ ?_
    have hstop : a.offset ≤ a.stop := Nat.le_add_right _ _
    omega

/-- Where nothing has been placed yet, the first section starts. -/
theorem exists_offset_eq_start (start : Nat) (sections : List (Nat × Bytes)) :
    contents sections = [] ∨ ∃ q ∈ placements start sections, q.offset = start := by
  induction sections with
  | nil => exact .inl rfl
  | cons head rest ih =>
    obtain ⟨index, content⟩ := head
    simp only [mem_placements_cons]
    cases hcontent : content.isEmpty with
    | false => exact .inr ⟨_, .inl ⟨rfl, rfl⟩, rfl⟩
    | true =>
      obtain rfl := Array.isEmpty_iff.1 hcontent
      refine ih.imp (fun h ↦ ?_) fun ⟨q, hq, hoffset⟩ ↦ ⟨q, .inr hq, hoffset⟩
      simpa [contents] using h

/-- **There are no gaps**: where a section ends, another one starts or all sections end. -/
theorem exists_offset_eq_stop (hp : p ∈ placements start sections) :
    p.stop = start + (contents sections).length ∨
      ∃ q ∈ placements start sections, q.offset = p.stop := by
  induction sections generalizing start with
  | nil => cases hp
  | cons head rest ih =>
    obtain ⟨index, content⟩ := head
    have hlength : (contents ((index, content) :: rest)).length
        = content.size + (contents rest).length := by
      simp [contents]
    rw [hlength, ← Nat.add_assoc]
    simp only [mem_placements_cons] at hp ⊢
    rcases hp with ⟨hcontent, rfl⟩ | hp
    · refine (exists_offset_eq_start (start + content.size) rest).imp (fun hnil ↦ ?_)
        fun ⟨q, hq, hoffset⟩ ↦ ⟨q, .inr hq, hoffset⟩
      rw [hnil]
      rfl
    · exact (ih hp).imp_right fun ⟨q, hq, hoffset⟩ ↦ ⟨q, .inr hq, hoffset⟩

theorem nodup_index_placements (h : (sections.map Prod.fst).Nodup) :
    ((placements start sections).map Placed.index).Nodup := by
  suffices hsub : ((placements start sections).map Placed.index).Sublist
      (sections.map Prod.fst) from h.sublist hsub
  induction sections generalizing start with
  | nil => exact .slnil
  | cons head rest ih =>
    obtain ⟨index, content⟩ := head
    have hrest : ((placements (start + content.size) rest).map Placed.index).Sublist
        (rest.map Prod.fst) := ih (List.nodup_cons.1 h).2
    rw [placements]
    split
    · exact .cons _ hrest
    · exact .cons_cons _ hrest

end

/-! ## Laying a draft out -/

/-- A section table with the places of some sections filled in. -/
def fillIn (offsets : List Nat) (placed : List Placed) : List Nat :=
  placed.foldl (fun offsets p ↦ offsets.set p.index p.offset) offsets

section

variable {offsets : List Nat} {placed : List Placed}

@[simp]
theorem length_fillIn : (fillIn offsets placed).length = offsets.length := by
  induction placed generalizing offsets with
  | nil => rfl
  | cons p placed ih =>
    rw [fillIn, List.foldl_cons, ← fillIn, ih, List.length_set]

/-- What a table has that was filled in. -/
theorem exists_of_getElem?_fillIn {index offset : Nat}
    (h : (fillIn offsets placed)[index]? = some offset) :
    offsets[index]? = some offset ∨ ∃ p ∈ placed, p.index = index ∧ p.offset = offset := by
  induction placed generalizing offsets with
  | nil => exact .inl h
  | cons p placed ih =>
    rcases ih h with h | ⟨q, hq, hindex, hoffset⟩
    · rw [List.getElem?_set] at h
      split at h
      · next hindex =>
        split at h
        · cases h
          exact .inr ⟨p, List.mem_cons_self, hindex, rfl⟩
        · cases h
      · exact .inl h
    · exact .inr ⟨q, List.mem_cons_of_mem _ hq, hindex, hoffset⟩

/-- An entry that no section has stays as it is. -/
theorem getElem?_fillIn_of_ne {index : Nat} (h : ∀ p ∈ placed, p.index ≠ index) :
    (fillIn offsets placed)[index]? = offsets[index]? := by
  induction placed generalizing offsets with
  | nil => rfl
  | cons p placed ih =>
    rw [fillIn, List.foldl_cons, ← fillIn, ih fun q hq ↦ h q (List.mem_cons_of_mem _ hq)]
    exact List.getElem?_set_ne (h p List.mem_cons_self)

/-- The entry of a section has its place, if there is no other section with the same entry. -/
theorem getElem?_fillIn_of_mem (hnodup : (placed.map Placed.index).Nodup) {p : Placed}
    (hp : p ∈ placed) (hlt : p.index < offsets.length) :
    (fillIn offsets placed)[p.index]? = some p.offset := by
  induction placed generalizing offsets with
  | nil => cases hp
  | cons q placed ih =>
    obtain ⟨hfresh, hrest⟩ := List.nodup_cons.1 hnodup
    rw [fillIn, List.foldl_cons, ← fillIn]
    rcases List.mem_cons.1 hp with rfl | hp
    · rw [getElem?_fillIn_of_ne, List.getElem?_set_self hlt]
      rintro q hq heq
      exact hfresh (List.mem_map.2 ⟨q, hq, heq⟩)
    · exact ih hrest hp (by rwa [List.length_set])

end

section

variable {g : Generation} {layout layout' : Layout} {sections : List (Nat × Bytes)}

/-- When a section can be placed, and what placing it does. -/
theorem place_eq_ok_iff {entry : Nat × Bytes} :
    layout.place g entry = .ok layout' ↔ entry.1 < g.sectionCount ∧
      (entry.2.isEmpty = false → g.headerLength + layout.body.size < UInt32.size) ∧
        layout' = if entry.2.isEmpty then layout
          else ⟨layout.offsets.set entry.1 (g.headerLength + layout.body.size),
            layout.body ++ entry.2⟩ := by
  rw [Layout.place]
  by_cases hindex : g.sectionCount ≤ entry.1
  · simp [hindex, Nat.not_lt.2 hindex]
  · rw [if_neg hindex]
    cases hcontent : entry.2.isEmpty with
    | true => simp [Nat.lt_of_not_le hindex, eq_comm]
    | false =>
      by_cases hsize : UInt32.size ≤ g.headerLength + layout.body.size
      · simp [hsize, Nat.not_lt.2 hsize]
      · simp [hsize, Nat.lt_of_not_le hindex, Nat.lt_of_not_le hsize, eq_comm]

/-- **Sections are laid out one behind the other**, if the table has entries for them and all that
take room start below 4 GiB. -/
theorem foldlM_place_eq_ok_iff :
    sections.foldlM (Layout.place g) layout = .ok layout' ↔
      (∀ entry ∈ sections, entry.1 < g.sectionCount) ∧
        (∀ p ∈ placements (g.headerLength + layout.body.size) sections, p.offset < UInt32.size) ∧
          layout' =
            ⟨fillIn layout.offsets (placements (g.headerLength + layout.body.size) sections),
              layout.body ++ (contents sections).toArray⟩ := by
  induction sections generalizing layout with
  | nil => simp [contents, placements, fillIn, pure, Except.pure, eq_comm]
  | cons head rest ih =>
    obtain ⟨index, content⟩ := head
    have hcons : ((index, content) :: rest).foldlM (Layout.place g) layout = .ok layout' ↔
        ∃ next, layout.place g (index, content) = .ok next ∧
          rest.foldlM (Layout.place g) next = .ok layout' := by
      rw [List.foldlM_cons]
      cases layout.place g (index, content) with
      | error => simp [bind, Except.bind]
      | ok next => simp [bind, Except.bind]
    have hcontents : contents ((index, content) :: rest) = content.toList ++ contents rest := rfl
    simp only [hcons, place_eq_ok_iff, ih, List.forall_mem_cons, placements, hcontents]
    cases hcontent : content.isEmpty with
    | true =>
      obtain rfl := Array.isEmpty_iff.1 hcontent
      simp [and_assoc]
    | false =>
      have happend : layout.body ++ (content.toList ++ contents rest).toArray
          = layout.body ++ content ++ (contents rest).toArray := Array.toList_inj.1 (by simp)
      rw [happend]
      simp [fillIn, and_assoc, and_left_comm, Nat.add_assoc]

end

/-! ## The file of a layout -/

namespace Layout

variable {g : Generation} (cameras : UInt8) (layout : Layout)

/-- What is in front of the section table. -/
def preamble (g : Generation) (cameras : UInt8) : List UInt8 :=
  0 :: cameras :: List.replicate (g.tableStart - 2) 0

theorem length_preamble : (preamble g cameras).length = g.tableStart := by
  cases g <;> rfl

theorem toList_file :
    (layout.file g cameras).toList
      = preamble g cameras
        ++ (layout.offsets.flatMap (Bytes.littleEndian 4) ++ layout.body.toList) := by
  simp [file, preamble]

theorem cameras_file : ((layout.file g cameras).u8? 1).getD 0 = cameras := by
  rw [Bytes.u8?, ← Array.getElem?_toList, toList_file]
  rfl

variable {cameras layout} (hlength : layout.offsets.length = g.sectionCount)
include hlength

theorem length_table :
    (layout.offsets.flatMap (Bytes.littleEndian 4)).length = 4 * g.sectionCount := by
  rw [Bytes.length_flatMap_littleEndian, hlength]

theorem size_file : (layout.file g cameras).size = g.headerLength + layout.body.size := by
  rw [← Array.length_toList, toList_file, List.length_append, List.length_append,
    length_preamble, length_table hlength, Array.length_toList, Generation.headerLength]
  omega

/-- The sections follow the header. -/
theorem piece_body :
    Piece 0 (layout.file g cameras).toList g.headerLength layout.body.toList := by
  rw [toList_file, ← List.append_assoc]
  have h := Piece.right 0 (preamble g cameras ++ layout.offsets.flatMap (Bytes.littleEndian 4))
    layout.body.toList
  rwa [List.length_append, length_preamble, length_table hlength, Nat.zero_add] at h

/-- The table of a file is the one that was written. -/
theorem offsetTable_file (hlt : ∀ offset ∈ layout.offsets, offset < UInt32.size) :
    g.offsetTable (layout.file g cameras) = layout.offsets := by
  refine List.ext_getElem (by simp [hlength]) fun i hi hi' ↦ ?_
  have hword : Piece 0 (layout.file g cameras).toList (g.tableStart + 4 * i)
      (Bytes.littleEndian 4 layout.offsets[i]) := by
    have htable : Piece 0 (layout.file g cameras).toList g.tableStart
        (layout.offsets.flatMap (Bytes.littleEndian 4)) :=
      ⟨preamble g cameras, layout.body.toList, toList_file cameras layout,
        by rw [length_preamble, Nat.zero_add]⟩
    exact htable.trans (Bytes.piece_of_getElem? (List.getElem?_eq_getElem hi') _ _)
  have hoffset := hlt _ (List.getElem_mem hi')
  simp only [Generation.offsetTable, List.getElem_map, List.getElem_range,
    Bytes.u32?_of_piece hword hoffset, Option.map_some, Option.getD_some,
    UInt32.toNat_ofNat_of_lt' hoffset]

end Layout

/-! ## The room of a draft -/

/-- The sections of a draft with their places. -/
def placed (d : Draft) : List Placed := placements d.generation.headerLength d.sections

/-- The layout of a draft that can be laid out. -/
def packed (d : Draft) : Layout :=
  ⟨fillIn (Layout.empty d.generation).offsets d.placed, (contents d.sections).toArray⟩

section

variable {d : Draft}

theorem length_packed_offsets (d : Draft) :
    d.packed.offsets.length = d.generation.sectionCount := by
  simp [packed, Layout.empty]

theorem size_packed_file (d : Draft) :
    (d.packed.file d.generation d.cameras).size = d.size := by
  rw [Layout.size_file d.length_packed_offsets]
  rfl

/-- An entry of the table is zero or the place of its section. -/
theorem exists_of_getElem?_packed_offsets {index offset : Nat}
    (h : d.packed.offsets[index]? = some offset) :
    offset = 0 ∨ ∃ p ∈ d.placed, p.index = index ∧ p.offset = offset := by
  refine (exists_of_getElem?_fillIn h).imp_left fun h ↦ ?_
  exact List.eq_of_mem_replicate (List.mem_of_getElem? h)

theorem exists_of_mem_packed_offsets {offset : Nat} (h : offset ∈ d.packed.offsets) :
    offset = 0 ∨ ∃ p ∈ d.placed, p.offset = offset := by
  obtain ⟨index, hindex⟩ := List.mem_iff_getElem?.1 h
  refine (exists_of_getElem?_packed_offsets hindex).imp_right ?_
  rintro ⟨p, hp, -, hoffset⟩
  exact ⟨p, hp, hoffset⟩

/-- A section lies behind the header and inside the file. -/
theorem bounds_of_mem_placed {p : Placed} (hp : p ∈ d.placed) :
    d.generation.headerLength ≤ p.offset ∧ p.offset < p.stop ∧ p.stop ≤ d.size :=
  ⟨start_le_offset hp, Nat.lt_add_of_pos_right (piece_of_mem_placements hp).1,
    stop_le_of_mem_placements hp⟩

theorem layout_eq_ok_iff {layout : Layout} :
    d.layout = .ok layout ↔ (∀ entry ∈ d.sections, entry.1 < d.generation.sectionCount) ∧
      (∀ p ∈ d.placed, p.offset < UInt32.size) ∧ layout = d.packed := by
  have hbody : (Layout.empty d.generation).body ++ (contents d.sections).toArray
      = (contents d.sections).toArray := Array.empty_append
  rw [Draft.layout, foldlM_place_eq_ok_iff, hbody]
  rfl

/-- A draft is packed if the table has entries for its sections and they all start below 4 GiB. -/
theorem exists_build_of_offset_lt
    (hindex : ∀ entry ∈ d.sections, entry.1 < d.generation.sectionCount)
    (hoffset : ∀ p ∈ d.placed, p.offset < UInt32.size) :
    ∃ r, d.build = .ok r ∧ r.generation = d.generation ∧ r.offsets = d.packed.offsets ∧
      r.bytes = d.packed.file d.generation d.cameras := by
  have hlayout : d.layout = .ok d.packed := layout_eq_ok_iff.2 ⟨hindex, hoffset, rfl⟩
  have hlt : ∀ offset ∈ d.packed.offsets, offset < UInt32.size := by
    intro offset hoffset'
    rcases exists_of_mem_packed_offsets hoffset' with rfl | ⟨p, hp, rfl⟩
    · decide
    · exact hoffset p hp
  let file := d.packed.file d.generation d.cameras
  have htable : d.generation.offsetTable file = d.packed.offsets :=
    Layout.offsetTable_file d.length_packed_offsets hlt
  have hheader : d.generation.headerLength ≤ file.size := by
    rw [size_packed_file]
    exact Nat.le_add_right _ _
  have hvalid : ∀ offset ∈ d.generation.offsetTable file, ValidOffset file.size offset := by
    intro offset hoffset'
    rw [htable] at hoffset'
    rw [size_packed_file]
    refine (exists_of_mem_packed_offsets hoffset').imp_right ?_
    rintro ⟨p, hp, rfl⟩
    have hbounds := bounds_of_mem_placed hp
    omega
  obtain ⟨r, hr, hgeneration, hbytes⟩ := exists_ofBytes hheader hvalid
  refine ⟨r, ?_, hgeneration, ?_, hbytes⟩
  · rw [build, pack, hlayout]
    exact hr
  · rw [r.offsets_eq, hgeneration, hbytes, htable]

/-- **A draft is packed** if the table has entries for its sections and there is room. -/
theorem exists_build (hindex : ∀ entry ∈ d.sections, entry.1 < d.generation.sectionCount)
    (hsize : d.size < UInt32.size) :
    ∃ r, d.build = .ok r ∧ r.generation = d.generation ∧ r.offsets = d.packed.offsets ∧
      r.bytes = d.packed.file d.generation d.cameras := by
  refine exists_build_of_offset_lt hindex fun p hp ↦ ?_
  have hbounds := bounds_of_mem_placed hp
  omega

theorem layout_of_build_eq_ok {r : Room} (h : d.build = .ok r) : d.layout = .ok d.packed := by
  cases hlayout : d.layout with
  | error e =>
    rw [build, pack, hlayout] at h
    cases h
  | ok layout => rw [(layout_eq_ok_iff.1 hlayout).2.2]

/-- Only a draft that the table has entries for is packed. -/
theorem lt_of_build_eq_ok {r : Room} (h : d.build = .ok r) :
    ∀ entry ∈ d.sections, entry.1 < d.generation.sectionCount :=
  (layout_eq_ok_iff.1 (layout_of_build_eq_ok h)).1

/-- The room of a draft, however large it is. -/
theorem eq_of_build_eq_ok {r : Room} (h : d.build = .ok r) :
    r.generation = d.generation ∧ r.offsets = d.packed.offsets ∧
      r.bytes = d.packed.file d.generation d.cameras := by
  obtain ⟨hindex, hoffset, -⟩ := layout_eq_ok_iff.1 (layout_of_build_eq_ok h)
  obtain ⟨r', hr', hroom⟩ := exists_build_of_offset_lt hindex hoffset
  rw [h] at hr'
  cases hr'
  exact hroom

section

variable (hnodup : (d.sections.map Prod.fst).Nodup)
  (hindex : ∀ entry ∈ d.sections, entry.1 < d.generation.sectionCount)
include hnodup hindex

/-- The table has the places of the sections. -/
theorem getElem?_packed_offsets {p : Placed} (hp : p ∈ d.placed) :
    d.packed.offsets[p.index]? = some p.offset := by
  have hmem := (exists_mem_placements_iff.1 ⟨p.offset, hp⟩).1
  refine getElem?_fillIn_of_mem (nodup_index_placements hnodup) hp ?_
  simpa [Layout.empty] using hindex _ hmem

variable {r : Room} (hoffsets : r.offsets = d.packed.offsets)
  (hbytes : r.bytes = d.packed.file d.generation d.cameras)
include hoffsets hbytes

/-- A section ends where it should. -/
theorem sectionEnd_of_mem_placed {p : Placed} (hp : p ∈ d.placed) :
    r.sectionEnd p.offset = p.stop := by
  have hbounds := bounds_of_mem_placed hp
  refine sectionEnd_eq (fun next hnext hlt ↦ ?_) ?_
  · rw [hoffsets] at hnext
    rcases exists_of_mem_packed_offsets hnext with rfl | ⟨q, hq, rfl⟩
    · exact absurd hlt (Nat.not_lt_zero _)
    · exact stop_le_offset hp hq hlt
  · rw [hbytes, size_packed_file]
    rcases exists_offset_eq_stop hp with hstop | ⟨q, hq, hstop⟩
    · exact .inr hstop
    · have hq' := List.mem_of_getElem? (getElem?_packed_offsets hnodup hindex hq)
      rw [hstop, ← hoffsets] at hq'
      exact .inl ⟨hq', hbounds.2.1⟩

/-- A section has the bytes that it was given. -/
theorem sectionBytes?_of_mem_placed {p : Placed} (hp : p ∈ d.placed) :
    r.sectionBytes? p.index = some p.content := by
  have hbounds := bounds_of_mem_placed hp
  have hne : p.offset ≠ 0 := by
    have hheader : 0 < d.generation.headerLength := by cases d.generation <;> decide
    omega
  have hoffset : r.sectionOffset? p.index = some p.offset := by
    rw [sectionOffset?, hoffsets, getElem?_packed_offsets hnodup hindex hp]
    simpa using hne
  have hpiece : Piece 0 r.bytes.toList p.offset p.content.toList := by
    rw [hbytes]
    exact (Layout.piece_body d.length_packed_offsets).trans (piece_of_mem_placements hp).2
  rw [sectionBytes?, hoffset, Option.map_some,
    sectionEnd_of_mem_placed hnodup hindex hoffsets hbytes hp, Placed.stop, Nat.add_sub_cancel_left]
  exact congrArg some (Bytes.window_of_piece hpiece)

/-- **A packed draft has its own sections and no others.** -/
theorem sectionBytes?_eq_some_iff {index : Nat} {content : Bytes} :
    r.sectionBytes? index = some content ↔
      (index, content) ∈ d.sections ∧ content.isEmpty = false := by
  have hplacements : (∃ offset, ⟨index, offset, content⟩ ∈ d.placed) ↔
      (index, content) ∈ d.sections ∧ content.isEmpty = false := exists_mem_placements_iff
  rw [← hplacements]
  constructor
  · intro h
    by_cases hplaced : ∃ p ∈ d.placed, p.index = index
    · obtain ⟨p, hp, rfl⟩ := hplaced
      have hcontent := sectionBytes?_of_mem_placed hnodup hindex hoffsets hbytes hp
      rw [h] at hcontent
      cases hcontent
      exact ⟨p.offset, hp⟩
    · -- nobody has filled in the entry
      have hentry : r.offsets[index]? = (Layout.empty d.generation).offsets[index]? := by
        rw [hoffsets]
        exact getElem?_fillIn_of_ne fun p hp heq ↦ hplaced ⟨p, hp, heq⟩
      obtain ⟨offset, hoffset, -⟩ := Option.map_eq_some_iff.1 h
      obtain ⟨hget, hne⟩ := Option.filter_eq_some_iff.1 hoffset
      rw [hentry] at hget
      rw [List.eq_of_mem_replicate (List.mem_of_getElem? hget)] at hne
      cases hne
  · rintro ⟨offset, hp⟩
    exact sectionBytes?_of_mem_placed hnodup hindex hoffsets hbytes hp

end

end

end Draft

/-! ## The draft of a room -/

section

variable {r : Room} {index : Nat} {content : Bytes}

/-- A section that is present has bytes. -/
theorem isEmpty_of_sectionBytes? (h : r.sectionBytes? index = some content) :
    content.isEmpty = false := by
  obtain ⟨offset, hoffset, rfl⟩ := Option.map_eq_some_iff.1 h
  have hend := lt_sectionEnd hoffset
  have hsize := (lt_of_sectionOffset? hoffset).2
  rw [← Bool.not_eq_true, Array.isEmpty_iff_size_eq_zero, Bytes.window, Array.size_extract]
  omega

theorem lt_length_offsets_of_sectionBytes? (h : r.sectionBytes? index = some content) :
    index < r.offsets.length := by
  obtain ⟨offset, hoffset, -⟩ := Option.map_eq_some_iff.1 h
  obtain ⟨hget, -⟩ := Option.filter_eq_some_iff.1 hoffset
  exact (List.getElem?_eq_some_iff.1 hget).1

/-- The draft of a room has the sections of the room. -/
theorem mem_draft_sections :
    (index, content) ∈ r.draft.sections ↔ r.sectionBytes? index = some content := by
  simp only [draft, sections, List.mem_filterMap, List.mem_range]
  constructor
  · rintro ⟨entry, -, hentry⟩
    obtain ⟨content', hcontent, heq⟩ := Option.map_eq_some_iff.1 hentry
    cases heq
    exact hcontent
  · intro h
    obtain ⟨offset, hoffset, -⟩ := Option.map_eq_some_iff.1 h
    exact ⟨⟨index, r.generation.sectionKind? index, offset, r.sectionEnd offset - offset⟩,
      ⟨index, lt_length_offsets_of_sectionBytes? h, congrArg (Option.map _) hoffset⟩,
      congrArg (Option.map _) h⟩

/-- The draft of a room has no section twice. -/
theorem nodup_draft_sections (r : Room) : (r.draft.sections.map Prod.fst).Nodup := by
  rw [List.Nodup, List.pairwise_map, draft, List.pairwise_filterMap]
  refine r.pairwise_sections.imp fun hlt p hp p' hp' ↦ ?_
  obtain ⟨_, -, rfl⟩ := Option.map_eq_some_iff.1 hp
  obtain ⟨_, -, rfl⟩ := Option.map_eq_some_iff.1 hp'
  exact Nat.ne_of_lt hlt

theorem lt_of_mem_draft_sections (r : Room) :
    ∀ entry ∈ r.draft.sections, entry.1 < r.generation.sectionCount := by
  rintro ⟨index, content⟩ hentry
  have hlt := lt_length_offsets_of_sectionBytes? (mem_draft_sections.1 hentry)
  rwa [r.offsets_eq, Generation.length_offsetTable] at hlt

end

/-! ## Main statement -/

/-- **Packing keeps the sections.**  A draft in which no section comes twice, and whose file is
smaller than 4 GiB, is packed if and only if the table has an entry for each of its sections.  Then
the room has the cameras of the draft and, of the sections of the draft, exactly those that are not
empty.

So the sections of any room, in whatever way they share the bytes of its file, can be packed again,
and are the sections of the new room. -/
theorem sectionBytes?_build :
    (∀ d : Draft, (d.sections.map Prod.fst).Nodup → d.size < UInt32.size →
      ((∃ r, d.build = .ok r) ↔ ∀ entry ∈ d.sections, entry.1 < d.generation.sectionCount) ∧
        ∀ r, d.build = .ok r → r.generation = d.generation ∧ r.cameras = d.cameras ∧
          ∀ index content, r.sectionBytes? index = some content ↔
            (index, content) ∈ d.sections ∧ content.isEmpty = false) ∧
      ∀ (r : Room) (cameras : UInt8), ({ r.draft with cameras } : Draft).size < UInt32.size →
        ∃ r', ({ r.draft with cameras } : Draft).build = .ok r' ∧ r'.cameras = cameras ∧
          ∀ index, r'.sectionBytes? index = r.sectionBytes? index := by
  have hbuild (d : Draft) (hnodup : (d.sections.map Prod.fst).Nodup) (hsize : d.size < UInt32.size)
      (hindex : ∀ entry ∈ d.sections, entry.1 < d.generation.sectionCount) :
      ∃ r, d.build = .ok r ∧ r.generation = d.generation ∧ r.cameras = d.cameras ∧
        ∀ index content, r.sectionBytes? index = some content ↔
          (index, content) ∈ d.sections ∧ content.isEmpty = false := by
    obtain ⟨r, hr, hgeneration, hoffsets, hbytes⟩ := Draft.exists_build hindex hsize
    refine ⟨r, hr, hgeneration, ?_, fun _ _ ↦
      Draft.sectionBytes?_eq_some_iff hnodup hindex hoffsets hbytes⟩
    rw [Room.cameras, hbytes, Draft.Layout.cameras_file]
  refine ⟨fun d hnodup hsize ↦ ⟨⟨?_, fun hindex ↦ ?_⟩, fun r hr ↦ ?_⟩, fun r cameras hsize ↦ ?_⟩
  · rintro ⟨r, hr⟩
    exact Draft.lt_of_build_eq_ok hr
  · obtain ⟨r, hr, -⟩ := hbuild d hnodup hsize hindex
    exact ⟨r, hr⟩
  · obtain ⟨r', hr', h⟩ := hbuild d hnodup hsize (Draft.lt_of_build_eq_ok hr)
    rw [hr] at hr'
    cases hr'
    exact h
  · obtain ⟨r', hr', -, hcameras, hsections⟩ := hbuild { r.draft with cameras }
      r.nodup_draft_sections hsize r.lt_of_mem_draft_sections
    refine ⟨r', hr', hcameras, fun index ↦ Option.ext fun content ↦ ?_⟩
    rw [hsections, mem_draft_sections]
    exact and_iff_left_of_imp isEmpty_of_sectionBytes?

/-- A draft with an empty section; and a room with two sections at the same place, which comes
behind a section that has a part of the header. -/
theorem sectionBytes?_build_shared :
    let script : Bytes := #[0x02, 0x00, 0x01, 0x00]
    let d : Draft :=
      { generation := .re3, cameras := 5
        sections := [(17, script), (6, #[]), (16, #[0x02, 0x00])] }
    let file := Draft.Layout.file .re2 1
      { offsets := (((List.replicate 21 0).set 16 92).set 17 92).set 6 90, body := script }
    (d.sections.map Prod.fst).Nodup ∧ d.size < UInt32.size ∧
      (∃ r, d.build = .ok r ∧ r.cameras = 5 ∧ r.sectionBytes? 16 = some #[0x02, 0x00] ∧
        r.sectionBytes? 17 = some script ∧ r.sectionBytes? 6 = none) ∧
      ∃ r : Room, r.bytes = file ∧ r.sectionBytes? 16 = some script ∧
        r.sectionBytes? 17 = some script ∧ r.sectionBytes? 6 = some #[0x00, 0x00] ∧
          ({ r.draft with cameras := 1 } : Draft).size < UInt32.size ∧
            ∃ r', ({ r.draft with cameras := 1 } : Draft).build = .ok r' ∧
              ∀ index, r'.sectionBytes? index = r.sectionBytes? index := by
  intro script d file
  obtain ⟨hdraft, hroom⟩ := sectionBytes?_build
  have hnodup : (d.sections.map Prod.fst).Nodup := by decide
  have hsize : d.size < UInt32.size := by decide +kernel
  obtain ⟨hbuild, hsections⟩ := hdraft d hnodup hsize
  obtain ⟨r, hr⟩ := hbuild.2 (by decide)
  obtain ⟨-, hcameras, hbytes⟩ := hsections r hr
  let shared : Room :=
    { generation := .re2, bytes := file, offsets := Generation.offsetTable .re2 file,
      offsets_eq := rfl, header_le := by decide +kernel, offsets_valid := by decide +kernel }
  have hshared : ({ shared.draft with cameras := 1 } : Draft).size < UInt32.size := by
    decide +kernel
  obtain ⟨r', hr', -, hsame⟩ := hroom shared 1 hshared
  refine ⟨hnodup, hsize, ⟨r, hr, hcameras, (hbytes _ _).2 (by decide), (hbytes _ _).2 (by decide),
    ?_⟩, shared, rfl, by decide +kernel, by decide +kernel, by decide +kernel, hshared, r', hr',
    hsame⟩
  refine Option.eq_none_iff_forall_ne_some.2 fun content hcontent ↦ ?_
  obtain ⟨hmem, hne⟩ := (hbytes _ _).1 hcontent
  have hempty : content = #[] := by simpa [d] using hmem
  rw [hempty] at hne
  cases hne

end Room
end RoomScript
