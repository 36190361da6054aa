import RoomScript.Bytes
import RoomScript.Numeral
import RoomScript.Generation

/-!
# Rooms

A room is a file with a header and sections.  The header's table has one 32 bit offset per section,
and `0` marks a section that is absent.  Nothing in the file says how long a section is: a section
runs up to the next larger offset of the table, or to the end of the file, whatever the order of
the sections and even when two of them share an offset.

`Room` is a file whose table has been checked.  The check is one condition — every offset is `0` or
lies inside the file — and it is carried by the type, so a section that is present can always be
cut out of the file.  `Room.ofBytes` is the only place where a file is refused; the refusal names
the first offset that fails.
-/

set_option autoImplicit false

namespace RoomScript

/-! ## What can be wrong with a room -/

/-- The reasons for refusing a room file, or a plan of one. -/
inductive RoomError where
  /-- The file ends before its header does. -/
  | tooSmall (generation : Generation) (size : Nat)
  /-- A section of the table starts at or after the end of the file. -/
  | offsetOutside (index offset size : Nat)
  /-- A plan has a section that the table has no entry for. -/
  | noSuchSection (generation : Generation) (index : Nat)
  /-- A plan needs an offset of more than 32 bits. -/
  | tooLarge
  deriving DecidableEq, Repr

/-- The wording of a refusal. -/
def RoomError.message : RoomError → String
  | tooSmall g size =>
    s!"room file is too small to contain a {g.name} header ({size} < {g.headerLength} bytes)"
  | offsetOutside index offset size =>
    s!"section {index} offset {Numeral.offset offset} lies outside the {size}-byte room"
  | noSuchSection g index =>
    s!"{g.name} rooms only have {g.sectionCount} sections (got index {index})"
  | tooLarge => "room grew past 4 GiB"

/-! ## The section table -/

/-- The section table of a file, entry by entry.  An entry that the file does not reach is absent,
as `0` is; this never happens behind the size check of `Room.ofBytes`. -/
def Generation.offsetTable (g : Generation) (file : Bytes) : List Nat :=
  (List.range g.sectionCount).map fun i ↦
    ((file.u32? (g.tableStart + 4 * i)).map UInt32.toNat).getD 0

@[simp]
theorem Generation.length_offsetTable (g : Generation) (file : Bytes) :
    (g.offsetTable file).length = g.sectionCount := by
  simp [Generation.offsetTable]

/-- An offset that a file of `size` bytes may have in its table. -/
def ValidOffset (size offset : Nat) : Prop := offset = 0 ∨ offset < size

instance (size offset : Nat) : Decidable (ValidOffset size offset) :=
  inferInstanceAs (Decidable (_ ∨ _))

/-- A room file with a valid section table. -/
structure Room where
  /-- The generation decides on the shape of the header and the languages of the scripts. -/
  generation : Generation
  /-- The whole file. -/
  bytes : Bytes
  /-- The section table. -/
  offsets : List Nat
  offsets_eq : offsets = generation.offsetTable bytes
  header_le : generation.headerLength ≤ bytes.size
  offsets_valid : ∀ o ∈ offsets, ValidOffset bytes.size o

namespace Room

/-- Checks a file.  A header that is cut off is reported before any offset, and of several bad
offsets the first is reported. -/
def ofBytes (g : Generation) (file : Bytes) : Except RoomError Room :=
  let size := file.size
  let offsets := g.offsetTable file
  if hs : g.headerLength ≤ size then
    match hf : offsets.zipIdx.find? (fun entry ↦ ¬ ValidOffset size entry.1) with
    | some (offset, index) => .error (.offsetOutside index offset size)
    | none =>
      .ok
        { generation := g
          bytes := file
          offsets := offsets
          offsets_eq := rfl
          header_le := hs
          offsets_valid := fun o ho ↦ by
            obtain ⟨i, hi⟩ := List.mem_iff_getElem?.1 ho
            have h := List.find?_eq_none.1 hf (o, i) (List.mem_zipIdx_iff_getElem?.2 hi)
            simpa using h }
  else .error (.tooSmall g size)

/-! ## Sections -/

/-- The number of cameras, which the second byte of the file has. -/
def cameras (r : Room) : UInt8 := (r.bytes.u8? 1).getD 0

/-- Where section `index` starts, if it is present. -/
def sectionOffset? (r : Room) (index : Nat) : Option Nat :=
  (r.offsets[index]?).filter (· ≠ 0)

/-- Where a section that starts at `offset` ends: at the next larger offset of the table, or with
the file. -/
def sectionEnd (r : Room) (offset : Nat) : Nat :=
  match (r.offsets.filter (offset < ·)).min? with
  | some next => next
  | none => r.bytes.size

/-- The number of bytes in section `index`. -/
def sectionLength? (r : Room) (index : Nat) : Option Nat :=
  (r.sectionOffset? index).map fun offset ↦ r.sectionEnd offset - offset

/-- The bytes of section `index`. -/
def sectionBytes? (r : Room) (index : Nat) : Option Bytes :=
  (r.sectionOffset? index).map fun offset ↦
    r.bytes.window offset (r.sectionEnd offset - offset)

/-- The bytes of the section of a kind. -/
def section? (r : Room) (kind : SectionKind) : Option Bytes :=
  (r.generation.sectionIndex? kind).bind r.sectionBytes?

/-- A line of the table of contents. -/
structure Entry where
  index : Nat
  kind? : Option SectionKind
  offset : Nat
  length : Nat
  deriving DecidableEq, Repr

/-- The table of contents: the sections that are present, by ascending index. -/
def sections (r : Room) : List Entry :=
  (List.range r.offsets.length).filterMap fun index ↦
    (r.sectionOffset? index).map fun offset ↦
      ⟨index, r.generation.sectionKind? index, offset, r.sectionEnd offset - offset⟩

/-! ## A section lies inside the file -/

theorem lt_of_sectionOffset? {r : Room} {index offset : Nat}
    (h : r.sectionOffset? index = some offset) : 0 < offset ∧ offset < r.bytes.size := by
  unfold sectionOffset? at h
  obtain ⟨hget, hne⟩ := Option.filter_eq_some_iff.1 h
  have hne : offset ≠ 0 := by simpa using hne
  rcases r.offsets_valid offset (List.mem_of_getElem? hget) with h0 | hlt
  · exact absurd h0 hne
  · exact ⟨Nat.pos_of_ne_zero hne, hlt⟩

theorem sectionEnd_le (r : Room) (offset : Nat) : r.sectionEnd offset ≤ r.bytes.size := by
  unfold sectionEnd
  cases hm : (r.offsets.filter (offset < ·)).min? with
  | none => simp
  | some m =>
    have hmem := List.min?_mem hm
    rw [List.mem_filter] at hmem
    rcases r.offsets_valid m hmem.1 with h0 | hlt
    · simp [h0] at hmem
    · exact Nat.le_of_lt hlt

theorem lt_sectionEnd {r : Room} {index offset : Nat} (h : r.sectionOffset? index = some offset) :
    offset < r.sectionEnd offset := by
  unfold sectionEnd
  cases hm : (r.offsets.filter (offset < ·)).min? with
  | none => simpa using (lt_of_sectionOffset? h).2
  | some m =>
    have hmem := List.min?_mem hm
    rw [List.mem_filter] at hmem
    simpa using hmem.2

end Room
end RoomScript
