import RoomScript.Room

/-!
# Packing rooms

A draft is the content of a room before it has an address: the number of cameras and the sections,
each with its place in the table.  Packing writes the header and behind it the sections, in the
order in which the draft has them; an empty section takes no room and is left out of the table.  A
place that is given twice keeps both byte strings in the file and ends up with the later one in the
table.

The sections are placed one after another, and a draft is refused at the first section that cannot
be placed.
-/

set_option autoImplicit false

namespace RoomScript
namespace Room

/-- The content of a room that is yet to be laid out. -/
structure Draft where
  generation : Generation
  cameras : UInt8 := 1
  /-- Places in the section table with their bytes, in the order of the file. -/
  sections : List (Nat × Bytes) := []
  deriving Repr

namespace Draft

/-- The draft with one more section behind the others. -/
def add (d : Draft) (index : Nat) (content : Bytes) : Draft :=
  { d with sections := d.sections ++ [(index, content)] }

/-- A room that is being laid out: the section table so far and what follows the header. -/
structure Layout where
  offsets : List Nat
  body : Bytes := #[]

/-- A room without sections. -/
def Layout.empty (g : Generation) : Layout := { offsets := List.replicate g.sectionCount 0 }

/-- Puts one section behind the others. -/
def Layout.place (g : Generation) (layout : Layout) (entry : Nat × Bytes) :
    Except RoomError Layout :=
  let offset := g.headerLength + layout.body.size
  if g.sectionCount ≤ entry.1 then .error (.noSuchSection g entry.1)
  else if entry.2.isEmpty then .ok layout
  else if UInt32.size ≤ offset then .error .tooLarge
  else .ok ⟨layout.offsets.set entry.1 offset, layout.body ++ entry.2⟩

/-- The file of a layout: a zero byte, the number of cameras, zeros up to the section table, the
table, the sections. -/
def Layout.file (g : Generation) (cameras : UInt8) (layout : Layout) : Bytes :=
  (0 :: cameras :: List.replicate (g.tableStart - 2) 0
    ++ layout.offsets.flatMap (Bytes.littleEndian 4)).toArray ++ layout.body

/-- Lays the sections of a draft out. -/
def layout (d : Draft) : Except RoomError Layout :=
  d.sections.foldlM (Layout.place d.generation) (Layout.empty d.generation)

/-- The file of a draft. -/
def pack (d : Draft) : Except RoomError Bytes :=
  d.layout.map (Layout.file d.generation d.cameras)

/-- The room of a draft. -/
def build (d : Draft) : Except RoomError Room :=
  d.pack.bind (Room.ofBytes d.generation)

end Draft

/-- The draft of a room's own sections, which packs to a room with the same sections. -/
def draft (r : Room) : Draft :=
  { generation := r.generation
    cameras := r.cameras
    sections := r.sections.filterMap fun entry ↦
      (r.sectionBytes? entry.index).map fun content ↦ (entry.index, content) }

end Room
end RoomScript
