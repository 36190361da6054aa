import RoomScript.Message.Markup
import RoomScript.Room

/-!
# Message tables

A text section starts with a table of 16 bit offsets, one per message, relative to the section.
The first offset points behind the table and so gives its size as well.  A message runs from its
own offset to that of the next message, the last one to the end of the section.

The table is not trusted: a slot that cannot be read makes its message absent, and a message whose
successor starts earlier is empty.

What the rest of the library asks for is a `MessageSource`: the messages by language and number.  A
room is one, through the tables of its text sections.
-/

set_option autoImplicit false

namespace RoomScript

/-- The messages of some languages, of each language by number.  The other languages have none. -/
abbrev MessageSource := List ((id : Nat) → Option String)

/-- Message `id` in a language. -/
def MessageSource.message? (source : MessageSource) (language id : Nat) : Option String :=
  source[language]?.bind (· id)

namespace MessageTable

/-- The number of messages in a section. -/
def count (table : Bytes) : Nat := ((table.u16? 0).map fun first ↦ first.toNat / 2).getD 0

/-- The offset of message `id`, if its slot lies in the section. -/
def slot? (table : Bytes) (id : Nat) : Option Nat := (table.u16? (2 * id)).map UInt16.toNat

/-- Where message `id` of the section ends: with the slot of the next message, or the section. -/
def stop? (table : Bytes) (id : Nat) : Option Nat :=
  if id + 1 < count table then slot? table (id + 1) else some table.size

/-- The bytes of message `id`. -/
def entry? (table : Bytes) (id : Nat) : Option Stretch :=
  if id < count table then do
    let start ← slot? table id
    let stop ← stop? table id
    if start ≤ table.size then some (table.stretch start stop) else none
  else none

end MessageTable

/-- How a generation writes its messages. -/
def Generation.decodeMessage : Generation → Stretch → String
  | re1 => decodePlain
  | re2 | re3 => decodeMarked

/-- The text of a message in a table. -/
def Generation.tableMessage? (g : Generation) (table : Bytes) (id : Nat) : Option String :=
  (MessageTable.entry? table id).map g.decodeMessage

/-- The text section of a language. -/
def Room.messageTable? (r : Room) (language : Nat) : Option Bytes :=
  (r.generation.textSection? language).bind r.sectionBytes?

/-- The text sections of a room, by language. -/
def Room.messageTables (r : Room) : List (Option Bytes) :=
  (List.range r.generation.languageCount).map r.messageTable?

/-- The messages of a room. -/
def Room.messages (r : Room) : MessageSource :=
  r.messageTables.map fun table? id ↦ table?.bind (r.generation.tableMessage? · id)

/-- The messages of a language are those of its text section. -/
theorem Room.message?_messages (r : Room) (language id : Nat) :
    r.messages.message? language id =
      (r.messageTable? language).bind (r.generation.tableMessage? · id) := by
  unfold MessageSource.message? messages messageTables
  by_cases h : language < r.generation.languageCount
  · rw [List.getElem?_map, List.getElem?_map, List.getElem?_range h]
    rfl
  · have hle := Nat.le_of_not_lt h
    rw [List.getElem?_eq_none (by simpa using hle)]
    simp [messageTable?, Generation.textSection?_eq_none hle]

/-- The number of messages in the first language of a room. -/
def Room.messageCount (r : Room) : Nat :=
  ((r.messageTable? 0).map MessageTable.count).getD 0

end RoomScript
