import RoomScript.Problem
import RoomScript.Room

/-!
# Function tables

A script section starts with a table of its functions, in one of three layouts, and the functions
follow.  Nothing but the table says where a function ends: it ends where the next one starts, and
the last one ends with the section.  The layout with a single function has its length instead.

Offsets of the table are relative to the section.  An offset outside the section, or one that lies
behind its successor, gives an empty function.
-/

set_option autoImplicit false

namespace RoomScript

/-- The layout of the table at the head of a script section. -/
inductive EntryTable where
  /-- A 16 bit total length, then a single function. -/
  | lengthPrefixed
  /-- 16 bit offsets; the first one also gives the size of the table. -/
  | halfWords
  /-- 32 bit offsets; the first one also gives the size of the table, and a zero ends it. -/
  | words
  deriving DecidableEq, Repr

/-- The name of the layout in requests and reports. -/
def EntryTable.name : EntryTable → String
  | lengthPrefixed => "length_prefixed"
  | halfWords => "u16_table"
  | words => "u32_table"

namespace Bytes

/-- The 16 bit words that some bytes make up; an odd byte at the end is left out. -/
def halfWords : List UInt8 → List UInt16
  | a :: b :: rest => UInt16.ofNat (ofLittleEndian [a, b]) :: halfWords rest
  | _ => []

/-- The 32 bit words that some bytes make up; up to three bytes at the end are left out. -/
def words : List UInt8 → List UInt32
  | a :: b :: c :: d :: rest => UInt32.ofNat (ofLittleEndian [a, b, c, d]) :: words rest
  | _ => []

end Bytes

/-- The offsets of the functions of a section. -/
def EntryTable.entries (table : EntryTable) (content : Bytes) : List UInt32 :=
  match table with
  | lengthPrefixed => if (content.u16? 0).isSome then [2] else []
  | halfWords =>
    match content.u16? 0 with
    | some first =>
      (Bytes.halfWords (content.window 0 (2 * (first.toNat / 2))).toList).map UInt16.toUInt32
    | none => []
  | words =>
    match content.u32? 0 with
    | some first =>
      (Bytes.words (content.window 0 (4 * (first.toNat / 4))).toList).takeWhile (· ≠ 0)
    | none => []

/-- A function of a script section: where it lies in the room, and the table that its calls go
through. -/
structure ScriptFunction where
  index : Nat := 0
  /-- Where the section starts in the file. -/
  sectionOffset : UInt32 := 0
  /-- Where the function starts in the file. -/
  baseOffset : UInt32
  byteLength : UInt32
  /-- The offsets of all functions of the section, relative to the section. -/
  entries : List UInt32 := []
  deriving DecidableEq, Repr

namespace ScriptFunction

/-- Where the function starts in its section. -/
def entryOffset (f : ScriptFunction) : UInt32 := f.baseOffset - f.sectionOffset

/-- The code of the function, as far as the file has it. -/
def code (f : ScriptFunction) (file : Bytes) : Stretch :=
  file.stretch f.baseOffset.toNat (f.baseOffset.toNat + f.byteLength.toNat)

theorem toList_code (f : ScriptFunction) (file : Bytes) :
    (f.code file).toList = (file.window f.baseOffset.toNat f.byteLength.toNat).toList := by
  rw [code, Bytes.toList_stretch, Bytes.toList_window, List.drop_take, Nat.add_sub_cancel_left]

end ScriptFunction

/-- Where function `index` of a section with the given table ends, for a table of which it is an
entry.  `size` is the size of the section. -/
def EntryTable.stop (table : EntryTable) (content : Bytes) (size : Nat) (entries : Array UInt32)
    (index : Nat) : Nat :=
  let stop? :=
    match table with
    | lengthPrefixed => (content.u16? 0).map UInt16.toNat
    | halfWords | words => entries[index + 1]?.map UInt32.toNat
  min (stop?.getD size) size

/-- The functions of a section.  An absent section has none. -/
def Room.functions (r : Room) (sectionIndex : Nat) (table : EntryTable) : List ScriptFunction :=
  match r.sectionOffset? sectionIndex, r.sectionBytes? sectionIndex with
  | some sectionOffset, some content =>
    let size := content.size
    let entries := table.entries content
    let entryArray := entries.toArray
    entries.zipIdx.map fun (entry, index) ↦
      let start := min entry.toNat size
      { index
        sectionOffset := UInt32.ofNat sectionOffset
        baseOffset := UInt32.ofNat (sectionOffset + start)
        byteLength := UInt32.ofNat (table.stop content size entryArray index - start)
        entries }
  | _, _ => []

/-- The offset that a call of function `index` goes to. -/
def callTarget (entries : List UInt32) (index : Nat) : Except Problem UInt32 :=
  match entries[index]? with
  | some target => .ok target
  | none => .error (.functionOutOfRange index entries.length)

end RoomScript
