import RoomScript.Bytes
import RoomScript.Numeral

/-!
# Instructions

An instruction is a run of bytes with an opcode in front.  Its fields are read at fixed places; at
the end of a script the bytes may run out before the instruction does, and fields that are not
there read as zero.

The event language has several decode tables, and its instructions switch between them.  `Mode`
says which table an instruction was decoded with; the other languages stay in the first one.
-/

set_option autoImplicit false

namespace RoomScript

/-- A decode table of the event language. -/
inductive Mode where
  | m0
  | m1
  | m2
  | m3
  deriving DecidableEq, Repr

/-- The name of the mode in listings. -/
def Mode.name : Mode → String
  | m0 => "m0"
  | m1 => "m1"
  | m2 => "m2"
  | m3 => "m3"

/-- A decoded instruction. -/
structure Instruction where
  /-- The place of the first byte, relative to the script section. -/
  offset : Nat := 0
  bytes : Bytes
  mode : Mode := .m0
  deriving DecidableEq, Repr

namespace Instruction

/-- The byte at `pos`. -/
def u8 (i : Instruction) (pos : Nat) : UInt8 := (i.bytes.u8? pos).getD 0

/-- The unsigned 16 bit word at `pos`. -/
def u16 (i : Instruction) (pos : Nat) : UInt16 := (i.bytes.u16? pos).getD 0

/-- The signed 16 bit word at `pos`. -/
def i16 (i : Instruction) (pos : Nat) : Int16 := (i.bytes.i16? pos).getD 0

/-- The first byte, which says what the instruction is. -/
def opcode (i : Instruction) : UInt8 := i.u8 0

/-- The number of bytes. -/
def length (i : Instruction) : Nat := i.bytes.size

/-- The bytes as a listing shows them. -/
def hex (i : Instruction) : String := String.intercalate " " (i.bytes.toList.map Numeral.byte)

/-- The opcode looks at nothing but the first byte. -/
theorem opcode_eq {i : Instruction} {b : UInt8} {rest : List UInt8}
    (h : i.bytes.toList = b :: rest) : i.opcode = b := by
  simp [opcode, u8, Bytes.u8?, ← Array.getElem?_toList, h]

end Instruction
end RoomScript
