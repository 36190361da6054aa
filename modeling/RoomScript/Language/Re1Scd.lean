import RoomScript.Language.Basic
import RoomScript.Language.Symbols

/-!
# Init and run scripts of the first generation

Most instructions have a fixed length.  Two of them, `0x28` and `0x33`, have a byte that selects
what they do and with it how long they are; an unknown selector ends the script.

An `if` and its `else` hold the length of their bodies in one byte, which counts the two bytes of
the header.
-/

set_option autoImplicit false

namespace RoomScript
namespace Re1Scd

/-- The instructions with a meaning of their own in listings. -/
inductive Op where
  | nop
  | ifBegin
  | elseBegin
  | ifEnd
  | bitTest
  | bitOp
  | object06Test
  | object07Test
  | placeSet
  | printMessage
  | doorSet
  | itemSet
  | object10Test
  | object11Test
  | itemAttributeSet
  | itemAttribute2Set
  | itemModelSet
  | select28
  | enemySet
  | objectModelSet
  | playerPosSet
  | enemyPosSet
  | select33
  | arraySet
  deriving DecidableEq, Repr

/-- The instruction of an opcode. -/
def Op.ofByte? : UInt8 → Option Op
  | 0x00 | 0x0e => some nop
  | 0x01 => some ifBegin
  | 0x02 => some elseBegin
  | 0x03 => some ifEnd
  | 0x04 => some bitTest
  | 0x05 => some bitOp
  | 0x06 => some object06Test
  | 0x07 => some object07Test
  | 0x08 => some placeSet
  | 0x0b => some printMessage
  | 0x0c => some doorSet
  | 0x0d => some itemSet
  | 0x10 => some object10Test
  | 0x11 => some object11Test
  | 0x12 => some itemAttributeSet
  | 0x13 => some itemAttribute2Set
  | 0x18 => some itemModelSet
  | 0x1b => some enemySet
  | 0x1f => some objectModelSet
  | 0x20 => some playerPosSet
  | 0x21 => some enemyPosSet
  | 0x28 => some select28
  | 0x33 => some select33
  | 0x37 => some arraySet
  | _ => none

/-! ## Lengths -/

/-- The fixed lengths; `0` marks an opcode that has none. -/
def lengths : Array Nat := #[
    2, 2, 2, 2, 4, 4, 4, 6, 4, 2, 2, 4, 26, 18, 2, 8,
    2, 2, 10, 4, 4, 2, 2, 10, 26, 4, 2, 22, 6, 2, 4, 28,
    14, 14, 4, 2, 4, 4, 0, 2, 0, 2, 12, 4, 2, 4, 0, 4,
    12, 4, 4, 0, 8, 4, 4, 4, 4, 2, 4, 6, 6, 12, 2, 6,
    16, 4, 4, 4, 2, 2, 44, 14, 2, 2, 2, 2, 4, 2, 4, 2,
    2]

/-- The length of `0x28`, by its selector. -/
def length28 : Option UInt8 → Nat
  | some 0 | some 2 | some 3 | some 5 | some 9 | some 10 => 6
  | some 1 => 8
  | some 6 | some 8 => 4
  | _ => 0

/-- The length of `0x33`, by its selector. -/
def length33 : Option UInt8 → Nat
  | some 0 | some 4 | some 6 | some 7 => 2
  | some 1 | some 3 | some 5 | some 8 | some 9 | some 10 => 4
  | _ => 0

/-- The length of the instruction at the head of `code`; `0` where the script ends. -/
def length (code : Stretch) : Nat :=
  match code[0]? with
  | none => 0
  | some opcode =>
    match Op.ofByte? opcode with
    | some .select28 => length28 (code[2]?)
    | some .select33 => length33 (code[1]?)
    | _ => tableLength lengths opcode

/-! ## Bodies -/

/-- The body that an instruction opens. -/
def body? (i : Instruction) : Option Body :=
  match Op.ofByte? i.opcode with
  | some .ifBegin => some ⟨.thenBody, (i.u8 1).toNat - i.length⟩
  | some .elseBegin => some ⟨.elseBody, (i.u8 1).toNat - i.length⟩
  | _ => none

/-! ## Meaning -/

/-- The stage behind a door.  The two bits above the room number say whether it is the one before,
the one after or the current one; the first and the last stage have none before or after. -/
def nextStage (current packed : UInt8) : UInt8 :=
  match (packed >>> 5) &&& 3 with
  | 1 => if current = 0 then 0 else current - 1
  | 2 => if current = 255 then 255 else current + 1
  | _ => current

/-- The room number in the byte that also has the stage. -/
def roomNumber (packed : UInt8) : UInt8 := packed &&& 0x1f

/-- The door of an instruction that runs in stage `stage`. -/
def door (i : Instruction) (stage : UInt8) : Door where
  id := i.u8 1
  x := i.i16 2
  y := i.i16 4
  w := i.i16 6
  h := i.i16 8
  nextStage := nextStage stage (i.u8 15)
  nextRoom := roomNumber (i.u8 15)
  nextCamera := 0
  nextPos := ⟨i.i16 16, i.i16 18, i.i16 20, i.i16 22⟩

/-- The item of an instruction; this generation does not count them. -/
def item (i : Instruction) : Item where
  id := i.u8 1
  x := i.i16 2
  y := i.i16 4
  w := i.i16 6
  h := i.i16 8
  kind := (i.u8 10).toUInt16
  amount := 0

/-- The action on a flag with a number in bytecode. -/
def flagAction (code : UInt8) : FlagAction :=
  if code = 0 then .clear else if code = 1 then .set else .toggle

/-- The place that an instruction sets: only the camera is a change of the game. -/
def cameraPlace : UInt8 := 2

/-- What an instruction does in stage `stage`. -/
def action (i : Instruction) (stage : UInt8) : Action :=
  match Op.ofByte? i.opcode with
  | some .bitTest => i.flagTest
  | some .bitOp => .perform (.flag ⟨i.u8 1, i.u8 2, flagAction (i.u8 3)⟩)
  | some .placeSet =>
    if i.u8 1 = cameraPlace then .perform (.camera (i.u16 2).toUInt8) else .nothing
  | some .printMessage => .perform (.message (i.u8 1))
  | some .doorSet => .perform (.door (door i stage))
  | some .itemSet => .perform (.item (item i))
  | _ => .nothing

/-! ## Listing -/

/-- The stage behind a door as listings show it. -/
def stageLabel (packed : UInt8) : String :=
  match (packed >>> 5) &&& 3 with
  | 1 => "-1"
  | 2 => "+1"
  | _ => "+0"

/-- The name of a place that an instruction sets. -/
def placeLabel (place : UInt8) : String :=
  if place = 0 then "Stage"
  else if place = 1 then "Room"
  else if place = cameraPlace then "Camera"
  else "Unknown"

/-- The line of an opcode without a meaning of its own. -/
def describeOther (opcode : UInt8) : String :=
  match lengths[opcode.toNat]? with
  | none | some 0 => s!"Unknown opcode {Numeral.byte opcode}"
  | some _ => s!"INST_{hex2 opcode}"

/-- The line of an instruction that shows no message. -/
def describeOp (i : Instruction) : Op → String
  | .nop => "nop"
  | .ifBegin => "BEGIN_IF"
  | .elseBegin => "ELSE"
  | .ifEnd => "END_IF"
  | .bitTest =>
    s!"BIT_TEST flag {Numeral.byte (i.u8 1)} object {Numeral.byte (i.u8 2)} {onOff (i.u8 3)}"
  | .bitOp =>
    s!"BIT_OP flag {Numeral.byte (i.u8 1)} object {Numeral.byte (i.u8 2)} "
      ++ (flagAction (i.u8 3)).name
  | .object06Test => "OBJ06_TEST"
  | .object07Test => "OBJ07_TEST"
  | .object10Test => "OBJ10_TEST"
  | .object11Test => "OBJ11_TEST"
  | .placeSet =>
    let value := (i.u16 2).toNat
    s!"STAGEROOMCAM_SET {Numeral.byte (i.u8 1)} ({placeLabel (i.u8 1)}) = "
      ++ s!"0x{Numeral.hex 2 value} ({value})"
  | .printMessage => s!"PRINT_MSG {Numeral.byte (i.u8 1)}"
  | .doorSet =>
    s!"OBJECT #{Numeral.byte (i.u8 1)} = DOOR_SET stage {stageLabel (i.u8 15)} "
      ++ s!"room {Numeral.byte (roomNumber (i.u8 15))} "
      ++ s!"pos ({i.i16 16},{i.i16 18},{i.i16 20}) dir {i.i16 22}"
  | .itemSet =>
    s!"OBJECT #{Numeral.byte (i.u8 1)} = ITEM_SET type {Numeral.byte (i.u8 10)}"
  | .itemAttributeSet => s!"ITEM_ATTR_SET #{Numeral.byte (i.u8 1)}"
  | .itemAttribute2Set => s!"ITEM_ATTR2_SET #{Numeral.byte (i.u8 1)}"
  | .itemModelSet => s!"OBJECT #{Numeral.byte (i.u8 1)} = ITEM_MODEL_SET"
  | .enemySet =>
    let model := (Symbols.model? (i.u8 1)).getD "???"
    s!"EM_SET #{Numeral.byte (i.u8 18)} model={Numeral.byte (i.u8 1)} ({model}) "
      ++ s!"pos ({i.i16 12},{i.i16 14},{i.i16 16})"
  | .objectModelSet => s!"OM_SET #{Numeral.byte (i.u8 1)}"
  | .playerPosSet => s!"PLAYER_POS_SET a={i.i16 4} x={i.i16 8} y={i.i16 10} z={i.i16 12}"
  | .enemyPosSet =>
    s!"EM_POS_SET #{Numeral.byte (i.u8 1)} a={i.i16 4} x={i.i16 8} y={i.i16 10} z={i.i16 12}"
  | .arraySet => s!"INST37_ARRAY_SET[{i.u8 1}][{i.u8 2}] = {i.u8 3}"
  | .select28 | .select33 => s!"INST_{hex2 i.opcode} {Numeral.byte (i.u8 1)}"

/-- How an instruction reads. -/
def describe (i : Instruction) (context : ListingContext) : Description :=
  match Op.ofByte? i.opcode with
  | some .printMessage => context.describeMessage (describeOp i .printMessage) (i.u8 1)
  | some op => .line (describeOp i op)
  | none => .line (describeOther i.opcode)

end Re1Scd
end RoomScript
