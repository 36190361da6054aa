import RoomScript.Language.Basic
import RoomScript.Language.Symbols

/-!
# Scripts of the third generation

The language is a relative of the second generation's: bodies have their length at the same place,
but the opcodes have moved, and so have some fields.  The length of a `do` counts from the start of
the instruction here.
-/

set_option autoImplicit false

namespace RoomScript
namespace Re3

/-- The instructions that do more than have a name. -/
inductive Op where
  | eventExec
  | ifBegin
  | elseBegin
  | ifEnd
  | sleeping
  | forBegin
  | whileBegin
  | doBegin
  | switchBegin
  | caseBegin
  | goto
  | gosub
  | arithmetic
  | aheadRoomSet
  | memberSet
  | workSet
  | check
  | set
  | cameraChange
  | messageOn
  | doorSet
  | itemSet
  deriving DecidableEq, Repr

/-- The instruction of an opcode. -/
def Op.ofByte? : UInt8 → Option Op
  | 0x04 => some eventExec
  | 0x06 => some ifBegin
  | 0x07 => some elseBegin
  | 0x08 => some ifEnd
  | 0x0a => some sleeping
  | 0x0d => some forBegin
  | 0x10 => some whileBegin
  | 0x12 => some doBegin
  | 0x14 => some switchBegin
  | 0x15 => some caseBegin
  | 0x18 => some goto
  | 0x19 => some gosub
  | 0x20 => some arithmetic
  | 0x33 => some aheadRoomSet
  | 0x40 => some memberSet
  | 0x47 => some workSet
  | 0x4c => some check
  | 0x4d => some set
  | 0x50 => some cameraChange
  | 0x5b => some messageOn
  | 0x61 => some doorSet
  | 0x67 => some itemSet
  | _ => none

/-- The opcode that closes an `if`. -/
def endIf : UInt8 := 0x08

/-! ## Names and lengths -/

/-- The lengths, by opcode; `0` marks an opcode without one. -/
def lengths : Array Nat := #[
    1, 2, 1, 2, 4, 2, 4, 4, 2, 1, 3, 1, 1, 6, 5, 2,
    4, 2, 4, 2, 4, 6, 2, 2, 6, 2, 4, 2, 1, 4, 4, 4,
    6, 4, 4, 1, 2, 4, 6, 1, 1, 8, 6, 2, 2, 4, 6, 2,
    6, 6, 6, 4, 10, 6, 3, 2, 2, 16, 16, 3, 1, 2, 2, 3,
    4, 3, 3, 6, 6, 4, 11, 3, 4, 1, 1, 1, 4, 4, 6, 1,
    2, 1, 2, 3, 4, 8, 8, 6, 6, 8, 2, 6, 2, 1, 3, 2,
    22, 32, 40, 20, 28, 10, 2, 22, 30, 14, 16, 2, 4, 4, 4, 2,
    16, 18, 22, 24, 5, 2, 3, 12, 6, 4, 2, 6, 1, 24, 2, 40,
    4, 8, 10, 1, 4, 2, 1, 1, 4, 2, 1, 1, 1, 0, 4, 2]

/-- The names, by opcode. -/
def names : Array (Option String) := #[
    some "NOP", some "EVT_END", some "EVT_NEXT", some "EVT_CHAIN", some "EVT_EXEC",
    some "EVT_KILL", some "IF", some "ELSE", some "END_IF", some "SLEEP", some "SLEEPING",
    some "WSLEEP", some "WSLEEPING", some "BEGIN_FOR", none, some "END_FOR", some "BEGIN_WHILE",
    some "END_WHILE", some "DO", some "WHILE", some "BEGIN_SWITCH", some "CASE", some "DEFAULT",
    some "END_SWITCH", some "GOTO", some "GOSUB", some "RETURN", some "BREAK", some "BREAKPOINT",
    some "EVAL_CC", some "VALUE_SET", some "SET1", some "CALC_OP", none, some "EVT_CUT", none,
    some "CHASER_EVT_CLR", some "MAP_OPEN", some "POINT_ADD", some "DOOR_CK", some "DIEDEMO_ON",
    some "DIR_CK", some "PARTS_SET", some "VLOOP_SET", some "OTA_BE_SET", some "LINE_BEGIN",
    some "LINE_MAIN", some "LINE_END", some "LIGHT_POS_SET", some "LIGHT_KIDO_SET",
    some "LIGHT_COLOR_SET", some "AHEAD_ROOM_SET", some "ESPR_CTR", some "BGM_TBL_CK",
    some "ITEM_GET_CK", some "OM_REV", some "CHASER_LIFE_INIT", some "PARTS_BOMB",
    some "PARTS_DOWN", some "CHASER_ITEM_SET", some "WEAPON_CHG_OLD", some "SEL_EVT_ON",
    some "ITEM_LOST", some "FLOOR_SET", some "MEMB_SET", some "MEMB_SET2", some "MEMB_CPY",
    some "MEMB_CMP", some "MEMB_CALC", some "MEMB_CALC2", some "FADE_SET", some "WORK_SET",
    some "SPD_SET", some "ADD_SPD", some "ADD_ASPD", some "ADD_VSPD", some "CK", some "SET",
    some "CMP", some "RND", some "CUT_CHG", some "CUT_OLD", some "CUT_AUTO", some "CUT_REPLACE",
    some "CUT_BE_SET", some "POS_SET", some "DIR_SET", some "SET_VIB0", some "SET_VIB1",
    some "SET_VIB_FADE", some "RBJ_SET", some "MESSAGE_ON", some "RAIN_SET", some "MESSAGE_OFF",
    some "SHAKE_ON", some "WEAPON_CHG", none, some "DOOR_AOT_SET", none, some "AOT_SET",
    some "AOT_SET_4P", some "AOT_RESET", none, some "ITEM_AOT_SET", none, some "KAGE_SET",
    some "SUPER_SET", none, none, none, some "SCA_ID_SET", none, some "ESPR_ON", none, none,
    some "ESPR3D_ON2", some "ESPR_KILL", none, none, some "SE_ON", some "BGM_CTL", some "XA_ON",
    none, some "BGM_TBL_SET", none, some "EM_SET", none, some "OM_SET", some "PLC_MOTION",
    some "PLC_DEST", some "PLC_NECK", some "PLC_RET", some "PLC_FLG", none, none, some "PLC_STOP",
    some "PLC_ROT", some "PLC_CNT", none, none, none, none, none, none]

/-- The name of an opcode. -/
def name? (opcode : UInt8) : Option String := names[opcode.toNat]?.join

/-- The length of the instruction at the head of `code`; `0` where the script ends. -/
def length (code : Stretch) : Nat :=
  match code[0]? with
  | none => 0
  | some opcode => tableLength lengths opcode

/-! ## Bodies -/

/-- The body that an instruction opens.  `following` is the code behind the instruction. -/
def body? (i : Instruction) (following : Stretch) : Option Body :=
  let stored := (i.u16 2).toNat
  match Op.ofByte? i.opcode with
  | some .ifBegin => some ⟨.thenBody, effectiveIfLength stored following endIf - i.length⟩
  | some .elseBegin => some ⟨.elseBody, stored - i.length⟩
  | some .forBegin | some .whileBegin => some ⟨.loopBody, stored - 2⟩
  | some .doBegin => some ⟨.loopBody, stored - i.length⟩
  | some .switchBegin => some ⟨.switchBody, stored - 2⟩
  | some .caseBegin => some ⟨.caseBody, stored⟩
  | _ => none

/-! ## Meaning -/

/-- The operation of a calculation; one with an unknown number has none. -/
def varOp? (i : Instruction) : Option VarOp :=
  (VarAction.ofCode? (i.u8 2)).map fun action ↦ ⟨i.u8 3, action, .immediate (i.i16 4)⟩

/-- The place of a door's number, which padding comes in front of. -/
def doorId : Nat := 2

/-- What an instruction does. -/
def action (i : Instruction) : Action :=
  match Op.ofByte? i.opcode with
  | some .check => i.flagTest
  | some .set =>
    .perform (.flag ⟨i.u8 1, i.u8 2, if i.u8 3 = 0 then .clear else .set⟩)
  | some .memberSet => .perform (.var ⟨i.u8 1, .set, .immediate (i.i16 2)⟩)
  | some .arithmetic => .ofEffect? ((varOp? i).map .var)
  | some .cameraChange => .perform (.camera (i.u8 1))
  | some .messageOn => .perform (.message (i.u8 2))
  | some .doorSet => .perform (.door (i.door doorId))
  | some .itemSet => .perform (.item i.item)
  | _ => .nothing

/-! ## Listing -/

/-- The line of an instruction about a flag. -/
def describeFlag (i : Instruction) (name : String) : Description :=
  .line s!"{name} {Numeral.byte (i.u8 1)} object {Numeral.byte (i.u8 2)} {onOff (i.u8 3)}"

/-- The line of an opcode that has a name at most. -/
def describeOther (opcode : UInt8) : String :=
  (name? opcode).getD s!"Unknown opcode {Numeral.byte opcode}"

/-- How an instruction reads. -/
def describe (i : Instruction) (context : ListingContext) : Description :=
  match Op.ofByte? i.opcode with
  | some .check => describeFlag i "CK"
  | some .set => describeFlag i "SET"
  | some .memberSet => .line s!"MEMB_SET var{hex2 (i.u8 1)} = {i.i16 2}"
  | some .arithmetic =>
    let symbol := ((varOp? i).map (·.action.symbol)).getD "???"
    .line s!"CALC_OP var{hex2 (i.u8 3)} {symbol} {i.i16 4}"
  | some .workSet =>
    .line s!"WORK_SET {(Symbols.workArea? (i.u8 1)).getD unknown} {Numeral.byte (i.u8 2)}"
  | some .aheadRoomSet => .line s!"AHEAD_ROOM_SET {Numeral.word (i.u16 2).toNat}"
  | some .sleeping => .line s!"SLEEPING {i.u16 1}"
  | some .forBegin => .line s!"BEGIN_FOR {i.u16 4}"
  | some .caseBegin => .line s!"CASE {Numeral.word (i.u16 4).toNat}"
  | some .cameraChange => .line s!"CUT_CHG {i.u8 1}"
  | some .goto => i.describeJump (i.i16 4)
  | some .gosub => context.describeCall "GOSUB " (i.u8 1)
  | some .eventExec => context.describeCall s!"EVT_EXEC {Numeral.byte (i.u8 1)} " (i.u8 3)
  | some .messageOn => context.describeMessage s!"MESSAGE_ON {Numeral.byte (i.u8 2)}" (i.u8 2)
  | some .doorSet => .line ((i.door doorId).describe "DOOR_AOT_SET")
  | some .itemSet => .line (i.item.describe "ITEM_AOT_SET")
  | _ => .line (describeOther i.opcode)
where
  /-- Stands where a name is not known. -/
  unknown : String := "???"

end Re3
end RoomScript
