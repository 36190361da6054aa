import RoomScript.Language.Basic
import RoomScript.Language.Symbols

/-!
# Scripts of the second generation

Every opcode of the table has one length.  Instructions that open a body hold a length in the word
at byte 2, but what that length counts depends on the instruction: from the start of the
instruction, from two bytes behind it, or from its end.

Variables are 16 bit words; an operation with an unknown number does nothing and is listed as such.
-/

set_option autoImplicit false

namespace RoomScript
namespace Re2

/-- The instructions that do more than have a name. -/
inductive Op where
  | eventExec
  | ifBegin
  | elseBegin
  | ifEnd
  | sleeping
  | forBegin
  | forEnd
  | whileBegin
  | whileEnd
  | doBegin
  | doEnd
  | switchBegin
  | caseBegin
  | goto
  | gosub
  | workCopy
  | check
  | set
  | compare
  | save
  | copy
  | arithmetic
  | arithmeticVar
  | cameraChange
  | messageOn
  | doorSet
  | itemSet
  deriving DecidableEq, Repr

/-- The instruction of an opcode. -/
def Op.ofByte? : UInt8 → Option Op
  | 0x04 => some eventExec
  | 0x06 => some ifBegin
  | 0x07 => some elseBegin
  | 0x08 => some ifEnd
  | 0x0a => some sleeping
  | 0x0d => some forBegin
  | 0x0e => some forEnd
  | 0x0f => some whileBegin
  | 0x10 => some whileEnd
  | 0x11 => some doBegin
  | 0x12 => some doEnd
  | 0x13 => some switchBegin
  | 0x14 => some caseBegin
  | 0x17 => some goto
  | 0x18 => some gosub
  | 0x1d => some workCopy
  | 0x21 => some check
  | 0x22 => some set
  | 0x23 => some compare
  | 0x24 => some save
  | 0x25 => some copy
  | 0x26 => some arithmetic
  | 0x27 => some arithmeticVar
  | 0x29 => some cameraChange
  | 0x2b => some messageOn
  | 0x3b => some doorSet
  | 0x4e => some itemSet
  | _ => none

/-- The opcode that closes an `if`. -/
def endIf : UInt8 := 0x08

/-- The opcode that calls a function. -/
def gosubCode : UInt8 := 0x18

/-! ## Names and lengths -/

/-- The names and the lengths of the instructions, by opcode. -/
def opcodes : Array (String × Nat) := #[
    ("NOP", 1), ("EVT_END", 2), ("EVT_NEXT", 1), ("EVT_CHAIN", 2), ("EVT_EXEC", 4),
    ("EVT_KILL", 2), ("IFEL_CK", 4), ("ELSE_CK", 4), ("ENDIF", 2), ("SLEEP", 1), ("SLEEPING", 3),
    ("WSLEEP", 1), ("WSLEEPING", 1), ("FOR", 6), ("NEXT", 2), ("WHILE", 4), ("EWHILE", 2),
    ("DO", 4), ("EDWHILE", 2), ("SWITCH", 4), ("CASE", 6), ("DEFAULT", 2), ("ESWITCH", 2),
    ("GOTO", 6), ("GOSUB", 2), ("RETURN", 2), ("BREAK", 2), ("FOR2", 6), ("BREAK_POINT", 1),
    ("WORK_COPY", 4), ("NOP", 1), ("NOP", 1), ("NOP", 1), ("CK", 4), ("SET", 4), ("CMP", 6),
    ("SAVE", 4), ("COPY", 3), ("CALC", 6), ("CALC2", 4), ("SCE_RND", 1), ("CUT_CHG", 2),
    ("CUT_OLD", 1), ("MESSAGE_ON", 6), ("AOT_SET", 20), ("OBJ_MODEL_SET", 38), ("WORK_SET", 3),
    ("SPEED_SET", 4), ("ADD_SPEED", 1), ("ADD_ASPEED", 1), ("POS_SET", 8), ("DIR_SET", 8),
    ("MEMBER_SET", 4), ("MEMBER_SET2", 3), ("SE_ON", 12), ("SCA_ID_SET", 4), ("FLR_SET", 3),
    ("DIR_CK", 8), ("SCE_ESPR_ON", 16), ("DOOR_AOT_SET", 32), ("CUT_AUTO", 2), ("MEMBER_COPY", 3),
    ("MEMBER_CMP", 6), ("PLC_MOTION", 4), ("PLC_DEST", 8), ("PLC_NECK", 10), ("PLC_RET", 1),
    ("PLC_FLG", 4), ("SCE_EM_SET", 22), ("COL_CHG_SET", 5), ("AOT_RESET", 10), ("AOT_ON", 2),
    ("SUPER_SET", 16), ("SUPER_RESET", 8), ("PLC_GUN", 2), ("CUT_REPLACE", 3),
    ("SCE_ESPR_KILL", 5), ("DOOR_MODEL_SET", 22), ("ITEM_AOT_SET", 22), ("SCE_KEY_CK", 4),
    ("SCE_TRG_CK", 4), ("SCE_BGM_CONTROL", 6), ("SCE_ESPR_CONTROL", 6), ("SCE_FADE_SET", 6),
    ("SCE_ESPR3D_ON", 22), ("MEMBER_CALC", 6), ("MEMBER_CALC2", 4), ("SCE_BGMTBL_SET", 8),
    ("PLC_ROT", 4), ("XA_ON", 4), ("WEAPON_CHG", 2), ("PLC_CNT", 2), ("SCE_SHAKE_ON", 3),
    ("MIZU_DIV_SET", 2), ("KEEP_ITEM_CK", 2), ("XA_VOL", 2), ("KAGE_SET", 14), ("CUT_BE_SET", 4),
    ("SCE_ITEM_LOST", 2), ("PLC_GUN_EFF", 1), ("SCE_ESPR_ON2", 16), ("SCE_ESPR_KILL2", 2),
    ("PLC_STOP", 1), ("AOT_SET_4P", 28), ("DOOR_AOT_SET_4P", 40), ("ITEM_AOT_SET_4P", 30),
    ("LIGHT_POS_SET", 6), ("LIGHT_KIDO_SET", 4), ("RBJ_RESET", 1), ("SCE_SCR_MOVE", 4),
    ("PARTS_SET", 6), ("MOVIE_ON", 2), ("SPLC_RET", 1), ("SPLC_SCE", 1), ("SUPER_ON", 16),
    ("MIRROR_SET", 8), ("SCE_FADE_ADJUST", 4), ("SCE_ESPR3D_ON2", 22), ("SCE_ITEM_GET", 3),
    ("SCE_LINE_START", 4), ("SCE_LINE_MAIN", 6), ("SCE_LINE_END", 1), ("SCE_PARTS_BOMB", 16),
    ("SCE_PARTS_DOWN", 16), ("LIGHT_COLOR_SET", 6), ("LIGHT_POS_SET2", 6), ("LIGHT_KIDO_SET2", 6),
    ("LIGHT_COLOR_SET2", 6), ("SE_VOL", 2), ("SCE_ITEM_CMP", 3), ("SCE_ESPR_TASK", 3),
    ("PLC_HEAL", 1), ("ST_MAP_HINT", 2), ("SCE_EM_POS_CK", 6), ("POISON_CK", 1),
    ("POISON_CLR", 1), ("SCE_ITEM_CK_LOST", 3), ("EVT_NEXT2", 1), ("VIB_SET0", 6),
    ("VIB_SET1", 6), ("VIB_FADE_SET", 8), ("ITEM_AOT_SET2", 24), ("SCE_EM_SET2", 24)]

/-- The name of an opcode. -/
def name? (opcode : UInt8) : Option String := opcodes[opcode.toNat]?.map (·.1)

/-- The length of the instruction at the head of `code`; `0` where the script ends. -/
def length (code : Stretch) : Nat :=
  match code[0]? with
  | none => 0
  | some opcode => (opcodes[opcode.toNat]?.map (·.2)).getD unknownLength

/-! ## Bodies -/

/-- The body that an instruction opens.  `following` is the code behind the instruction. -/
def body? (i : Instruction) (following : Stretch) : Option Body :=
  let stored := (i.u16 2).toNat
  match Op.ofByte? i.opcode with
  | some .ifBegin => some ⟨.thenBody, effectiveIfLength stored following endIf - i.length⟩
  | some .elseBegin => some ⟨.elseBody, stored - i.length⟩
  | some .forBegin | some .whileBegin | some .doBegin => some ⟨.loopBody, stored - 2⟩
  | some .switchBegin => some ⟨.switchBody, stored - 2⟩
  | some .caseBegin => some ⟨.caseBody, stored⟩
  | _ => none

/-! ## Meaning -/

/-- The action on a flag with a number in bytecode. -/
def flagAction? (code : UInt8) : Option FlagAction :=
  if code = 0 then some .clear
  else if code = 1 then some .set
  else if code = 7 then some .toggle
  else none

/-- The operation of an instruction on a variable. -/
def varOp? (i : Instruction) : Op → Option VarOp
  | .compare =>
    (Comparison.ofCode? (i.u8 3)).map fun c ↦ ⟨i.u8 2, .compare c, .immediate (i.i16 4)⟩
  | .save => some ⟨i.u8 1, .set, .immediate (i.i16 2)⟩
  | .copy => some ⟨i.u8 1, .set, .var (i.u8 2)⟩
  | .arithmetic =>
    (VarAction.ofCode? (i.u8 2)).map fun action ↦ ⟨i.u8 3, action, .immediate (i.i16 4)⟩
  | .arithmeticVar =>
    (VarAction.ofCode? (i.u8 1)).map fun action ↦ ⟨i.u8 2, action, .var (i.u8 3)⟩
  | _ => none

/-- The place of a door's number. -/
def doorId : Nat := 1

/-- What an instruction does. -/
def action (i : Instruction) : Action :=
  match Op.ofByte? i.opcode with
  | some .check => i.flagTest
  | some .set =>
    .ofEffect? ((flagAction? (i.u8 3)).map fun action ↦ .flag ⟨i.u8 1, i.u8 2, action⟩)
  | some .cameraChange => .perform (.camera (i.u8 1))
  | some .messageOn => .perform (.message (i.u8 2))
  | some .doorSet => .perform (.door (i.door doorId))
  | some .itemSet => .perform (.item i.item)
  | some op => .ofEffect? ((varOp? i op).map .var)
  | none => .nothing

/-! ## Listing -/

/-- An operation on a variable as listings show it. -/
def describeVarOp (op : VarOp) : String :=
  let target := s!"var{hex2 op.id}.W"
  let operand :=
    match op.operand with
    | .immediate value => s!"{value}"
    | .var id => s!"var{hex2 id}.W"
  match op.action with
  | .compare comparison => s!"CMP {target} {comparison.mnemonic} {operand}"
  | .not => s!"{target} = !{target}"
  | action => s!"{target} {action.symbol} {operand}"

/-- The line of an opcode that has a name at most. -/
def describeOther (opcode : UInt8) : String :=
  (name? opcode).getD s!"Unknown opcode {Numeral.byte opcode}"

/-- The line of an instruction that works on a variable. -/
def describeVariable (i : Instruction) (op : Op) : String :=
  match varOp? i op with
  | some operation => describeVarOp operation
  | none => (name? i.opcode).getD "" ++ " ???"

/-- A line about a flag, with what the flag stands for below it. -/
def describeFlag (text : String) (array bit : UInt8) : Description :=
  { text, comments := (Symbols.flag? array bit).toList }

/-- The name of a flag action in listings. -/
def flagActionLabel : Option FlagAction → String
  | some .clear => "CLEAR"
  | some .set => "SET"
  | some _ => "CHG"
  | none => "???"

/-- How an instruction reads. -/
def describe (i : Instruction) (context : ListingContext) : Description :=
  match Op.ofByte? i.opcode with
  | none => .line (describeOther i.opcode)
  | some op =>
    match op with
    | .ifBegin => .line "BEGIN_IF"
    | .elseBegin => .line "ELSE"
    | .ifEnd => .line "END_IF"
    | .forBegin => .line s!"BEGIN_FOR {i.u16 4}"
    | .forEnd => .line "END_FOR"
    | .whileBegin => .line "BEGIN_WHILE"
    | .whileEnd => .line "END_WHILE"
    | .doBegin => .line "DO"
    | .doEnd => .line "WHILE"
    | .switchBegin => .line s!"BEGIN_SWITCH var{hex2 (i.u8 1)}.W"
    | .caseBegin => .line s!"CASE {Numeral.word (i.u16 4).toNat}"
    | .sleeping => .line s!"SLEEPING {i.u16 1}"
    | .goto => i.describeJump (i.i16 4)
    | .gosub => context.describeCall "GOSUB " (i.u8 1)
    | .eventExec =>
      if i.u8 2 = gosubCode then
        context.describeCall s!"EVT_EXEC {Numeral.byte (i.u8 1)} " (i.u8 3)
      else .line (describeOther i.opcode)
    | .workCopy =>
      .line s!"script[{Numeral.word (i.u8 2).toNat}] = var{hex2 (i.u8 1)}.W & 0xff"
    | .check =>
      describeFlag
        s!"CK array {Numeral.byte (i.u8 1)} bit {Numeral.byte (i.u8 2)} {onOff (i.u8 3)}"
        (i.u8 1) (i.u8 2)
    | .set =>
      let label := flagActionLabel (flagAction? (i.u8 3))
      describeFlag
        s!"BIT_CHG {label} array {Numeral.byte (i.u8 1)} bit {Numeral.byte (i.u8 2)}"
        (i.u8 1) (i.u8 2)
    | .cameraChange => .line s!"CUT_CHG {i.u8 1}"
    | .messageOn => context.describeMessage s!"MESSAGE_ON {Numeral.byte (i.u8 2)}" (i.u8 2)
    | .doorSet => .line ((i.door doorId).describe "DOOR_AOT_SET")
    | .itemSet => .line (i.item.describe "ITEM_AOT_SET")
    | .compare | .save | .copy | .arithmetic | .arithmeticVar => .line (describeVariable i op)

end Re2
end RoomScript
