import RoomScript.Language.Basic

/-!
# Event scripts of the first generation

The event language has three decode tables in use, and some of its instructions switch from one to
another; the opcodes from `0xf6` on mean the same in all of them.  Events change nothing in the
game themselves.  What they do is done by the room script fragments that two of their instructions
carry.
-/

set_option autoImplicit false

namespace RoomScript
namespace Re1Event

/-- Carries a fragment; the length byte counts all but the opcode. -/
def execScd : UInt8 := 0x06

/-- Carries a fragment; the length byte counts the two bytes of the header, too. -/
def scdBlock : UInt8 := 0x07

/-- Has its own length in the byte behind the opcode. -/
def skip : UInt8 := 0xfc

/-! ## Lengths -/

/-- The length of an opcode that all modes share.  `next` is the byte behind the opcode. -/
def sharedLength? (opcode : UInt8) (next : Option UInt8) : Option Nat :=
  match opcode with
  | 0xf6 | 0xf7 | 0xf8 | 0xfb | 0xfd | 0xff => some 1
  | 0xf9 => some 3
  | 0xfa => some 4
  | 0xfe => some 2
  | 0xfc => some ((next.map UInt8.toNat).getD 0)
  | _ => none

/-- The length in the first mode. -/
def length0 (opcode : UInt8) (next : Option UInt8) : Nat :=
  match opcode with
  | 0x04 => 3
  | 0x05 => 4
  | 0x06 => (next.map fun n ↦ n.toNat + 1).getD 0
  | 0x07 => (next.map UInt8.toNat).getD 0
  | 0x09 => 2
  | _ => 1

/-- The length in the second mode. -/
def length1 : UInt8 → Nat
  | 0x81 => 10
  | 0x83 => 7
  | 0x84 | 0x88 => 4
  | 0x85 | 0x87 | 0x89 | 0x8a => 2
  | _ => 1

/-- The length in the third mode. -/
def length2 : UInt8 → Nat
  | 0x05 | 0x06 | 0x0a => 4
  | 0x07 | 0x0b => 8
  | 0x08 => 3
  | 0x09 => 2
  | _ => 1

/-- The length of the instruction at the head of `code`; `0` where the script ends. -/
def length (code : Stretch) (mode : Mode) : Nat :=
  match code[0]? with
  | none => 0
  | some opcode =>
    match sharedLength? opcode code[1]? with
    | some length => length
    | none =>
      match mode with
      | .m0 => length0 opcode code[1]?
      | .m1 => length1 opcode
      | .m2 => length2 opcode
      | .m3 => 2

/-! ## Modes -/

/-- The mode behind an instruction. -/
def nextMode (opcode : UInt8) (mode : Mode) : Mode :=
  if 0xf6 ≤ opcode then mode
  else
    match mode, opcode with
    | .m0, 0x01 => .m1
    | .m0, 0x02 | .m0, 0x03 => .m2
    | .m1, 0x8b => .m0
    | .m2, 0x01 => .m0
    | mode, _ => mode

/-! ## Fragments -/

/-- The fragment that an instruction carries.  A length byte that does not even cover the header
means that there is none. -/
def fragment? (i : Instruction) : Option Fragment :=
  let stored := (i.u8 1).toNat
  if i.mode = .m0 ∧ i.opcode = execScd ∧ 1 ≤ stored then some ⟨2, stored - 1, .re1Scd⟩
  else if i.mode = .m0 ∧ i.opcode = scdBlock ∧ 2 ≤ stored then some ⟨2, stored - 2, .re1Scd⟩
  else none

/-! ## Listing -/

/-- How an instruction reads: its number, its mode unless that is the first one, and what is known
about it. -/
def describe (i : Instruction) : Description :=
  let mode := if i.mode = .m0 then "" else s!" [{i.mode.name}]"
  let meaning :=
    if i.mode = .m0 ∧ i.opcode = execScd then " EXEC_SCD"
    else if i.mode = .m0 ∧ i.opcode = scdBlock then " SCD_BLOCK"
    else if i.opcode = skip then s!" SKIP {i.u8 1}"
    else ""
  .line (s!"INST_{hex2 i.opcode}" ++ mode ++ meaning)

end Re1Event
end RoomScript
