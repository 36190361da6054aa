import RoomScript.Effect
import RoomScript.FunctionTable
import RoomScript.Instruction
import RoomScript.Message.Table

/-!
# What script languages have in common

There are four script languages, and each of them answers the same questions about an instruction:

* how long it is, and which decode table comes after it;
* whether it opens a body, and how long that body is (`Body`);
* whether it carries a fragment of another language (`Fragment`);
* what it does to the game (`Action`);
* how it reads in a listing (`Description`).

This module has the types of the answers and the rules that the languages share.  Each language
answers for itself in a module of its own, and `RoomScript.Language` puts the answers together.
-/

set_option autoImplicit false

namespace RoomScript

/-- The script languages. -/
inductive Language where
  /-- Init and run scripts of the first generation. -/
  | re1Scd
  /-- Event scripts of the first generation. -/
  | re1Event
  /-- Scripts of the second generation. -/
  | re2
  /-- Scripts of the third generation. -/
  | re3
  deriving DecidableEq, Repr

/-- The name of the language in requests and reports. -/
def Language.name : Language → String
  | re1Scd => "re1-scd"
  | re1Event => "re1-event"
  | re2 => "re2"
  | re3 => "re3"

/-- The language of the init and run scripts of a generation. -/
def Generation.language : Generation → Language
  | re1 => .re1Scd
  | re2 => .re2
  | re3 => .re3

/-! ## Structure -/

/-- The bodies that instructions open. -/
inductive BodyKind where
  | thenBody
  | elseBody
  | loopBody
  | switchBody
  | caseBody
  deriving DecidableEq, Repr

/-- The name of the kind in requests and reports. -/
def BodyKind.name : BodyKind → String
  | thenBody => "if"
  | elseBody => "else"
  | loopBody => "loop"
  | switchBody => "switch"
  | caseBody => "case"

/-- A body that follows the instruction that opens it.  The length is what the instruction says;
the code may end before. -/
structure Body where
  kind : BodyKind
  length : Nat
  deriving DecidableEq, Repr

/-- A script carried inside an instruction, with a language of its own.  The place is what the
instruction says; the instruction may end before. -/
structure Fragment where
  start : Nat
  length : Nat
  language : Language
  deriving DecidableEq, Repr

/-- The length of an instruction whose opcode has no entry in its table. -/
def unknownLength : Nat := 1

/-- The length in a table where `0` marks an opcode without an entry. -/
def tableLength (table : Array Nat) (opcode : UInt8) : Nat :=
  match table[opcode.toNat]? with
  | none | some 0 => unknownLength
  | some length => length

/-- The length of an `if` of the later generations, counted from its first byte.

The stored length may or may not take the closing instruction in.  If the byte two places before
the stored end is the opcode `endIf`, the end lies behind that instruction.  `following` is the code
behind the header of the `if`. -/
def effectiveIfLength (stored : Nat) (following : Stretch) (endIf : UInt8) : Nat :=
  if 2 ≤ stored ∧ following[stored - 2]? = some endIf then stored + 2 else stored

/-! ## Meaning -/

/-- What an instruction does. -/
inductive Action where
  /-- Nothing that a game could tell. -/
  | nothing
  /-- A change of the game. -/
  | perform (effect : Effect)
  /-- Asks whether a flag has the expected value. -/
  | test (array bit : UInt8) (expected : Bool)
  deriving DecidableEq, Repr

namespace Action

/-- The effect of an action.  Looking at a flag is an effect, too. -/
def effect? : Action → Option Effect
  | nothing => none
  | perform effect => some effect
  | test array bit _ => some (.flag ⟨array, bit, .test⟩)

/-- An action that may be missing. -/
def ofEffect? : Option Effect → Action
  | some effect => perform effect
  | none => nothing

end Action

/-- The test of a flag that has its array, its number and the expected value in the three bytes
behind the opcode. -/
def Instruction.flagTest (i : Instruction) : Action := .test (i.u8 1) (i.u8 2) (i.u8 3 ≠ 0)

/-- The door of the later generations, whose number is at `idAt`.  Stages count from zero in
bytecode and from one elsewhere. -/
def Instruction.door (i : Instruction) (idAt : Nat) : Door where
  id := i.u8 idAt
  x := i.i16 6
  y := i.i16 8
  w := i.i16 10
  h := i.i16 12
  nextStage := i.u8 22 + 1
  nextRoom := i.u8 23
  nextCamera := i.u8 24
  nextPos := ⟨i.i16 14, i.i16 16, i.i16 18, i.i16 20⟩

/-- The item of the later generations. -/
def Instruction.item (i : Instruction) : Item where
  id := i.u8 1
  x := i.i16 6
  y := i.i16 8
  w := i.i16 10
  h := i.i16 12
  kind := i.u16 14
  amount := i.u16 16

/-! ## Description -/

/-- How an instruction reads in a listing: a line, comments below it, and a problem that came up
while it was written. -/
structure Description where
  text : String
  comments : List String := []
  problem? : Option Problem := none
  deriving DecidableEq, Repr

/-- A description without comments. -/
def Description.line (text : String) : Description := { text }

/-- What a description can refer to. -/
structure ListingContext where
  /-- The offsets of the functions that a call can go to. -/
  entries : List UInt32 := []
  /-- The messages that are shown beside their numbers. -/
  messages : MessageSource := []
  /-- The number of languages that they are shown in. -/
  languages : Nat := 0

/-- The state of a switch. -/
def onOff (value : UInt8) : String := if value ≠ 0 then "on" else "off"

/-- A door as listings show it. -/
def Door.describe (d : Door) (name : String) : String :=
  s!"OBJECT #{Numeral.byte d.id} = {name} stage {d.nextStage} room {Numeral.byte d.nextRoom} "
    ++ s!"camera {d.nextCamera} pos ({d.nextPos.x},{d.nextPos.y},{d.nextPos.z}) "
    ++ s!"dir {d.nextPos.dir}"

/-- An item as listings show it. -/
def Item.describe (t : Item) (name : String) : String :=
  s!"OBJECT #{Numeral.byte t.id} = {name} type {Numeral.word t.kind.toNat} amount {t.amount} "
    ++ s!"at ({t.x},{t.y}) size {t.w}x{t.h}"

/-- A call of a function, with the offset that it goes to. -/
def ListingContext.describeCall (context : ListingContext) (intro : String) (index : UInt8) :
    Description :=
  match callTarget context.entries index.toNat with
  | .ok target =>
    { text := s!"{intro}func{hex2 index}() [{Numeral.offset target.toNat}]" }
  | .error problem =>
    { text := s!"{intro}func{hex2 index}() ; out of range", problem? := some problem }

/-- A jump.  Its distance counts from the jump itself, in signed 64 bit arithmetic; a target in
front of the section has no offset, and the distance is shown in its place. -/
def Instruction.describeJump (i : Instruction) (distance : Int16) : Description :=
  let target := Int64.ofNat i.offset + distance.toInt64
  if target < 0 then .line s!"GOTO [rel {distance}]"
  else .line s!"GOTO [{Numeral.offset target.toNatClampNeg}]"

/-- An instruction that shows a message, with the text of the message in every language that has
one. -/
def ListingContext.describeMessage (context : ListingContext) (text : String) (id : UInt8) :
    Description where
  text
  comments := (context.messages.take context.languages).zipIdx.filterMap fun (message?, language) ↦
    (message? id.toNat).map fun message ↦ s!"L{language}\t{message}"

end RoomScript
