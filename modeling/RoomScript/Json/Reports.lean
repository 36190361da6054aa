import RoomScript.Json
import RoomScript.Room
import RoomScript.ScriptSection

/-!
# Reports in JSON

The shapes in which reports write rooms, effects, states and listings.  Sums are told apart by a
member or by the name of the alternative, and the numbered cells of a store are the members of a
record whose names are the numbers.
-/

set_option autoImplicit false

namespace RoomScript

/-- A byte. -/
def Json.byte (n : UInt8) : Json := .nat n.toNat

/-- A signed word. -/
def Json.int16 (n : Int16) : Json := .number n.toInt

/-- A position. -/
def Position.toJson (p : Position) : Json :=
  .record [("x", .int16 p.x), ("y", .int16 p.y), ("z", .int16 p.z), ("dir", .int16 p.dir)]

/-- A door. -/
def Door.toJson (d : Door) : Json :=
  .record
    [("id", .byte d.id), ("x", .int16 d.x), ("y", .int16 d.y), ("w", .int16 d.w),
      ("h", .int16 d.h), ("next_stage", .byte d.nextStage), ("next_room", .byte d.nextRoom),
      ("next_camera", .byte d.nextCamera), ("next_pos", d.nextPos.toJson)]

/-- An item. -/
def Item.toJson (t : Item) : Json :=
  .record
    [("id", .byte t.id), ("x", .int16 t.x), ("y", .int16 t.y), ("w", .int16 t.w),
      ("h", .int16 t.h), ("kind", .nat t.kind.toNat), ("amount", .nat t.amount.toNat)]

/-- An operation on a flag. -/
def FlagOp.toJson (op : FlagOp) : Json :=
  .record [("array", .byte op.array), ("bit", .byte op.bit), ("op", .string op.action.name)]

/-- An action on a variable: its name, which a comparison has inside a record. -/
def VarAction.toJson : VarAction → Json
  | .compare comparison => .record [("compare", .string comparison.name)]
  | action => .string action.name

/-- An operand. -/
def Operand.toJson : Operand → Json
  | .immediate value => .record [("kind", .string "immediate"), ("value", .int16 value)]
  | .var id => .record [("kind", .string "var"), ("value", .byte id)]

/-- An operation on a variable. -/
def VarOp.toJson (op : VarOp) : Json :=
  .record [("id", .byte op.id), ("op", op.action.toJson), ("operand", op.operand.toJson)]

/-- A camera or a message, which is nothing but its number. -/
def Json.numbered (id : UInt8) : Json := .record [("id", .byte id)]

/-- An effect, under its name. -/
def Effect.toJson : Effect → String × Json
  | .door d => ("door", d.toJson)
  | .item t => ("item", t.toJson)
  | .flag op => ("flag", op.toJson)
  | .var op => ("var", op.toJson)
  | .camera id => ("camera", .numbered id)
  | .message id => ("message", .numbered id)

/-- The numbers of the flags that are set in an array, ascending. -/
def FlagArray.setBits (bits : FlagArray) : List Nat :=
  (List.range 256).filter fun bit ↦ bits.getLsbD bit

/-- The filled cells of a store. -/
def Cells.toJson {α : Type} (write : α → Json) (cells : Cells α) : Json :=
  .record (cells.map fun (k, x) ↦ (toString k, write x))

/-- A state. -/
def RoomState.toJson (s : RoomState) : Json :=
  .record
    [("stage", .byte s.stage), ("room", .byte s.room), ("camera", .byte s.camera),
      ("doors", .list (s.doors.toList.map Door.toJson)),
      ("items", .list (s.items.toList.map Item.toJson)),
      ("messages", .list (s.messages.toList.map Json.numbered)),
      ("flag_ops", .list (s.flagOps.toList.map FlagOp.toJson)),
      ("var_ops", .list (s.varOps.toList.map VarOp.toJson)),
      ("flags", Cells.toJson (fun bits ↦ .list ((FlagArray.setBits bits).map .nat)) s.flags),
      ("vars", Cells.toJson .int16 s.vars)]

/-- A problem. -/
def Problem.toJson : Problem → Json
  | .functionOutOfRange index count =>
    .record
      [("kind", .string "function_out_of_range"), ("index", .nat index), ("count", .nat count)]
  | .instructionLimit limit =>
    .record [("kind", .string "instruction_limit"), ("limit", .nat limit)]
  | .truncated offset wanted available =>
    .record
      [("kind", .string "truncated"), ("offset", .nat offset), ("wanted", .nat wanted),
        ("available", .nat available)]

/-- The account of a walk. -/
def Report.toJson (r : Report) : Json :=
  .record
    [("instructions", .nat r.instructions), ("errors", .list (r.problems.toList.map Problem.toJson))]

/-- A line of a listing. -/
def Line.toJson (l : Line) : Json :=
  .record [("offset", .nat l.offset), ("indent", .nat l.indent), ("text", .string l.text)]

/-- The lines of a listing. -/
def Listing.linesToJson (l : Listing) : Json := .list (l.lines.toList.map Line.toJson)

/-- A line of a room's table of contents. -/
def Room.Entry.toJson (e : Room.Entry) : Json :=
  .record
    [("index", .nat e.index), ("kind", .optional (fun k ↦ .string k.identifier) e.kind?),
      ("offset", .nat e.offset), ("length", .nat e.length)]

end RoomScript
