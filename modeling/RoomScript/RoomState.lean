import RoomScript.Cells
import RoomScript.Effect

/-!
# The state that scripts work on

`RoomState` is a game as far as scripts can tell.  The stage, the room, the camera, the doors, the
items and the messages belong to the current room, and so do the logs of the operations on flags
and variables; entering a room forgets them.  The flags and the variables themselves outlive the
room.

There are two ways to change a state, `enterRoom` and `perform`, and every query about the store —
`flag` and `var` — has one lemma for each of them.
-/

set_option autoImplicit false

namespace RoomScript

/-- The flags of one array. -/
abbrev FlagArray := BitVec 256

/-- The state of a game. -/
structure RoomState where
  stage : UInt8 := 0
  room : UInt8 := 0
  camera : UInt8 := 0
  doors : Array Door := #[]
  items : Array Item := #[]
  messages : Array UInt8 := #[]
  /-- The operations on flags since the room was entered. -/
  flagOps : Array FlagOp := #[]
  /-- The operations on variables since the room was entered. -/
  varOps : Array VarOp := #[]
  /-- The flag arrays that were ever written to. -/
  flags : Cells FlagArray := []
  /-- The variables that were ever written to. -/
  vars : Cells Int16 := []
  deriving DecidableEq

namespace RoomState

/-! ## Queries -/

/-- The flags of an array; an array that was never written to is clear. -/
def flagArray (s : RoomState) (array : UInt8) : FlagArray := (s.flags.find? array).getD 0

/-- The value of a flag. -/
def flag (s : RoomState) (array bit : UInt8) : Bool := (s.flagArray array).getLsbD bit.toNat

/-- The value of a variable; one that was never written to is zero. -/
def var (s : RoomState) (id : UInt8) : Int16 := (s.vars.find? id).getD 0

/-- The value of an operand. -/
def operand (s : RoomState) : Operand → Int16
  | .immediate value => value
  | .var id => s.var id

/-! ## Changes -/

/-- A new game in the given room. -/
def new (stage room : UInt8) : RoomState := { stage, room }

/-- Moves to a room: everything that belonged to the old one is forgotten. -/
def enterRoom (s : RoomState) (stage room : UInt8) : RoomState :=
  { stage, room, flags := s.flags, vars := s.vars }

/-- Makes a flag of an array equal to `value`. -/
def writeFlag (bits : FlagArray) (bit : UInt8) (value : Bool) : FlagArray :=
  if value then bits ||| BitVec.twoPow 256 bit.toNat
  else bits &&& ~~~ BitVec.twoPow 256 bit.toNat

/-- Carries an operation on a flag out, and logs it. -/
def performFlag (s : RoomState) (op : FlagOp) : RoomState :=
  let s := { s with flagOps := s.flagOps.push op }
  match op.action with
  | .test => s
  | action =>
    let value := action.update (s.flag op.array op.bit)
    { s with flags := s.flags.put op.array (writeFlag (s.flagArray op.array) op.bit value) }

/-- Carries an operation on a variable out, and logs it. -/
def performVar (s : RoomState) (op : VarOp) : RoomState :=
  let s := { s with varOps := s.varOps.push op }
  match op.action.update (s.var op.id) (s.operand op.operand) with
  | some value => { s with vars := s.vars.put op.id value }
  | none => s

/-- Carries an effect out. -/
def perform (s : RoomState) : Effect → RoomState
  | .door door => { s with doors := s.doors.push door }
  | .item item => { s with items := s.items.push item }
  | .flag op => s.performFlag op
  | .var op => s.performVar op
  | .camera id => { s with camera := id }
  | .message id => { s with messages := s.messages.push id }

/-! ## Flags after a change -/

theorem getLsbD_writeFlag (bits : FlagArray) (bit : UInt8) (value : Bool) (other : UInt8) :
    (writeFlag bits bit value).getLsbD other.toNat
      = if bit = other then value else bits.getLsbD other.toNat := by
  have hlt : other.toNat < 256 := other.toNat_lt
  have hiff : bit.toNat = other.toNat ↔ bit = other := UInt8.toNat_inj
  unfold writeFlag
  by_cases h : bit = other
  · subst h
    cases value <;> simp [hlt]
  · have hne : ¬ other.toNat = bit.toNat := fun e ↦ h (hiff.1 e.symm)
    cases value <;> simp [hlt, h, hne]

/-- An operation on a flag changes that flag as its action says, and no other. -/
theorem flag_performFlag (s : RoomState) (op : FlagOp) (array bit : UInt8) :
    (s.performFlag op).flag array bit
      = if op.array = array ∧ op.bit = bit then op.action.update (s.flag array bit)
        else s.flag array bit := by
  obtain ⟨a, b, action⟩ := op
  by_cases ha : a = array
  · subst ha
    by_cases hb : b = bit
    · subst hb
      cases action <;>
        simp [performFlag, flag, flagArray, Cells.find?_put, getLsbD_writeFlag, FlagAction.update]
    · cases action <;>
        simp [performFlag, flag, flagArray, Cells.find?_put, getLsbD_writeFlag, hb]
  · cases action <;> simp [performFlag, flag, flagArray, Cells.find?_put, ha]

@[simp]
theorem flag_enterRoom (s : RoomState) (stage room array bit : UInt8) :
    (s.enterRoom stage room).flag array bit = s.flag array bit := rfl

/-! ## Variables after a change -/

/-- An operation on a variable changes that variable, if its action writes one, and no other. -/
theorem var_performVar (s : RoomState) (op : VarOp) (id : UInt8) :
    (s.performVar op).var id
      = if op.id = id then
          (op.action.update (s.var op.id) (s.operand op.operand)).getD (s.var op.id)
        else s.var id := by
  have hop : ({ s with varOps := s.varOps.push op } : RoomState).operand op.operand
      = s.operand op.operand := by cases op.operand <;> rfl
  unfold performVar
  simp only [hop]
  split
  · next value h =>
    have h' : op.action.update (s.var op.id) (s.operand op.operand) = some value := h
    rw [h']
    by_cases hid : op.id = id <;> simp [var, Cells.find?_put, hid]
  · next h =>
    have h' : op.action.update (s.var op.id) (s.operand op.operand) = none := h
    rw [h']
    by_cases hid : op.id = id <;> simp [var, hid]

@[simp]
theorem var_enterRoom (s : RoomState) (stage room id : UInt8) :
    (s.enterRoom stage room).var id = s.var id := rfl

end RoomState
end RoomScript
