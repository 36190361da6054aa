import RoomScript.Numeral

/-!
# What scripts do to a game

A script changes a game in six ways: it places doors and items, works on flags, works on variables,
switches the camera and shows messages.  `Effect` is the type of these changes.  It says what was
asked for, not what came of it; carrying an effect out is `RoomState.perform`.

Flags are bits in numbered arrays.  Variables are numbered 16 bit words, and the arithmetic on them
is total: `VarAction.update` is `none` where nothing is to be written.
-/

set_option autoImplicit false

namespace RoomScript

/-! ## Doors and items -/

/-- A place in a room and the direction faced there. -/
structure Position where
  x : Int16
  y : Int16
  z : Int16
  dir : Int16
  deriving DecidableEq, Repr

/-- A door: its trigger area, and the place that it leads to. -/
structure Door where
  id : UInt8
  x : Int16
  y : Int16
  w : Int16
  h : Int16
  nextStage : UInt8
  nextRoom : UInt8
  nextCamera : UInt8
  nextPos : Position
  deriving DecidableEq, Repr

/-- An item: its trigger area, and what is found there. -/
structure Item where
  id : UInt8
  x : Int16
  y : Int16
  w : Int16
  h : Int16
  kind : UInt16
  amount : UInt16
  deriving DecidableEq, Repr

/-! ## Flags -/

/-- What is done to a flag. -/
inductive FlagAction where
  | clear
  | set
  | toggle
  /-- The flag is looked at and stays as it is. -/
  | test
  deriving DecidableEq, Repr

/-- The name of the action in reports. -/
def FlagAction.name : FlagAction → String
  | clear => "clear"
  | set => "set"
  | toggle => "toggle"
  | test => "test"

/-- The value of a flag after the action. -/
def FlagAction.update : FlagAction → Bool → Bool
  | clear, _ => false
  | set, _ => true
  | toggle, value => !value
  | test, value => value

/-- An action on the flag `bit` of an array. -/
structure FlagOp where
  array : UInt8
  bit : UInt8
  action : FlagAction
  deriving DecidableEq, Repr

/-! ## Variables -/

/-- The ways to compare a variable. -/
inductive Comparison where
  | eq
  | gt
  | ge
  | lt
  | le
  | ne
  deriving DecidableEq, Repr

namespace Comparison

/-- The comparison with a number in bytecode. -/
def ofCode? : UInt8 → Option Comparison
  | 0 => some eq
  | 1 => some gt
  | 2 => some ge
  | 3 => some lt
  | 4 => some le
  | 5 => some ne
  | _ => none

/-- The name of the comparison in reports. -/
def name : Comparison → String
  | eq => "eq"
  | gt => "gt"
  | ge => "ge"
  | lt => "lt"
  | le => "le"
  | ne => "ne"

/-- The name of the comparison in listings. -/
def mnemonic : Comparison → String
  | eq => "EQ"
  | gt => "GT"
  | ge => "GE"
  | lt => "LT"
  | le => "LE"
  | ne => "NE"

end Comparison

/-- What is done to a variable. -/
inductive VarAction where
  | set
  | add
  | sub
  | mul
  | div
  | mod
  | or
  | and
  | xor
  | not
  | shr
  | shl
  | sar
  /-- The variable is looked at and stays as it is. -/
  | compare (comparison : Comparison)
  deriving DecidableEq, Repr

namespace VarAction

/-- The arithmetic action with a number in bytecode. -/
def ofCode? : UInt8 → Option VarAction
  | 0 => some add
  | 1 => some sub
  | 2 => some mul
  | 3 => some div
  | 4 => some mod
  | 5 => some or
  | 6 => some and
  | 7 => some xor
  | 8 => some not
  | 9 => some shr
  | 10 => some shl
  | 11 => some sar
  | _ => none

/-- The name of the action in reports; a comparison is reported by its own name. -/
def name : VarAction → String
  | set => "set"
  | add => "add"
  | sub => "sub"
  | mul => "mul"
  | div => "div"
  | mod => "mod"
  | or => "or"
  | and => "and"
  | xor => "xor"
  | not => "not"
  | shr => "shr"
  | shl => "shl"
  | sar => "sar"
  | compare c => c.name

/-- The operator in listings.  The two shifts to the right read alike. -/
def symbol : VarAction → String
  | set => "="
  | add => "+="
  | sub => "-="
  | mul => "*="
  | div => "/="
  | mod => "%="
  | or => "|="
  | and => "&="
  | xor => "^="
  | not => "= !"
  | shr => ">>="
  | shl => "<<="
  | sar => ">>="
  | compare c => c.mnemonic

/-- Whether a quotient is undefined: the divisor is zero, or the quotient is too large for a
word. -/
def NoQuotient (current operand : Int16) : Prop :=
  operand = 0 ∨ (current = Int16.minValue ∧ operand = -1)

instance (current operand : Int16) : Decidable (NoQuotient current operand) :=
  inferInstanceAs (Decidable (_ ∨ _))

/-- The value that an action writes to a variable that holds `current`, if it writes one.

Sums, differences and products wrap; quotients go toward zero, and remainders have the sign of the
dividend.  Shifts use the low four bits of the operand. -/
def update (action : VarAction) (current operand : Int16) : Option Int16 :=
  match action with
  | set => some operand
  | add => some (current + operand)
  | sub => some (current - operand)
  | mul => some (current * operand)
  | div => if NoQuotient current operand then none else some (current / operand)
  | mod => if NoQuotient current operand then none else some (current % operand)
  | or => some (current ||| operand)
  | and => some (current &&& operand)
  | xor => some (current ^^^ operand)
  | not => some (if current = 0 then 1 else 0)
  | shr => some (current.toUInt16 >>> (operand.toUInt16 &&& 15)).toInt16
  | shl => some (current <<< (operand &&& 15))
  | sar => some (current >>> (operand &&& 15))
  | compare _ => none

end VarAction

/-- The second operand of an action on a variable. -/
inductive Operand where
  | immediate (value : Int16)
  | var (id : UInt8)
  deriving DecidableEq, Repr

/-- An action on the variable `id`. -/
structure VarOp where
  id : UInt8
  action : VarAction
  operand : Operand
  deriving DecidableEq, Repr

/-! ## All of them -/

/-- A change that a script asks for. -/
inductive Effect where
  | door (door : Door)
  | item (item : Item)
  | flag (op : FlagOp)
  | var (op : VarOp)
  /-- Switches to a camera. -/
  | camera (id : UInt8)
  /-- Shows a message. -/
  | message (id : UInt8)
  deriving DecidableEq, Repr

end RoomScript
