import RoomScript.Numeral

/-!
# Problems met in scripts

Bytecode is never refused.  What is wrong with it is noted while it is read, and reading goes on as
far as it can.
-/

set_option autoImplicit false

namespace RoomScript

/-- Something that a script got wrong, or that cut its reading short. -/
inductive Problem where
  /-- A call of function `index` in a section with `count` functions. -/
  | functionOutOfRange (index count : Nat)
  /-- The ceiling on instructions was reached. -/
  | instructionLimit (limit : Nat)
  /-- The instruction at `offset` has fewer bytes than its opcode asks for. -/
  | truncated (offset wanted available : Nat)
  deriving DecidableEq, Repr

/-- The wording of a problem. -/
def Problem.message : Problem → String
  | functionOutOfRange index count =>
    s!"function index {index} is outside the {count}-entry function table"
  | instructionLimit limit => s!"instruction ceiling of {limit} reached"
  | truncated offset wanted available =>
    s!"instruction at {Numeral.offset offset} wants {wanted} bytes but only {available} remain"

end RoomScript
