/-!
# Settings

The knobs of running and listing scripts.  Numbers are 64 bits wide, as the settings file has them.
-/

set_option autoImplicit false

namespace RoomScript

/-- The settings of running and listing. -/
structure Settings where
  /-- The ceiling on the instructions of one script. -/
  maxInstructions : UInt64 := 65536
  /-- Whether a failed flag test gives up the body that it sits in. -/
  evaluateConditions : Bool := false
  /-- The number of languages that a listing shows messages in. -/
  languages : UInt64 := 2
  /-- Whether a listing shows the bytes of the instructions. -/
  showBytes : Bool := false
  deriving DecidableEq, Repr

namespace Settings

/-- The wording for settings that allow no instruction. -/
def noInstructions : String := "max_instructions must be at least 1"

/-- What is wrong with the settings, if anything is. -/
def invalid? (s : Settings) : Option String :=
  if s.maxInstructions = 0 then some noInstructions else none

end Settings
end RoomScript
