import RoomScript.CommandLine.Engine
import RoomScript.CommandLine.Info

/-!
# The two commands

The program is one of two commands, and its first argument says which.
-/

set_option autoImplicit false

namespace RoomScript

/-- Runs the command that the first argument names on the other arguments. -/
def runCommand {m : Type → Type} [Monad m] (files : Files m) : List String → m Outcome
  | "rdt_engine" :: arguments => Engine.run files arguments
  | "rdt_info" :: arguments => Info.run files arguments
  | _ => return .usage (Engine.usage ++ "\n" ++ Info.usage)

end RoomScript
