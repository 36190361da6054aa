import RoomScript.CommandLine.Program

/-!
# The program

Here is what touches the system: files, the two channels, and the exit code.  Everything else is
`RoomScript.runCommand`.
-/

set_option autoImplicit false

namespace RoomScript
namespace SystemFiles

/-- An error of the system. -/
def error : IO.Error → FileError
  | .noFileOrDirectory .. => .notFound
  | .inappropriateType .. => .notDirectory
  | .invalidArgument _ 36 _ => .nameTooLong
  | e => .other (toString e)

/-- Runs an operation, and turns an error of the system into an answer. -/
def attempt {α : Type} (operation : IO α) : IO (Except FileError α) := do
  match ← operation.toBaseIO with
  | .ok x => return .ok x
  | .error e => return .error (error e)

/-- The operations on the files of the system. -/
def files : Files IO where
  read path := do
    if ← (System.mkFilePath [path]).isDir then return .error .isDirectory
    attempt do return (← IO.FS.readBinFile path).data
  write path text := do
    if ← (System.mkFilePath [path]).isDir then return .error .isDirectory
    attempt (IO.FS.writeFile path text)
  present path := (System.mkFilePath [path]).pathExists
  below path := do
    let start := System.mkFilePath [path]
    let found ← if ← start.isDir then start.walkDir else pure #[start]
    let found ← found.filterM fun entry ↦ do return (← entry.pathExists) && !(← entry.isDir)
    return found.toList.map fun entry ↦ entry.toString

end SystemFiles

end RoomScript

/-- Runs the program. -/
def main (arguments : List String) : IO UInt32 := do
  let outcome ← RoomScript.runCommand RoomScript.SystemFiles.files arguments
  (← IO.getStdout).putStr outcome.stdout
  (← IO.getStderr).putStr outcome.stderr
  return UInt32.ofNat outcome.code
