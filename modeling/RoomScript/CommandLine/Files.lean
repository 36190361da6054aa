import RoomScript.Bytes

/-!
# Files as the commands see them

A command reads files by path, writes files by path and asks which files there are below a path.
`Files m` has these four operations in a monad `m`: the program runs the commands in `IO`, and
`FileTree` (in `RoomScript.CommandLine.FileTree`) runs them in a directory that is a value.

Paths are texts with `/` between the components; `.` and empty components mean nothing.
-/

set_option autoImplicit false

namespace RoomScript

/-- Why a file could not be read or written. -/
inductive FileError where
  | notFound
  | notDirectory
  | isDirectory
  /-- A path, or a component of one, is longer than the system allows. -/
  | nameTooLong
  /-- Something else, in the words of the system. -/
  | other (message : String)
  deriving DecidableEq, Repr

/-- The wording of an error. -/
def FileError.message : FileError → String
  | notFound => "No such file or directory (os error 2)"
  | notDirectory => "Not a directory (os error 20)"
  | isDirectory => "Is a directory (os error 21)"
  | nameTooLong => "File name too long (os error 36)"
  | other message => message

/-- The operations on files. -/
structure Files (m : Type → Type) where
  /-- The content of a file. -/
  read : String → m (Except FileError Bytes)
  /-- Creates a file or replaces its content. -/
  write : String → String → m (Except FileError Unit)
  /-- Whether there is a file or a directory. -/
  present : String → m Bool
  /-- The files at a path and below it, in any order.  A path that leads nowhere has none. -/
  below : String → m (List String)

namespace Path

/-- What a path has between its slashes. -/
def pieces (path : String) : List String := (path.splitOn "/").filter (· ≠ "")

/-- The components of a path. -/
def components (path : String) : List String := (pieces path).filter (· ≠ ".")

/-- Whether a path comes no later than another one, by their components.  The order is named, since
lists of strings have more than one. -/
def notAfter (a b : List String) : Bool :=
  @decide (@LE.le _ List.instLE a b) (List.decidableLE a b)

/-- Whether the last piece of a path is `.` or `..`. -/
def endsInDots (path : String) : Bool :=
  match (pieces path).getLast? with
  | some last => last = "." || last = ".."
  | none => false

/-- Whether a path says that it is a directory: it ends in `/`, or in a piece that is one. -/
def namesDirectory (path : String) : Bool := path.endsWith "/" || endsInDots path

/-- The greatest length of a component, in bytes. -/
def maxComponent : Nat := 255

/-- The greatest length of a path, in bytes. -/
def maxLength : Nat := 4095

/-- What is checked of a path before it is followed. -/
def check (path : String) : Except FileError Unit :=
  if path.isEmpty then .error .notFound
  else if maxLength < path.utf8ByteSize then .error .nameTooLong
  else .ok ()

/-- The path of a file below a directory. -/
def join (directory file : String) : String :=
  if directory.endsWith "/" then directory ++ file else directory ++ "/" ++ file

/-- The extension of a file name: what comes behind its last point, if something comes before. -/
def extension? (path : String) : Option String := do
  let name ← (components path).getLast?
  match (name.splitOn ".").reverse with
  | [] | [_] => none
  | ext :: stem => if stem = [""] then none else some ext

/-- Whether a path is that of a room file. -/
def isRoomFile (path : String) : Bool := (extension? path).any fun ext ↦ ext.toLower = "rdt"

end Path
end RoomScript
