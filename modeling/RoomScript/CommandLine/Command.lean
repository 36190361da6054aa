import RoomScript.CommandLine.Files
import RoomScript.Numeral

/-!
# What the commands share

A command is given arguments and files; it prints to two channels and ends with a code.  It can
fail on the way, and what it had printed before stays printed.  A failure is a chain of messages,
from what was being done to what went wrong.

Arguments are options and operands.  An option has its value in the next argument or behind `=`,
and no option is given twice; behind `--` there are only operands.
-/

set_option autoImplicit false

namespace RoomScript

/-! ## Failing -/

/-- A failure: what was being done, and what caused it, the direct cause first. -/
structure Failure where
  message : String
  causes : List String := []
  deriving DecidableEq, Repr

namespace Failure

/-- A text behind an intro.  What comes after a line break is set in by a margin. -/
def setIn (intro : String) (margin : Nat) (text : String) : String :=
  let lineBreak := "\n" ++ String.ofList (List.replicate margin ' ')
  intro ++ String.intercalate lineBreak (text.splitOn "\n")

/-- What is printed below the message: a single cause stands alone, several are numbered. -/
def causeLines (f : Failure) : List String :=
  match f.causes with
  | [] => []
  | [cause] => [setIn "    " 4 cause]
  | causes => causes.zipIdx.map fun (cause, number) ↦
    setIn (Numeral.padLeft ' ' 5 (toString number) ++ ": ") 7 cause

/-- The failure as it is printed. -/
def render (f : Failure) : String :=
  let lines := f.causeLines
  let below := if lines.isEmpty then [] else ["", "Caused by:"] ++ lines
  String.join ((s!"Error: {f.message}" :: below).map (· ++ "\n"))

/-- The failure in one line. -/
def oneLine (f : Failure) : String := String.intercalate ": " (f.message :: f.causes)

/-- The failure of something that was part of something else. -/
def within (f : Failure) (message : String) : Failure := ⟨message, f.message :: f.causes⟩

end Failure

/-- What a command printed, and the code it ended with. -/
structure Outcome where
  code : Nat := 0
  stdout : String := ""
  stderr : String := ""
  deriving DecidableEq, Repr

/-- The code of a command that did not understand its arguments. -/
def usageCode : Nat := 2

/-- A command under way: it prints, and it may fail. -/
abbrev Command (m : Type → Type) := ExceptT Failure (StateT Outcome m)

namespace Command

variable {m : Type → Type} [Monad m]

/-- Prints to the first channel. -/
def print (text : String) : Command m Unit :=
  modify fun o ↦ { o with stdout := o.stdout ++ text }

/-- Prints to the second channel. -/
def printError (text : String) : Command m Unit :=
  modify fun o ↦ { o with stderr := o.stderr ++ text }

/-- Fails if the answer of a file operation is an error, with the message in front. -/
def orFail {α : Type} (message : String) (answer : Except FileError α) : Command m α :=
  match answer with
  | .ok x => return x
  | .error e => throw ⟨message, [e.message]⟩

/-- Runs a command to its end. -/
def run (command : Command m Unit) : m Outcome := do
  let (result, outcome) ← (ExceptT.run command).run {}
  match result with
  | .ok () => return outcome
  | .error f => return { outcome with code := 1, stderr := outcome.stderr ++ f.render }

end Command

/-- The outcome of arguments that make no sense; the text says how to use the command. -/
def Outcome.usage (text : String) : Outcome := { code := usageCode, stderr := text ++ "\n" }

/-! ## Arguments -/

/-- The arguments of a command, taken apart. -/
structure Arguments where
  operands : List String := []
  /-- The options that were given, with their values; an option without a value has `none`. -/
  options : List (String × Option String) := []
  deriving DecidableEq, Repr

namespace Arguments

/-- The options that a command knows, and whether they take a value. -/
abbrev Known := List (String × Bool)

/-- The name and the value of an option that is written with `=`. -/
def splitValue (argument : String) : String × Option String :=
  match argument.splitOn "=" with
  | [] => (argument, none)
  | [name] => (name, none)
  | name :: rest => (name, some (String.intercalate "=" rest))

/-- Whether an argument is an operand, or the value of the option before it. -/
def isPlain (argument : String) : Bool := argument = "-" || !argument.startsWith "-"

/-- Adds an option, which must not have been given before. -/
def addOption? (a : Arguments) (name : String) (value : Option String) : Option Arguments :=
  if (a.options.lookup name).isSome then none
  else some { a with options := a.options ++ [(name, value)] }

/-- Takes arguments apart, behind those that were taken apart before. -/
def parseFrom? (known : Known) (a : Arguments) : List String → Option Arguments
  | [] => some a
  | argument :: rest =>
    if argument = "--" then some { a with operands := a.operands ++ rest }
    else if isPlain argument then
      parseFrom? known { a with operands := a.operands ++ [argument] } rest
    else
      let (name, value?) := splitValue argument
      match known.lookup name, value?, rest with
      | none, _, _ => none
      | some false, some _, _ => none
      | some false, none, rest => do parseFrom? known (← a.addOption? name none) rest
      | some true, some value, rest => do parseFrom? known (← a.addOption? name (some value)) rest
      | some true, none, [] => none
      | some true, none, value :: rest =>
        if isPlain value then do parseFrom? known (← a.addOption? name (some value)) rest
        else none

/-- Takes the arguments of a command apart. -/
def parse? (known : Known) (arguments : List String) : Option Arguments :=
  parseFrom? known {} arguments

/-- Whether an option without a value was given. -/
def has (a : Arguments) (name : String) : Bool := (a.options.lookup name).isSome

/-- The value of an option, read by `read?`.  The outer level fails if it cannot be read. -/
def value? {α : Type} (a : Arguments) (name : String) (read? : String → Option α) :
    Option (Option α) :=
  match (a.options.lookup name).join with
  | none => some none
  | some text => (read? text).map some

end Arguments

/-! ## Values -/

namespace Value

/-- A path, which must not be empty. -/
def path? (text : String) : Option String := if text.isEmpty then none else some text

/-- A natural number below `bound` in decimal digits. -/
def digits? (bound : Nat) (cs : List Char) : Option Nat :=
  if cs.isEmpty || !cs.all Char.isDigit then none else Numeral.below? bound cs

/-- A number of 64 bits, which may have a plus in front. -/
def word? (text : String) : Option UInt64 := do
  let n ←
    match text.toList with
    | '+' :: cs => digits? UInt64.size cs
    | cs => digits? UInt64.size cs
  return UInt64.ofNat n

/-- A number of 8 bits, which may have a sign in front; below zero there is none. -/
def byte? (text : String) : Option UInt8 := do
  let n ←
    match text.toList with
    | '+' :: cs => digits? UInt8.size cs
    | '-' :: cs => digits? 1 cs
    | cs => digits? UInt8.size cs
  return UInt8.ofNat n

end Value
end RoomScript
