import RoomScript.CommandLine.Engine
import RoomScript.Message.Table

/-!
# The info command

Prints the tables of contents of room files: of one file, or of all room files below a directory in
the order of their paths.  A file that is no room is passed over with a note.
-/

set_option autoImplicit false

namespace RoomScript
namespace Info

/-! ## Arguments -/

/-- What the command is asked to do. -/
structure Options where
  room? : Option String
  root? : Option String
  generation : Generation
  json? : Option String
  deriving DecidableEq, Repr

/-- The options of the command, all of which take a value. -/
def known : Arguments.Known := [("--root", true), ("--game", true), ("--json", true)]

/-- How to use the command. -/
def usage : String :=
  "usage: rdt_info --game <re1|re2|re3> [--json <PATH>] (<FILE> | --root <DIR>)"

/-- Reads the arguments of the command.  A file and a directory exclude each other. -/
def Options.ofArguments? (arguments : List String) : Option Options := do
  let a ← Arguments.parse? known arguments
  let root? ← a.value? "--root" Value.path?
  let generation ← (← a.value? "--game" Generation.ofName?)
  let json? ← a.value? "--json" Value.path?
  match a.operands, root? with
  | [], _ => return { room? := none, root?, generation, json? }
  | [file], none => return { room? := some (← Value.path? file), root? := none, generation, json? }
  | _, _ => none

/-! ## Texts -/

/-- What is told about a room file. -/
structure Summary where
  path : String
  cameras : UInt8
  messages : Nat
  sections : List Room.Entry
  deriving DecidableEq, Repr

/-- The summary of a room. -/
def Summary.ofRoom (path : String) (r : Room) : Summary :=
  { path, cameras := r.cameras, messages := r.messageCount, sections := r.sections }

/-- A line of a table of contents as it is printed. -/
def entryLine (e : Room.Entry) : String :=
  let label := (e.kind?.map SectionKind.label).getD "-"
  "  " ++ Numeral.padLeft ' ' 2 (toString e.index) ++ " " ++ Numeral.padRight ' ' 20 label ++ " "
    ++ Numeral.offset e.offset ++ " " ++ Numeral.padLeft ' ' 8 (toString e.length) ++ "\n"

/-- The summary as it is printed. -/
def Summary.render (s : Summary) : String :=
  s!"{s.path} ({s.cameras} cameras, {s.messages} messages)\n"
    ++ String.join (s.sections.map entryLine)

/-- The summary in the JSON report. -/
def Summary.toJson (s : Summary) : Json :=
  .record
    [("path", .string s.path), ("cameras", .byte s.cameras), ("messages", .nat s.messages),
      ("sections", .list (s.sections.map Room.Entry.toJson))]

/-! ## The command -/

variable {m : Type → Type} [Monad m]

/-- The room files to look at. -/
def paths (files : Files m) (o : Options) : Command m (List String) := do
  match o.room?, o.root? with
  | some path, _ => return [path]
  | none, some root =>
    let found := (← files.below root).filter Path.isRoomFile
    let found := found.map fun path ↦ (Path.components path, path)
    return (found.mergeSort fun a b ↦ Path.notAfter a.1 b.1).map Prod.snd
  | none, none => throw { message := "pass a room file or --root <DIR>" }

/-- Loads a room file, or prints a note why it is passed over. -/
def loadOrSkip (files : Files m) (generation : Generation) (path : String) :
    Command m (Option Room) :=
  tryCatch (some <$> Engine.loadRoom files generation path) fun f ↦ do
    Command.printError s!"[rdt_info] skipping {path}: {f.oneLine}\n"
    return none

/-- Prints the summaries of the rooms among some files. -/
def summarize (files : Files m) (generation : Generation) :
    List String → Command m (List Summary)
  | [] => return []
  | path :: rest => do
    match ← loadOrSkip files generation path with
    | none => summarize files generation rest
    | some room =>
      let summary := Summary.ofRoom path room
      Command.print summary.render
      return summary :: (← summarize files generation rest)

/-- The command with its options. -/
def command (files : Files m) (o : Options) : Command m Unit := do
  let paths ← paths files o
  if paths.isEmpty then throw { message := "no room files to inspect" }
  let summaries ← summarize files o.generation paths
  match o.json? with
  | none => return
  | some path =>
    Command.orFail s!"writing room summaries to {path}"
      (← files.write path (Json.list (summaries.map Summary.toJson)).pretty)
    Command.print s!"Saved section listing to {path}\n"

/-- Runs the command on arguments. -/
def run (files : Files m) (arguments : List String) : m Outcome :=
  match Options.ofArguments? arguments with
  | some o => (command files o).run
  | none => return .usage usage

end Info
end RoomScript
