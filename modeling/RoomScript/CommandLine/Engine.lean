import RoomScript.CommandLine.Command
import RoomScript.Generation
import RoomScript.Json.Reports
import RoomScript.Settings.File

/-!
# The engine command

Lists and runs the scripts of one room file.  Options go over the settings of the settings file,
and a settings file that is not there leaves the defaults in place.  Listings and the state after
the run are printed, problems go to the second channel, and all of it can be saved as one JSON
report.
-/

set_option autoImplicit false

namespace RoomScript
namespace Engine

/-! ## Arguments -/

/-- What the command is asked to do. -/
structure Options where
  room : String
  generation : Generation
  dump : Bool
  execute : Bool
  kind? : Option ScriptKind
  json? : Option String
  config? : Option String
  showBytes : Bool
  evaluateConditions : Bool
  stage : UInt8
  maxInstructions? : Option UInt64
  deriving DecidableEq, Repr

/-- The options of the command, and which of them take a value. -/
def known : Arguments.Known :=
  [("--game", true), ("--dump", false), ("--execute", false), ("--section", true),
    ("--json", true), ("--config", true), ("--bytes", false), ("--evaluate-conditions", false),
    ("--stage", true), ("--max-instructions", true)]

/-- How to use the command. -/
def usage : String :=
  "usage: rdt_engine --game <re1|re2|re3> [--dump] [--execute] [--section <init|run|events>] "
    ++ "[--json <PATH>] [--config <PATH>] [--bytes] [--evaluate-conditions] [--stage <STAGE>] "
    ++ "[--max-instructions <COUNT>] <FILE>"

/-- Reads the arguments of the command. -/
def Options.ofArguments? (arguments : List String) : Option Options := do
  let a ← Arguments.parse? known arguments
  let [file] := a.operands | none
  let room ← Value.path? file
  let generation ← (← a.value? "--game" Generation.ofName?)
  let kind? ← a.value? "--section" ScriptKind.ofName?
  let json? ← a.value? "--json" Value.path?
  let config? ← a.value? "--config" Value.path?
  let stage? ← a.value? "--stage" Value.byte?
  let maxInstructions? ← a.value? "--max-instructions" Value.word?
  return {
    room
    generation
    dump := a.has "--dump"
    execute := a.has "--execute"
    kind?
    json?
    config?
    showBytes := a.has "--bytes"
    evaluateConditions := a.has "--evaluate-conditions"
    stage := stage?.getD 0
    maxInstructions? }

/-- What is wrong with the options taken together, if anything is. -/
def Options.invalid? (o : Options) : Option String :=
  if !o.dump && !o.execute then some "nothing to do: pass --dump and/or --execute"
  else if o.kind? = some .events ∧ o.generation ≠ .re1 then
    some "--section events is only available for re1 rooms"
  else if o.maxInstructions? = some 0 then some "--max-instructions must be at least 1"
  else none

/-- The script sections to go through. -/
def Options.kinds (o : Options) : List ScriptKind :=
  match o.kind? with
  | some kind => [kind]
  | none => [.init, .run]

/-- Puts the options over settings. -/
def Options.over (o : Options) (s : Settings) : Settings :=
  { s with
    showBytes := s.showBytes || o.showBytes
    evaluateConditions := s.evaluateConditions || o.evaluateConditions
    maxInstructions := o.maxInstructions?.getD s.maxInstructions }

/-! ## Texts -/

/-- The state after a run as it is printed. -/
def summary (s : RoomState) (report : Report) : String :=
  let counts :=
    s!"Executed {report.instructions} instruction(s): {s.doors.size} door(s), "
      ++ s!"{s.items.size} item(s), camera {s.camera}"
  let doors := s.doors.toList.map fun d ↦
    s!"  door #{hex2 d.id} -> stage {d.nextStage} room {Numeral.byte d.nextRoom} "
      ++ s!"camera {d.nextCamera} at ({d.nextPos.x}, {d.nextPos.y}, {d.nextPos.z})"
  let items := s.items.toList.map fun t ↦
    s!"  item #{hex2 t.id} type {Numeral.word t.kind.toNat} x{t.amount} at ({t.x}, {t.y})"
  let operations :=
    if s.flagOps.isEmpty && s.varOps.isEmpty then []
    else
      [s!"  {s.flagOps.size} flag op(s), {s.varOps.size} variable op(s), "
        ++ s!"{s.messages.size} message(s)"]
  String.join (((counts :: doors) ++ items ++ operations).map (· ++ "\n"))

/-- The problems of a report as they are printed. -/
def problemLines (report : Report) : String :=
  String.join (report.problems.toList.map fun p ↦ s!"[rdt_engine] {p.message}\n")

/-- A listing in the JSON report. -/
def listingToJson (kind : ScriptKind) (listing : Listing) : Json :=
  .record
    [("section", .string kind.name), ("lines", listing.linesToJson),
      ("report", listing.report.toJson)]

/-- The JSON report: the listings unless there are none, and the state and the account of the run
if there was one. -/
def manifest (o : Options) (listings : List (ScriptKind × Listing)) (run? : Option Execution) :
    Json :=
  let listed :=
    if listings.isEmpty then []
    else [("disassembly", Json.list (listings.map fun (kind, l) ↦ listingToJson kind l))]
  let executed :=
    match run? with
    | some run => [("state", run.room.toJson), ("execution", run.report.toJson)]
    | none => []
  .record
    ([("room", .string o.room), ("game", .string o.generation.name)] ++ listed ++ executed)

/-! ## The command -/

variable {m : Type → Type} [Monad m]

/-- Fails with the wording of a check that went wrong. -/
def failIf (wrong? : Option String) : Command m Unit :=
  match wrong? with
  | some message => throw { message }
  | none => return

/-- Loads the settings file. -/
def loadSettings (files : Files m) (path? : Option String) : Command m Settings := do
  let some path := path? | return {}
  if ← files.present path then
    let unreadable := s!"failed to read engine config: {path}"
    match ← files.read path with
    | .error e => throw (.within ⟨unreadable, [e.message]⟩ loading)
    | .ok content =>
      match Settings.ofFile content with
      | .ok s => return s
      | .error .notText =>
        throw (.within ⟨unreadable, ["stream did not contain valid UTF-8"]⟩ loading)
      | .error .notSettings =>
        throw
          (.within ⟨s!"failed to parse engine config json: {path}", ["not a record of settings"]⟩
            loading)
  else return {}
where
  /-- What a failure interrupts. -/
  loading : String := "loading engine configuration"

/-- Loads a room file. -/
def loadRoom (files : Files m) (generation : Generation) (path : String) : Command m Room := do
  let content ← Command.orFail s!"reading room file {path}" (← files.read path)
  match Room.ofBytes generation content with
  | .ok room => return room
  | .error e => throw ⟨s!"parsing {generation.name} room {path}", [e.message]⟩

/-- Fails where a generation has no section for a kind of scripts. -/
def orNoSection {α : Type} : Except NoScriptSection α → Command m α
  | .ok x => return x
  | .error e => throw { message := e.message }

/-- Lists the script sections asked for, and prints the listings. -/
def dump (room : Room) (settings : Settings) :
    List ScriptKind → Command m (List (ScriptKind × Listing))
  | [] => return []
  | kind :: rest => do
    let listing ← orNoSection (room.listSection settings kind)
    Command.print (s!"; {kind.title} script\n" ++ listing.render)
    Command.printError (problemLines listing.report)
    return (kind, listing) :: (← dump room settings rest)

/-- Runs the script sections asked for, one after the other. -/
def execute (room : Room) (settings : Settings) :
    List ScriptKind → Execution → Command m Execution
  | [], run => return run
  | kind :: rest, run => do
    execute room settings rest (← orNoSection (run.scriptSection settings room kind))

/-- The command with its options. -/
def command (files : Files m) (o : Options) : Command m Unit := do
  failIf o.invalid?
  let settings := o.over (← loadSettings files o.config?)
  failIf settings.invalid?
  let room ← loadRoom files o.generation o.room
  let listings ← if o.dump then dump room settings o.kinds else pure []
  let run? ←
    if o.execute then do
      let run ← execute room settings o.kinds { room := .new o.stage 0 }
      Command.print (summary run.room run.report)
      Command.printError (problemLines run.report)
      pure (some run)
    else pure none
  match o.json? with
  | none => return
  | some path =>
    Command.orFail s!"writing script report to {path}"
      (← files.write path (manifest o listings run?).pretty)
    Command.print s!"Saved script report to {path}\n"

/-- Runs the command on arguments. -/
def run (files : Files m) (arguments : List String) : m Outcome :=
  match Options.ofArguments? arguments with
  | some o => (command files o).run
  | none => return .usage usage

end Engine
end RoomScript
