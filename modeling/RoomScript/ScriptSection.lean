import RoomScript.Execution
import RoomScript.Listing

/-!
# The script sections of a room

A room has up to three script sections.  Where a section is, how its functions are found and in
which language they are written follows from the generation (`Generation.scriptSection`); listing
and running a section go through its functions in the order of the table.
-/

set_option autoImplicit false

namespace RoomScript

/-- The kinds of scripts. -/
inductive ScriptKind where
  /-- Runs once, when the room is loaded. -/
  | init
  /-- Runs while the room is active. -/
  | run
  /-- The events of the first generation. -/
  | events
  deriving DecidableEq, Repr

namespace ScriptKind

/-- The name of the kind in requests and reports. -/
def name : ScriptKind → String
  | init => "init"
  | run => "run"
  | events => "events"

/-- The kind called `s`. -/
def ofName? : String → Option ScriptKind
  | "init" => some init
  | "run" => some run
  | "events" => some events
  | _ => none

/-- The name of the kind at the head of a printed listing. -/
def title : ScriptKind → String
  | init => "Init"
  | run => "Run"
  | events => "Events"

/-- The section that has the scripts. -/
def sectionKind : ScriptKind → SectionKind
  | init => .initScript
  | run => .roomScript
  | events => .events

end ScriptKind

/-- Where scripts are and how they are written. -/
structure ScriptSection where
  index : Nat
  table : EntryTable
  language : Language
  deriving DecidableEq, Repr

/-- A generation has no section for a kind of scripts. -/
structure NoScriptSection where
  generation : Generation
  kind : ScriptKind
  deriving DecidableEq, Repr

/-- The wording for a section that does not exist. -/
def NoScriptSection.message (e : NoScriptSection) : String :=
  s!"{e.generation.name} rooms have no {e.kind.sectionKind.label} section"

/-- How the functions of a kind of scripts are found, and their language. -/
def Generation.scriptLayout : Generation → ScriptKind → EntryTable × Language
  | re1, .events => (.words, .re1Event)
  | re1, _ => (.lengthPrefixed, re1.language)
  | g, _ => (.halfWords, g.language)

/-- The section with a kind of scripts. -/
def Generation.scriptSection (g : Generation) (kind : ScriptKind) :
    Except NoScriptSection ScriptSection :=
  match g.sectionIndex? kind.sectionKind with
  | some index => .ok ⟨index, (g.scriptLayout kind).1, (g.scriptLayout kind).2⟩
  | none => .error ⟨g, kind⟩

/-- The lines around a function in a listing. -/
def EntryTable.frame : EntryTable → String × String
  | lengthPrefixed => ("BEGIN_FUNC func", "END_FUNC")
  | halfWords | words => ("BEGIN_EVENT event", "END_EVENT")

namespace Room

/-- The functions of a script section. -/
def scriptFunctions (r : Room) (kind : ScriptKind) :
    Except NoScriptSection (List ScriptFunction) :=
  (r.generation.scriptSection kind).map fun s ↦ r.functions s.index s.table

/-- Lists a function of a script section of the file `file`, framed by a line before and a line
behind it. -/
def listFunction (settings : Settings) (s : ScriptSection) (messages : MessageSource)
    (file : Bytes) (f : ScriptFunction) : Listing :=
  let entry := f.entryOffset.toNat
  let (opening, closing) := s.table.frame
  .line entry (opening ++ Numeral.hex 2 f.index)
    ++ f.list settings s.language messages file 1
    ++ .line (entry + f.byteLength.toNat) closing

/-- Lists a script section. -/
def listSection (r : Room) (settings : Settings) (kind : ScriptKind) :
    Except NoScriptSection Listing :=
  (r.generation.scriptSection kind).map fun s ↦
    let messages := r.messages
    (r.functions s.index s.table).foldl
      (fun listing f ↦ listing ++ listFunction settings s messages r.bytes f) {}

end Room

namespace Execution

/-- Runs a script section of a room. -/
def scriptSection (e : Execution) (settings : Settings) (r : Room) (kind : ScriptKind) :
    Except NoScriptSection Execution :=
  (r.generation.scriptSection kind).map fun s ↦
    (r.functions s.index s.table).foldl (fun e f ↦ e.function settings s.language r.bytes f) e

/-- Loads a room: runs the init script, then the run script. -/
def load (e : Execution) (settings : Settings) (r : Room) : Except NoScriptSection Execution :=
  (e.scriptSection settings r .init).bind fun e ↦ e.scriptSection settings r .run

end Execution
end RoomScript
