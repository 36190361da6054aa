import RoomScript.Settings
import RoomScript.Walk

/-!
# Listing scripts

A listing has a line for every instruction of a walk, indented by the depth of the instruction, and
below it a line for each comment.  Listing a script visits every instruction, whatever the flags
are: the observer never gives a body up and never passes over one.
-/

set_option autoImplicit false

namespace RoomScript

/-- A line of a listing. -/
structure Line where
  offset : Nat
  indent : Nat
  text : String
  deriving DecidableEq, Repr

/-- The line as it is printed. -/
def Line.render (l : Line) : String :=
  s!"{Numeral.offset l.offset}: " ++ String.ofList (List.replicate (2 * l.indent) ' ')
    ++ l.text ++ "\n"

/-- A listing, with the account of the walks that wrote it. -/
structure Listing where
  lines : Array Line := #[]
  report : Report := {}
  deriving DecidableEq, Repr

namespace Listing

/-- The listing as it is printed. -/
def render (l : Listing) : String := String.join (l.lines.toList.map Line.render)

/-- Two listings, one below the other. -/
def append : Listing → Listing → Listing
  | ⟨lines, report⟩, ⟨lines', report'⟩ => ⟨lines ++ lines', report ++ report'⟩

instance : Append Listing := ⟨append⟩

/-- A single line. -/
def line (offset : Nat) (text : String) : Listing := { lines := #[⟨offset, 0, text⟩] }

end Listing

/-- The state of the observer that lists a script. -/
structure Transcript where
  lines : Array Line := #[]
  /-- The problems that came up while instructions were described. -/
  problems : Array Problem := #[]

/-- How a script is listed. -/
structure ListingStyle where
  context : ListingContext := {}
  showBytes : Bool := false
  /-- The indentation of the outermost level. -/
  indent : Nat := 0

namespace Transcript

/-- Writes an instruction at the end. -/
def add (style : ListingStyle) (lang : Language) (i : Instruction) (depth : Nat)
    (t : Transcript) : Transcript :=
  let description := lang.describe i style.context
  let indent := style.indent + depth
  let text := if style.showBytes then s!"[{i.hex}] {description.text}" else description.text
  let comments := description.comments.map fun comment ↦
    ({ offset := i.offset, indent, text := s!"# {comment}" } : Line)
  { lines := t.lines.push { offset := i.offset, indent, text } ++ comments
    problems := t.problems ++ description.problem?.toList }

/-- The observer that lists a script. -/
def observer (style : ListingStyle) : Observer Transcript where
  visit lang i depth t := (true, t.add style lang i depth)
  enter _ _ _ t := (true, t)
  leave _ _ _ _ t := t

end Transcript

/-- Lists a script that starts at offset `origin`.  The account is of the walk alone; the problems
of the descriptions are in the transcript. -/
def ListingStyle.transcribe (style : ListingStyle) (limit : Nat) (lang : Language) (origin : Nat)
    (code : Stretch) : Transcript × Report :=
  (Transcript.observer style).walk limit lang origin code {}

/-- Lists a function of the room file `file`.  Problems of the descriptions come behind those of
the walk. -/
def ScriptFunction.list (f : ScriptFunction) (settings : Settings) (lang : Language)
    (messages : MessageSource) (file : Bytes) (indent : Nat) : Listing :=
  let style : ListingStyle :=
    { context := { entries := f.entries, messages, languages := settings.languages.toNat }
      showBytes := settings.showBytes
      indent }
  let (transcript, report) :=
    style.transcribe settings.maxInstructions.toNat lang f.entryOffset.toNat (f.code file)
  { lines := transcript.lines
    report := report ++ { problems := transcript.problems } }

end RoomScript
