import RoomScript.Bytes
import RoomScript.Json
import RoomScript.Json.Tree
import RoomScript.Settings

/-!
# The settings file

Settings are kept in a JSON file, as a record.  A member that is missing has its default, and
members with other names are passed over; a setting that is given twice is an error.  A list is
accepted as well: it has the settings in their order, and what is missing at its end has its
default.

A number is taken only if it is a plain natural number of 64 bits, without sign, fraction or
exponent.
-/

set_option autoImplicit false

namespace RoomScript
namespace Settings

/-- The settings, one by one. -/
inductive Key where
  | maxInstructions
  | evaluateConditions
  | languages
  | showBytes
  deriving DecidableEq, Repr

namespace Key

/-- The settings in their order. -/
def all : List Key := [maxInstructions, evaluateConditions, languages, showBytes]

/-- The name of a setting in the file. -/
def name : Key → String
  | maxInstructions => "max_instructions"
  | evaluateConditions => "evaluate_conditions"
  | languages => "languages"
  | showBytes => "show_bytes"

/-- The setting with a name. -/
def ofName? (s : List Char) : Option Key := all.find? fun key ↦ key.name.toList = s

end Key

/-! ## Writing -/

/-- The settings as a JSON record. -/
def toJson (s : Settings) : Json :=
  .record
    [(Key.maxInstructions.name, .nat s.maxInstructions.toNat),
      (Key.evaluateConditions.name, .bool s.evaluateConditions),
      (Key.languages.name, .nat s.languages.toNat),
      (Key.showBytes.name, .bool s.showBytes)]

/-! ## Reading -/

/-- The 64 bit number that a value is. -/
def word? : Json.Tree → Option UInt64
  | .number n => n
  | _ => none

/-- The truth value that a value is. -/
def truth? : Json.Tree → Option Bool
  | .bool b => some b
  | _ => none

/-- Gives a setting the value that was read for it. -/
def assign? (s : Settings) (key : Key) (value : Json.Tree) : Option Settings :=
  match key with
  | .maxInstructions => (word? value).map fun n ↦ { s with maxInstructions := n }
  | .evaluateConditions => (truth? value).map fun b ↦ { s with evaluateConditions := b }
  | .languages => (word? value).map fun n ↦ { s with languages := n }
  | .showBytes => (truth? value).map fun b ↦ { s with showBytes := b }

/-- Reads the members of a record.  `seen` are the settings that were given before. -/
def readMembers? (seen : List Key) (s : Settings) : Json.Tree.Members → Option Settings
  | [] => some s
  | (name, value) :: rest => do
    match Key.ofName? (← Json.characters? name) with
    | none => readMembers? seen s rest
    | some key =>
      if key ∈ seen then none
      else readMembers? (key :: seen) (← s.assign? key value) rest

/-- Reads the items of a list, for the given settings. -/
def readItems? (s : Settings) : List Key → List Json.Tree → Option Settings
  | _, [] => some s
  | [], _ :: _ => none
  | key :: keys, value :: rest => do readItems? (← s.assign? key value) keys rest

/-- The settings that a value has. -/
def ofTree? : Json.Tree → Option Settings
  | .record members => readMembers? [] {} members
  | .list items => readItems? {} Key.all items
  | _ => none

/-- The settings that a text has. -/
def ofText? (text : List Char) : Option Settings := do
  ofTree? (← Json.Tree.ofText? text)

/-- What can be wrong with the content of a settings file. -/
inductive FileError where
  /-- The file is not UTF-8. -/
  | notText
  /-- The text is not JSON, or not a record of settings. -/
  | notSettings
  deriving DecidableEq, Repr

/-- The settings in the content of a file. -/
def ofFile (content : Bytes) : Except FileError Settings :=
  match String.fromUTF8? (ByteArray.mk content) with
  | none => .error .notText
  | some text =>
    match ofText? text.toList with
    | none => .error .notSettings
    | some s => .ok s

end Settings
end RoomScript
