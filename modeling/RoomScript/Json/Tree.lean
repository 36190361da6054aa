import RoomScript.Json.Lexeme

/-!
# The tree of a JSON text

The lexemes of a text are put together from left to right.  What is kept on the way is the stack of
the lists and records that are still open, and what may come next; a lexeme that may not come next
makes the text no JSON.  Depth is bounded by nothing but the text.
-/

set_option autoImplicit false

namespace RoomScript
namespace Json

/-- A JSON value as it was read. -/
inductive Tree where
  | null
  | bool (value : Bool)
  | number (word? : Option UInt64)
  | string (parts : List StringPart)
  | list (items : List Tree)
  | record (members : List (List StringPart × Tree))

namespace Tree

/-- The members of a record. -/
abbrev Members := List (List StringPart × Tree)

/-- A list or a record that is still open, with what it has so far, the last first.  A record waits
for the value of a member. -/
inductive Frame where
  | list (items : List Tree)
  | record (members : Members) (name : List StringPart)

/-- What may come next. -/
inductive Expected where
  | value
  /-- The first item of a list, or its end. -/
  | firstItem
  /-- The first name of a record, or its end. -/
  | firstName
  /-- The next name of a record that has the given members. -/
  | name (members : Members)
  /-- The colon behind a name. -/
  | colon (members : Members) (name : List StringPart)
  /-- What comes behind a value. -/
  | continuation (value : Tree)

/-- The open lists and records, the innermost first, and what may come next. -/
abbrev State := List Frame × Expected

/-- Takes a lexeme where a value may start. -/
def startValue (stack : List Frame) : Lexeme → Option State
  | .null => some (stack, .continuation null)
  | .bool b => some (stack, .continuation (bool b))
  | .number n => some (stack, .continuation (number n))
  | .string s => some (stack, .continuation (string s))
  | .openList => some (.list [] :: stack, .firstItem)
  | .openRecord => some (stack, .firstName)
  | _ => none

/-- Takes a lexeme. -/
def step : State → Lexeme → Option State
  | (stack, .value), l => startValue stack l
  | (.list _ :: stack, .firstItem), .closeList => some (stack, .continuation (list []))
  | (stack, .firstItem), l => startValue stack l
  | (stack, .firstName), .closeRecord => some (stack, .continuation (record []))
  | (stack, .firstName), .string s => some (stack, .colon [] s)
  | (stack, .name members), .string s => some (stack, .colon members s)
  | (stack, .colon members name), .colon => some (.record members name :: stack, .value)
  | (.list items :: stack, .continuation v), .comma => some (.list (v :: items) :: stack, .value)
  | (.list items :: stack, .continuation v), .closeList =>
    some (stack, .continuation (list (v :: items).reverse))
  | (.record members name :: stack, .continuation v), .comma =>
    some (stack, .name ((name, v) :: members))
  | (.record members name :: stack, .continuation v), .closeRecord =>
    some (stack, .continuation (record ((name, v) :: members).reverse))
  | _, _ => none

/-- The value of a whole text: nothing is open any more. -/
def finish? : State → Option Tree
  | ([], .continuation v) => some v
  | _ => none

/-- The value that a sequence of lexemes writes. -/
def ofLexemes? (lexemes : List Lexeme) : Option Tree := do
  finish? (← lexemes.foldlM step ([], .value))

/-- The value that a text writes. -/
def ofText? (text : List Char) : Option Tree := do
  ofLexemes? (← Lexeme.scan text)

end Tree
end Json
end RoomScript
