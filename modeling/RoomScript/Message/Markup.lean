import RoomScript.Bytes
import RoomScript.Numeral

/-!
# Message markup

The bytes of a message are glyph numbers with markup in between.  The later generations end a
message with the byte `0xfe` and use the bytes from `0xf3` on for markup, some of which takes one
argument byte; the first generation has glyphs only, and its messages end where their bytes do.

Reading happens in two steps.  `Token.scan` cuts bytes into tokens — it knows which codes take an
argument, and therefore where an `0xfe` ends the message and where it is an argument — and
`Token.render` gives the text of one token.  `Token.scan_bytes_append` says that cutting undoes
writing, token by token.

A message is often the head of something much longer, so `Token.read` cuts a stretch where it is and
looks at nothing behind the end mark; `Token.read_eq_scan` says that this is all the difference.
-/

set_option autoImplicit false

namespace RoomScript

/-- The characters of the font, by glyph number.  Glyphs without a printable counterpart are
question marks. -/
def glyphs : Array Char := #[
    ' ', '.', '?', '?', '?', '(', ')', '?', '?', '?', '?', '?', '0', '1', '2', '3',
    '4', '5', '6', '7', '8', '9', ':', '?', ',', '"', '!', '?', '?', 'A', 'B', 'C',
    'D', 'E', 'F', 'G', 'H', 'I', 'J', 'K', 'L', 'M', 'N', 'O', 'P', 'Q', 'R', 'S',
    'T', 'U', 'V', 'W', 'X', 'Y', 'Z', '[', '/', ']', Char.ofNat 39, '-', '_', 'a', 'b', 'c',
    'd', 'e', 'f', 'g', 'h', 'i', 'j', 'k', 'l', 'm', 'n', 'o', 'p', 'q', 'r', 's',
    't', 'u', 'v', 'w', 'x', 'y', 'z', '?', '?', '?', '?', '?', '?', '?', '?', 'à',
    '?', 'â', '?', 'è', '?', 'é', '?', 'ê', '?', 'ï', '?', '?', '?', '?', '?', 'ù',
    '?', 'û', 'ç', 'ç', 'S', 'T', 'A', 'R', '"', '.', '?', '?', '?', '?', '?', '?',
    '?', '?', '?', '?', '?', '?', '?', '?', '°', '?', '?', '?', '?', '?', '?', '?']

/-- The names of the text colors. -/
def colorNames : List String := ["white", "green", "red", "grey", "blue", "black"]

/-- The byte after which a message of the later generations is over. -/
def messageEnd : UInt8 := 0xfe

/-- The markup that takes an argument byte. -/
inductive Markup where
  | item
  | color
  | paragraph
  | pause
  deriving DecidableEq, Repr

namespace Markup

/-- The byte that announces the markup. -/
def code : Markup → UInt8
  | item => 0xf8
  | color => 0xf9
  | paragraph => 0xfa
  | pause => 0xfd

/-- The markup that a byte announces. -/
def ofByte? (b : UInt8) : Option Markup :=
  if b = item.code then some item
  else if b = color.code then some color
  else if b = paragraph.code then some paragraph
  else if b = pause.code then some pause
  else none

theorem ofByte?_code (m : Markup) : ofByte? m.code = some m := by cases m <;> decide

theorem code_ne_messageEnd (m : Markup) : m.code ≠ messageEnd := by cases m <;> decide

end Markup

/-- A unit of a message. -/
inductive Token where
  /-- A byte that stands for itself. -/
  | plain (byte : UInt8)
  /-- Markup with its argument, which is missing when the message ends first. -/
  | marked (markup : Markup) (argument : Option UInt8)
  deriving DecidableEq, Repr

namespace Token

/-- Cuts a message into tokens, up to its end mark. -/
def scan : List UInt8 → List Token
  | [] => []
  | b :: rest =>
    if b = messageEnd then []
    else
      match Markup.ofByte? b with
      | none => .plain b :: scan rest
      | some m =>
        match rest with
        | [] => [.marked m none]
        | argument :: rest => .marked m (some argument) :: scan rest

/-- The bytes of a token. -/
def bytes : Token → List UInt8
  | plain b => [b]
  | marked m argument => m.code :: argument.toList

/-- A token that can stand inside a message: a plain byte neither ends the message nor announces
markup, and markup has its argument. -/
def Inner : Token → Prop
  | plain b => b ≠ messageEnd ∧ Markup.ofByte? b = none
  | marked _ argument => argument.isSome

/-- The text of a token. -/
def render : Token → String
  | plain b =>
    if b = 0x74 then "S."
    else if b = 0x75 then "T."
    else if b = 0x76 then "A."
    else if b = 0x77 then "R."
    else if b = 0xfb then "[Yes/No]"
    else if b = 0xfc then "<br>"
    else
      match glyphs[b.toNat]? with
      | some c => String.singleton c
      | none => s!"[{Numeral.byte b}]"
  | marked .item argument => s!"<item id=\"{argument.getD 0}\">"
  | marked .color argument =>
    let value := argument.getD 0
    s!"<text color=\"{colorNames[value.toNat]?.getD (Numeral.byte value)}\">"
  | marked .paragraph (some 0) => "<p>"
  | marked .paragraph (some 1) => "</p>"
  | marked .paragraph argument => s!"[0xfa][{Numeral.byte (argument.getD 0)}]"
  | marked .pause _ => "[Pause]"

/-- Cutting undoes writing. -/
theorem scan_bytes_append {t : Token} (h : t.Inner) (rest : List UInt8) :
    scan (t.bytes ++ rest) = t :: scan rest := by
  match t, h with
  | plain b, ⟨hend, hplain⟩ => simp [bytes, scan, hend, hplain]
  | marked m (some argument), _ =>
    simp [bytes, scan, Markup.ofByte?_code, Markup.code_ne_messageEnd]

/-- A message is over at its end mark. -/
theorem scan_messageEnd (rest : List UInt8) : scan (messageEnd :: rest) = [] := by simp [scan]

/-- Cuts a message into tokens where it is. -/
def read (message : Stretch) : List Token :=
  match _h : message[0]? with
  | none => []
  | some b =>
    if b = messageEnd then []
    else
      match Markup.ofByte? b with
      | none => .plain b :: read (message.drop 1)
      | some m =>
        match message[1]? with
        | none => [.marked m none]
        | some argument => .marked m (some argument) :: read (message.drop 2)
termination_by message.size
decreasing_by
  all_goals
    have := (getElem?_eq_some_iff.1 _h).1
    rw [Subarray.size_drop]
    omega

/-- Cutting a message where it is and cutting its bytes are the same. -/
theorem read_eq_scan (message : Stretch) : read message = scan message.toList := by
  rw [← List.drop_zero (l := message.toList)]
  fun_induction read message with
  | case1 message h => rw [Stretch.drop_eq_nil h, scan]
  | case2 message h => rw [Stretch.drop_eq_cons h, scan, if_pos rfl]
  | case3 message b h hend hplain ih =>
    rw [Stretch.drop_eq_cons h, scan, if_neg hend, hplain, ih, Subarray.toList_drop,
      List.drop_zero, Nat.zero_add]
  | case4 message b h hend m hm hnone =>
    rw [Stretch.drop_eq_cons h, Nat.zero_add, Stretch.drop_eq_nil hnone, scan, if_neg hend, hm]
  | case5 message b h hend m hm argument hsome ih =>
    rw [Stretch.drop_eq_cons h, Nat.zero_add, Stretch.drop_eq_cons hsome, scan, if_neg hend, hm, ih,
      Subarray.toList_drop, List.drop_zero]

end Token

/-- The text of a message of the later generations. -/
def decodeMarked (message : Stretch) : String :=
  String.join ((Token.read message).map Token.render)

/-- The text of one byte in the first generation, whose font stops before the accented glyphs. -/
def renderGlyph (b : UInt8) : String :=
  if b = 0x5f then "?"
  else if b < 0x60 then
    match glyphs[b.toNat]? with
    | some c => String.singleton c
    | none => "?"
  else s!"[{Numeral.byte b}]"

/-- The text of a message of the first generation. -/
def decodePlain (message : Stretch) : String :=
  String.join ((Stretch.bytes message).toList.map renderGlyph)

end RoomScript
