/-!
# Numerals in reports

Every number in a report is decimal, or hexadecimal with lower-case digits padded with zeros to a
least width, as in `0x0000001a`.  A number wider than its width is written in full.  Columns of a
table are padded with blanks.

Numbers that are read are decimal, and have a bound that comes from where they go (`below?`).
-/

set_option autoImplicit false

namespace RoomScript

namespace Numeral

/-- The characters of `s`, with `pad` in front up to `width` of them. -/
def padLeft (pad : Char) (width : Nat) (s : String) : String :=
  String.ofList (List.leftpad width pad s.toList)

/-- The characters of `s`, followed by `pad` up to `width` of them. -/
def padRight (pad : Char) (width : Nat) (s : String) : String :=
  String.ofList (List.rightpad width pad s.toList)

/-- `n` in lower-case hexadecimal, of at least `width` digits. -/
def hex (width n : Nat) : String :=
  String.ofList (List.leftpad width '0' (Nat.toDigits 16 n))

/-- An offset: eight hexadecimal digits after `0x`. -/
def offset (n : Nat) : String := "0x" ++ hex 8 n

/-- A half word: four hexadecimal digits after `0x`. -/
def word (n : Nat) : String := "0x" ++ hex 4 n

/-- A byte: two hexadecimal digits after `0x`. -/
def byte (n : UInt8) : String := "0x" ++ hex 2 n.toNat

/-- The number that decimal digits write, if it is below `bound`.  Reading stops at the digit that
reaches the bound: more digits make no number smaller. -/
def below? (bound : Nat) (digits : List Char) : Option Nat :=
  digits.foldlM
    (fun n c ↦
      let n := 10 * n + (c.toNat - '0'.toNat)
      if n < bound then some n else none)
    0

end Numeral

/-- Two lower-case hexadecimal digits, without a mark in front. -/
def hex2 (n : UInt8) : String := Numeral.hex 2 n.toNat

end RoomScript
