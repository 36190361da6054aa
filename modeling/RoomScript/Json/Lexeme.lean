import RoomScript.Numeral

/-!
# The lexemes of JSON

Reading JSON starts with cutting the text into lexemes.  A lexeme keeps what a reader of settings
can use: of a number, its value if it is a plain natural number of 64 bits; of a string, its
characters and the code units that were given by number, which need not make up characters.

The cut fails on any text that is not a sequence of lexemes and blanks.  Every lexeme takes at
least one character (`length_next?_lt`), so it ends.
-/

set_option autoImplicit false

namespace RoomScript
namespace Json

/-- A part of a string. -/
inductive StringPart where
  | char (c : Char)
  /-- A 16 bit code unit that was given by its number. -/
  | unit (code : Nat)
  deriving DecidableEq, Repr

/-- A lexeme. -/
inductive Lexeme where
  | openList
  | closeList
  | openRecord
  | closeRecord
  | comma
  | colon
  | null
  | bool (value : Bool)
  /-- A number, with its value if it is written in digits alone and has no more than 64 bits. -/
  | number (word? : Option UInt64)
  | string (parts : List StringPart)
  deriving DecidableEq, Repr

namespace Lexeme

/-- The four characters that may stand between lexemes. -/
def isBlank (c : Char) : Bool := c = ' ' || c = '\n' || c = '\t' || c = '\r'

/-! ## Strings -/

/-- The value of a hexadecimal digit. -/
def hexDigit? (c : Char) : Option Nat :=
  if '0' ≤ c ∧ c ≤ '9' then some (c.toNat - '0'.toNat)
  else if 'a' ≤ c ∧ c ≤ 'f' then some (c.toNat - 'a'.toNat + 10)
  else if 'A' ≤ c ∧ c ≤ 'F' then some (c.toNat - 'A'.toNat + 10)
  else none

/-- The number written by four hexadecimal digits. -/
def hexCode? (a b c d : Char) : Option Nat := do
  return 4096 * (← hexDigit? a) + 256 * (← hexDigit? b) + 16 * (← hexDigit? c) + (← hexDigit? d)

/-- The character with a short escape. -/
def shortEscape? (c : Char) : Option Char :=
  match c with
  | '"' => some '"'
  | '\\' => some '\\'
  | '/' => some '/'
  | 'b' => some '\x08'
  | 'f' => some '\x0c'
  | 'n' => some '\n'
  | 'r' => some '\r'
  | 't' => some '\t'
  | _ => none

/-- The parts of a string up to its closing quotation mark, and what follows.  A control character
has to be escaped. -/
def stringBody? : List Char → Option (List StringPart × List Char)
  | [] => none
  | '"' :: rest => some ([], rest)
  | '\\' :: 'u' :: a :: b :: c :: d :: rest => do
    let code ← hexCode? a b c d
    let (parts, rest) ← stringBody? rest
    return (.unit code :: parts, rest)
  | '\\' :: e :: rest => do
    let c ← shortEscape? e
    let (parts, rest) ← stringBody? rest
    return (.char c :: parts, rest)
  | c :: rest =>
    if c.toNat < 0x20 then none
    else do
      let (parts, rest) ← stringBody? rest
      return (.char c :: parts, rest)

theorem length_stringBody?_lt {cs rest : List Char} {parts : List StringPart}
    (h : stringBody? cs = some (parts, rest)) : rest.length < cs.length := by
  fun_induction stringBody? cs generalizing parts rest with
  | case1 => cases h
  | case2 r =>
    cases h
    simp
  | case3 a b c d r ih =>
    simp only [Option.bind_eq_bind, Option.bind_eq_some_iff] at h
    obtain ⟨code, -, ⟨p, q⟩, hq, h⟩ := h
    cases h
    have := ih hq
    simp only [List.length_cons]
    omega
  | case4 e r _ ih =>
    simp only [Option.bind_eq_bind, Option.bind_eq_some_iff] at h
    obtain ⟨c, -, ⟨p, q⟩, hq, h⟩ := h
    cases h
    have := ih hq
    simp only [List.length_cons]
    omega
  | case5 => cases h
  | case6 c r _ _ _ _ ih =>
    simp only [Option.bind_eq_bind, Option.bind_eq_some_iff] at h
    obtain ⟨⟨p, q⟩, hq, h⟩ := h
    cases h
    have := ih hq
    simp only [List.length_cons]
    omega

/-! ## Numbers -/

/-- The digits at the head of a text, of which there has to be one, and what follows. -/
def digits? (cs : List Char) : Option (List Char × List Char) :=
  let digits := cs.takeWhile Char.isDigit
  if digits.isEmpty then none else some (digits, cs.dropWhile Char.isDigit)

theorem length_digits?_lt {cs digits rest : List Char} (h : digits? cs = some (digits, rest)) :
    rest.length < cs.length := by
  unfold digits? at h
  dsimp only at h
  split at h
  · cases h
  · next hne =>
    cases h
    have hlen := congrArg List.length
      (List.takeWhile_append_dropWhile (p := Char.isDigit) (l := cs))
    rw [List.length_append] at hlen
    have : 0 < (cs.takeWhile Char.isDigit).length := by
      rw [List.length_pos_iff]
      simpa using hne
    omega

/-- The number of at most 64 bits written by decimal digits. -/
def word? (digits : List Char) : Option UInt64 :=
  (Numeral.below? UInt64.size digits).map UInt64.ofNat

/-- Passes over a fraction, if there is one. -/
def fraction? : List Char → Option (Bool × List Char)
  | '.' :: rest => (digits? rest).map fun p ↦ (true, p.2)
  | cs => some (false, cs)

/-- Passes over a sign, if there is one. -/
def unsigned : List Char → List Char
  | '+' :: rest => rest
  | '-' :: rest => rest
  | cs => cs

/-- Passes over an exponent, if there is one. -/
def exponent? : List Char → Option (Bool × List Char)
  | 'e' :: rest => (digits? (unsigned rest)).map fun p ↦ (true, p.2)
  | 'E' :: rest => (digits? (unsigned rest)).map fun p ↦ (true, p.2)
  | cs => some (false, cs)

/-- A number, without a sign in front, and what follows.  A zero in front stands alone. -/
def magnitude? (cs : List Char) : Option (Option UInt64 × List Char) := do
  let (digits, rest) ← digits? cs
  if digits.head? = some '0' ∧ digits.length ≠ 1 then none
  else
    let (hasFraction, rest) ← fraction? rest
    let (hasExponent, rest) ← exponent? rest
    return (if hasFraction || hasExponent then none else word? digits, rest)

/-- A number and what follows.  A number with a sign has more than digits. -/
def number? : List Char → Option (Option UInt64 × List Char)
  | '-' :: rest => (magnitude? rest).map fun p ↦ (none, p.2)
  | cs => magnitude? cs

theorem length_fraction?_le {cs rest : List Char} {b : Bool} (h : fraction? cs = some (b, rest)) :
    rest.length ≤ cs.length := by
  unfold fraction? at h
  split at h
  · next r =>
    obtain ⟨⟨d, q⟩, hq, h⟩ := Option.map_eq_some_iff.1 h
    cases h
    have := length_digits?_lt hq
    simp only [List.length_cons]
    omega
  · cases h
    exact Nat.le_refl _

theorem length_unsigned_le (cs : List Char) : (unsigned cs).length ≤ cs.length := by
  unfold unsigned
  split <;> simp

theorem length_exponent?_le {cs rest : List Char} {b : Bool} (h : exponent? cs = some (b, rest)) :
    rest.length ≤ cs.length := by
  unfold exponent? at h
  split at h
  · next r =>
    obtain ⟨⟨d, q⟩, hq, h⟩ := Option.map_eq_some_iff.1 h
    cases h
    have := length_digits?_lt hq
    have := length_unsigned_le r
    simp only [List.length_cons]
    omega
  · next r =>
    obtain ⟨⟨d, q⟩, hq, h⟩ := Option.map_eq_some_iff.1 h
    cases h
    have := length_digits?_lt hq
    have := length_unsigned_le r
    simp only [List.length_cons]
    omega
  · cases h
    exact Nat.le_refl _

theorem length_magnitude?_lt {cs rest : List Char} {n : Option UInt64}
    (h : magnitude? cs = some (n, rest)) : rest.length < cs.length := by
  unfold magnitude? at h
  simp only [Option.bind_eq_bind, Option.bind_eq_some_iff] at h
  obtain ⟨⟨d, q⟩, hq, h⟩ := h
  split at h
  · cases h
  · simp only [Option.bind_eq_some_iff] at h
    obtain ⟨⟨b, r⟩, hr, ⟨b', t⟩, ht, h⟩ := h
    cases h
    have := length_digits?_lt hq
    have := length_fraction?_le hr
    have := length_exponent?_le ht
    simp only at *
    omega

theorem length_number?_lt {cs rest : List Char} {n : Option UInt64}
    (h : number? cs = some (n, rest)) : rest.length < cs.length := by
  unfold number? at h
  split at h
  · next r =>
    obtain ⟨⟨m, q⟩, hq, h⟩ := Option.map_eq_some_iff.1 h
    cases h
    have := length_magnitude?_lt hq
    simp only [List.length_cons]
    omega
  · exact length_magnitude?_lt h

/-! ## The cut -/

/-- The lexeme at the head of a text, and what follows. -/
def next? : List Char → Option (Lexeme × List Char)
  | '[' :: rest => some (openList, rest)
  | ']' :: rest => some (closeList, rest)
  | '\x7b' :: rest => some (openRecord, rest)
  | '\x7d' :: rest => some (closeRecord, rest)
  | ',' :: rest => some (comma, rest)
  | ':' :: rest => some (colon, rest)
  | 'n' :: 'u' :: 'l' :: 'l' :: rest => some (null, rest)
  | 't' :: 'r' :: 'u' :: 'e' :: rest => some (bool true, rest)
  | 'f' :: 'a' :: 'l' :: 's' :: 'e' :: rest => some (bool false, rest)
  | '"' :: rest => (stringBody? rest).map fun p ↦ (string p.1, p.2)
  | cs => (number? cs).map fun p ↦ (number p.1, p.2)

theorem length_next?_lt {cs rest : List Char} {l : Lexeme} (h : next? cs = some (l, rest)) :
    rest.length < cs.length := by
  unfold next? at h
  split at h
  case h_10 r =>
    obtain ⟨⟨parts, q⟩, hq, h⟩ := Option.map_eq_some_iff.1 h
    cases h
    have := length_stringBody?_lt hq
    simp only [List.length_cons]
    omega
  case h_11 =>
    obtain ⟨⟨n, q⟩, hq, h⟩ := Option.map_eq_some_iff.1 h
    cases h
    exact length_number?_lt hq
  all_goals
    cases h
    simp only [List.length_cons]
    omega

/-- Cuts a text into its lexemes. -/
def scan (cs : List Char) : Option (List Lexeme) :=
  match cs with
  | [] => some []
  | c :: rest =>
    if isBlank c then scan rest
    else
      match _h : next? (c :: rest) with
      | none => none
      | some (lexeme, rest) => (scan rest).map (lexeme :: ·)
termination_by cs.length
decreasing_by
  · simp
  · exact length_next?_lt _h

end Lexeme

/-! ## The text of a string -/

/-- Whether a code unit is the first half of a pair. -/
def isHighHalf (code : Nat) : Bool := 0xd800 ≤ code && code < 0xdc00

/-- Whether a code unit is the second half of a pair. -/
def isLowHalf (code : Nat) : Bool := 0xdc00 ≤ code && code < 0xe000

/-- The characters of a string, if its code units make up characters: a half of a pair has to be
followed by its other half. -/
def characters? : List StringPart → Option (List Char)
  | [] => some []
  | .char c :: rest => (characters? rest).map (c :: ·)
  | .unit high :: .unit low :: rest =>
    if isHighHalf high then
      if isLowHalf low then
        (characters? rest).map
          (Char.ofNat (0x10000 + 0x400 * (high - 0xd800) + (low - 0xdc00)) :: ·)
      else none
    else if isLowHalf high then none
    else (characters? (.unit low :: rest)).map (Char.ofNat high :: ·)
  | .unit code :: rest =>
    if isHighHalf code || isLowHalf code then none
    else (characters? rest).map (Char.ofNat code :: ·)

end Json
end RoomScript
