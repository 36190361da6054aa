import Mathlib.Data.List.Chain
import RoomScript.Json.Tree

/-!
# The texts of a JSON value

A value can be written in many ways.  Numbers may have a sign, a fraction and an exponent; the
characters of a string may be written plainly, with a short escape or by number; and there may be
blanks wherever there is a place between two lexemes.  Every one of these texts is read, and as the
value that it writes.  Whatever prints a value is therefore free to print it as it likes.

## What is here

* `StringPart.WrittenAs`, `PartsWrittenAs`, `NumberText`, `Lexeme.WrittenAs` — the forms of a lexeme
  and of what it is made of.  These relations are written down from the grammar and do not mention
  the reader, which would be right by definition otherwise.
* `Laid` — a sequence of lexemes, each in one of its forms, with blanks around them.
* `Lexeme.next?_append` — a lexeme is cut off in any of its forms, if what is behind it does not go
  on with it (`Lexeme.Ends`).
* `Lexeme.scan_of_laid` — cutting a text gives back the lexemes that are laid in it.
* `Tree.lexemes` — the lexemes of a value, and `Tree.apart_lexemes`: two numbers are never next to
  each other among them.
* `Tree.foldlM_step_lexemes` — the lexemes of a value are put together to the value.
* `Tree.ofText?_of_laid` — the two halves joined.

Only numbers have no mark at their end, and this is why neighbours matter at all: `1` and `2`
without a blank would be cut as `12`.

The reader keeps what is still open on a stack, and is one function for all places in a value.  So
`Tree.foldlM_step_lexemes` is about any stack, and goes by induction on the value; a list and a
record are put together alike, piece by piece (`Tree.foldlM_step_pieces`).
-/

set_option autoImplicit false

namespace RoomScript
namespace Json

/-! ## Strings -/

/-- The short escapes: the letter, and the character that it stands for. -/
def shortEscapes : List (Char × Char) :=
  [('"', '"'), ('\\', '\\'), ('/', '/'), ('b', '\x08'), ('f', '\x0c'), ('n', '\n'), ('r', '\r'),
    ('t', '\t')]

/-- Whether a character is the hexadecimal digit of a value, a large or a small one. -/
def IsHexDigit (c : Char) (value : Nat) : Prop :=
  "0123456789abcdef".toList[value]? = some c ∨ "0123456789ABCDEF".toList[value]? = some c

/-- The forms of a part of a string. -/
inductive StringPart.WrittenAs : StringPart → List Char → Prop
  | plain {c : Char} (hcontrol : 0x20 ≤ c.toNat) (hquote : c ≠ '"') (hbackslash : c ≠ '\\') :
      WrittenAs (.char c) [c]
  | short {e c : Char} (h : (e, c) ∈ shortEscapes) : WrittenAs (.char c) ['\\', e]
  | numbered {a b c d : Char} {i j k l : Nat} (ha : IsHexDigit a i) (hb : IsHexDigit b j)
      (hc : IsHexDigit c k) (hd : IsHexDigit d l) :
      WrittenAs (.unit (4096 * i + 256 * j + 16 * k + l)) ['\\', 'u', a, b, c, d]

/-- The forms of a string, between its quotation marks. -/
inductive PartsWrittenAs : List StringPart → List Char → Prop
  | nil : PartsWrittenAs [] []
  | cons {part : StringPart} {parts : List StringPart} {text rest : List Char}
      (h : part.WrittenAs text) (hrest : PartsWrittenAs parts rest) :
      PartsWrittenAs (part :: parts) (text ++ rest)

/-- The characters of a string whose code units make up characters. -/
inductive Unescapes : List StringPart → List Char → Prop
  | nil : Unescapes [] []
  | char {c : Char} {parts : List StringPart} {cs : List Char} (h : Unescapes parts cs) :
      Unescapes (.char c :: parts) (c :: cs)
  /-- A code unit that is no half of a pair. -/
  | unit {code : Nat} {parts : List StringPart} {cs : List Char}
      (hcode : code < 0xd800 ∨ 0xe000 ≤ code) (h : Unescapes parts cs) :
      Unescapes (.unit code :: parts) (Char.ofNat code :: cs)
  | pair {high low : Nat} {parts : List StringPart} {cs : List Char}
      (hhigh : 0xd800 ≤ high ∧ high < 0xdc00) (hlow : 0xdc00 ≤ low ∧ low < 0xe000)
      (h : Unescapes parts cs) :
      Unescapes (.unit high :: .unit low :: parts)
        (Char.ofNat (0x10000 + 0x400 * (high - 0xd800) + (low - 0xdc00)) :: cs)

theorem characters?_of_unescapes {parts : List StringPart} {cs : List Char}
    (h : Unescapes parts cs) : characters? parts = some cs := by
  induction h with
  | nil => rfl
  | char _ ih => rw [characters?, ih, Option.map_some]
  | @unit code parts cs hcode _ ih =>
    have hhigh : isHighHalf code = false := by
      simp only [isHighHalf, Bool.and_eq_false_iff, decide_eq_false_iff_not]
      omega
    have hlow : isLowHalf code = false := by
      simp only [isLowHalf, Bool.and_eq_false_iff, decide_eq_false_iff_not]
      omega
    rw [characters?.eq_def]
    split <;> simp_all
  | @pair high low parts cs hhigh hlow _ ih =>
    have hhigh : isHighHalf high = true := by simpa [isHighHalf] using hhigh
    have hlow : isLowHalf low = true := by simpa [isLowHalf] using hlow
    rw [characters?, if_pos hhigh, if_pos hlow, ih, Option.map_some]

namespace Lexeme

theorem hexDigit?_of_isHexDigit {c : Char} {value : Nat} (h : IsHexDigit c value) :
    hexDigit? c = some value := by
  have hall : ∀ digits ∈ ["0123456789abcdef".toList, "0123456789ABCDEF".toList],
      ∀ i < 16, (digits[i]?).map hexDigit? = some (some i) := by decide
  have hfound (digits : List Char) (hlength : digits.length = 16)
      (hmem : digits ∈ ["0123456789abcdef".toList, "0123456789ABCDEF".toList])
      (hc : digits[value]? = some c) : hexDigit? c = some value := by
    obtain ⟨hlt, -⟩ := List.getElem?_eq_some_iff.1 hc
    have hvalue := hall digits hmem value (hlength ▸ hlt)
    rw [hc] at hvalue
    exact Option.some.inj hvalue
  rcases h with h | h
  · exact hfound _ rfl (by simp) h
  · exact hfound _ rfl (by simp) h

theorem shortEscape?_of_mem {e c : Char} (h : (e, c) ∈ shortEscapes) :
    shortEscape? e = some c ∧ e ≠ 'u' := by
  have hall : ∀ p ∈ shortEscapes, shortEscape? p.1 = some p.2 ∧ p.1 ≠ 'u' := by decide
  exact hall _ h

/-- A part of a string is read off, and reading goes on behind it. -/
theorem stringBody?_of_writtenAs {part : StringPart} {text : List Char}
    (h : part.WrittenAs text) (rest : List Char) :
    stringBody? (text ++ rest) = (stringBody? rest).map fun p ↦ (part :: p.1, p.2) := by
  cases h with
  | @plain c hcontrol hquote hbackslash =>
    rw [List.singleton_append, stringBody?, if_neg (by omega)]
    · cases stringBody? rest <;> rfl
    · exact hquote
    · exact fun _ _ _ _ _ h ↦ absurd h hbackslash
    · exact fun _ _ h ↦ absurd h hbackslash
  | @short e c h =>
    obtain ⟨hescape, hne⟩ := shortEscape?_of_mem h
    rw [List.cons_append, List.singleton_append, stringBody?, hescape]
    · cases stringBody? rest <;> rfl
    · exact fun _ _ _ _ _ h ↦ absurd h hne
  | @numbered a b c d i j k l ha hb hc hd =>
    have hcode : hexCode? a b c d = some (4096 * i + 256 * j + 16 * k + l) := by
      rw [hexCode?, hexDigit?_of_isHexDigit ha, hexDigit?_of_isHexDigit hb,
        hexDigit?_of_isHexDigit hc, hexDigit?_of_isHexDigit hd]
      rfl
    show stringBody? ('\\' :: 'u' :: a :: b :: c :: d :: rest) = _
    rw [stringBody?, hcode]
    cases stringBody? rest <;> rfl

theorem stringBody?_of_partsWrittenAs {parts : List StringPart} {text : List Char}
    (h : PartsWrittenAs parts text) (rest : List Char) :
    stringBody? (text ++ '"' :: rest) = some (parts, rest) := by
  induction h with
  | nil => rfl
  | @cons part parts text behind h _ ih =>
    rw [List.append_assoc, stringBody?_of_writtenAs h, ih, Option.map_some]

end Lexeme

/-! ## Numbers -/

/-- Decimal digits, one of them at least. -/
structure Digits where
  chars : List Char
  ne_nil : chars ≠ []
  isDigit : ∀ c ∈ chars, c.isDigit = true

/-- The exponent of a number. -/
structure Exponent where
  mark : Char
  mark_eq : mark = 'e' ∨ mark = 'E'
  sign : List Char
  sign_eq : sign = [] ∨ sign = ['+'] ∨ sign = ['-']
  digits : Digits

/-- A number as it is written. -/
structure NumberText where
  negative : Bool := false
  whole : Digits
  /-- A zero in front stands alone. -/
  leadingZero : whole.chars.head? = some '0' → whole.chars.length = 1
  fraction? : Option Digits := none
  exponent? : Option Exponent := none

/-- The exponent as it is written. -/
def Exponent.text (e : Exponent) : List Char := e.mark :: (e.sign ++ e.digits.chars)

namespace NumberText

/-- The number as it is written. -/
def text (n : NumberText) : List Char :=
  (if n.negative then ['-'] else []) ++ n.whole.chars
    ++ n.fraction?.elim [] ('.' :: ·.chars) ++ n.exponent?.elim [] Exponent.text

/-- The plain number of 64 bits that is written, if it is one. -/
def word? (n : NumberText) : Option UInt64 :=
  let value := Nat.ofDigitChars 10 n.whole.chars 0
  if n.negative ∨ n.fraction?.isSome ∨ n.exponent?.isSome then none
  else if value < UInt64.size then some (UInt64.ofNat value) else none

end NumberText

/-! ## Lexemes -/

/-- The forms of a lexeme. -/
inductive Lexeme.WrittenAs : Lexeme → List Char → Prop
  | openList : WrittenAs .openList ['[']
  | closeList : WrittenAs .closeList [']']
  | openRecord : WrittenAs .openRecord ['\x7b']
  | closeRecord : WrittenAs .closeRecord ['\x7d']
  | comma : WrittenAs .comma [',']
  | colon : WrittenAs .colon [':']
  | null : WrittenAs .null "null".toList
  | bool (value : Bool) : WrittenAs (.bool value) (toString value).toList
  | number (n : NumberText) : WrittenAs (.number n.word?) n.text
  | string {parts : List StringPart} {text : List Char} (h : PartsWrittenAs parts text) :
      WrittenAs (.string parts) ('"' :: text ++ ['"'])

/-- The texts of a sequence of lexemes: the lexemes in their order, with any blanks in front, in
between and at the end. -/
inductive Laid : List Lexeme → List Char → Prop
  | nil : Laid [] []
  | blank {c : Char} {lexemes : List Lexeme} {text : List Char}
      (hc : c ∈ [' ', '\n', '\t', '\r']) (h : Laid lexemes text) : Laid lexemes (c :: text)
  | lexeme {lexeme : Lexeme} {lexemes : List Lexeme} {front text : List Char}
      (hfront : lexeme.WrittenAs front) (h : Laid lexemes text) :
      Laid (lexeme :: lexemes) (front ++ text)

namespace Lexeme

/-- Whether a number that stands in front of a text ends there. -/
def Ends (text : List Char) : Prop :=
  ∀ c ∈ text.head?, c.isDigit = false ∧ c ≠ '.' ∧ c ≠ 'e' ∧ c ≠ 'E'

/-! ### Cutting numbers off -/

theorem digits?_append (digits : Digits) {rest : List Char}
    (h : ∀ c ∈ rest.head?, c.isDigit = false) :
    digits? (digits.chars ++ rest) = some (digits.chars, rest) := by
  have htake : rest.takeWhile Char.isDigit = [] := by
    cases rest with
    | nil => rfl
    | cons c rest => rw [List.takeWhile_cons_of_neg (by simp [h c rfl])]
  have hdrop : rest.dropWhile Char.isDigit = rest := by
    cases rest with
    | nil => rfl
    | cons c rest => rw [List.dropWhile_cons_of_neg (by simp [h c rfl])]
  rw [digits?, List.takeWhile_append_of_pos digits.isDigit, htake, List.append_nil,
    List.dropWhile_append_of_pos digits.isDigit, hdrop]
  exact if_neg (by simpa using digits.ne_nil)

theorem fraction?_append (fraction? : Option Digits) {rest : List Char}
    (h : ∀ c ∈ rest.head?, c.isDigit = false ∧ c ≠ '.') :
    Lexeme.fraction? (fraction?.elim [] ('.' :: ·.chars) ++ rest)
      = some (fraction?.isSome, rest) := by
  cases fraction? with
  | some digits =>
    show (digits? (digits.chars ++ rest)).map _ = _
    rw [digits?_append digits fun c hc ↦ (h c hc).1]
    rfl
  | none =>
    show Lexeme.fraction? rest = some (false, rest)
    rw [Lexeme.fraction?.eq_def]
    split
    · exact absurd rfl (h '.' rfl).2
    · rfl

theorem unsigned_append {sign : List Char} (hsign : sign = [] ∨ sign = ['+'] ∨ sign = ['-'])
    (digits : Digits) (rest : List Char) :
    unsigned (sign ++ (digits.chars ++ rest)) = digits.chars ++ rest := by
  rcases hsign with rfl | rfl | rfl
  · obtain ⟨chars, hne, hdigit⟩ := digits
    obtain ⟨c, chars, rfl⟩ := List.exists_cons_of_ne_nil hne
    have hc := hdigit c List.mem_cons_self
    show unsigned (c :: (chars ++ rest)) = _
    rw [unsigned.eq_def]
    split
    · exact absurd hc (by simp_all)
    · exact absurd hc (by simp_all)
    · rfl
  · rfl
  · rfl

theorem exponent?_append (exponent? : Option Exponent) {rest : List Char} (h : Ends rest) :
    Lexeme.exponent? (exponent?.elim [] Exponent.text ++ rest)
      = some (exponent?.isSome, rest) := by
  cases exponent? with
  | some e =>
    have hdigits : (digits? (unsigned (e.sign ++ (e.digits.chars ++ rest)))).map
        (fun p ↦ (true, p.2)) = some (true, rest) := by
      rw [unsigned_append e.sign_eq, digits?_append e.digits fun c hc ↦ (h c hc).1]
      rfl
    show Lexeme.exponent? (e.mark :: (e.sign ++ e.digits.chars ++ rest)) = _
    rw [List.append_assoc]
    rcases e.mark_eq with hmark | hmark
    · rw [hmark]
      exact hdigits
    · rw [hmark]
      exact hdigits
  | none =>
    show Lexeme.exponent? rest = some (false, rest)
    rw [Lexeme.exponent?.eq_def]
    split
    · exact absurd rfl (h 'e' rfl).2.2.1
    · exact absurd rfl (h 'E' rfl).2.2.2
    · rfl

/-- More digits make no number smaller. -/
theorem le_ofDigitChars (digits : List Char) (start : Nat) :
    start ≤ Nat.ofDigitChars 10 digits start := by
  induction digits generalizing start with
  | nil => exact Nat.le_refl start
  | cons c digits ih =>
    have hle := ih (10 * start + (c.toNat - '0'.toNat))
    exact Nat.le_trans (by omega) hle

/-- Reading digits with a bound is reading them, and then comparing. -/
theorem foldlM_below? {bound start : Nat} (hstart : start < bound) (digits : List Char) :
    digits.foldlM
        (fun n c ↦
          let n := 10 * n + (c.toNat - '0'.toNat)
          if n < bound then some n else none) start
      = if Nat.ofDigitChars 10 digits start < bound then some (Nat.ofDigitChars 10 digits start)
        else none := by
  induction digits generalizing start with
  | nil => exact (if_pos hstart).symm
  | cons c digits ih =>
    have hcons : Nat.ofDigitChars 10 (c :: digits) start
        = Nat.ofDigitChars 10 digits (10 * start + (c.toNat - '0'.toNat)) := rfl
    rw [List.foldlM_cons, hcons]
    by_cases hnext : 10 * start + (c.toNat - '0'.toNat) < bound
    · simp only [if_pos hnext]
      exact ih hnext
    · have hle := le_ofDigitChars digits (10 * start + (c.toNat - '0'.toNat))
      simp only [if_neg hnext]
      exact (if_neg (by omega)).symm

theorem word?_eq (digits : List Char) :
    word? digits = if Nat.ofDigitChars 10 digits 0 < UInt64.size then
      some (UInt64.ofNat (Nat.ofDigitChars 10 digits 0)) else none := by
  have hbelow : Numeral.below? UInt64.size digits = _ :=
    foldlM_below? (by decide : 0 < UInt64.size) digits
  rw [word?, hbelow]
  split <;> rfl

/-- A number is read up to its end. -/
theorem number?_append (n : NumberText) {rest : List Char} (h : Ends rest) :
    number? (n.text ++ rest) = some (n.word?, rest) := by
  obtain ⟨negative, whole, leadingZero, fraction?, exponent?⟩ := n
  -- behind the whole part there is no digit, and behind the fraction no further point
  have hexponent : ∀ c ∈ (exponent?.elim [] Exponent.text ++ rest).head?,
      c.isDigit = false ∧ c ≠ '.' := by
    cases exponent? with
    | none => exact fun c hc ↦ ⟨(h c hc).1, (h c hc).2.1⟩
    | some e =>
      rintro c hc
      cases hc
      rcases e.mark_eq with hmark | hmark <;> rw [hmark] <;> decide
  have hfraction : ∀ c ∈ (fraction?.elim [] ('.' :: ·.chars)
      ++ (exponent?.elim [] Exponent.text ++ rest)).head?, c.isDigit = false := by
    cases fraction? with
    | none => exact fun c hc ↦ (hexponent c hc).1
    | some digits =>
      rintro c hc
      cases hc
      decide
  have hmagnitude : magnitude? (whole.chars ++ (fraction?.elim [] ('.' :: ·.chars)
      ++ (exponent?.elim [] Exponent.text ++ rest)))
        = some (if fraction?.isSome || exponent?.isSome then none else word? whole.chars,
          rest) := by
    simp only [magnitude?, digits?_append whole hfraction, Option.bind_eq_bind, Option.bind_some]
    rw [if_neg fun hzero ↦ hzero.2 (leadingZero hzero.1)]
    simp only [fraction?_append fraction? hexponent, exponent?_append exponent? h,
      Option.bind_some]
    rfl
  cases negative with
  | true =>
    have htext : NumberText.text ⟨true, whole, leadingZero, fraction?, exponent?⟩ ++ rest
        = '-' :: (whole.chars ++ (fraction?.elim [] ('.' :: ·.chars)
          ++ (exponent?.elim [] Exponent.text ++ rest))) := by
      simp [NumberText.text]
    rw [htext, number?, hmagnitude]
    simp [NumberText.word?]
  | false =>
    have htext : NumberText.text ⟨false, whole, leadingZero, fraction?, exponent?⟩ ++ rest
        = whole.chars ++ (fraction?.elim [] ('.' :: ·.chars)
          ++ (exponent?.elim [] Exponent.text ++ rest)) := by
      simp [NumberText.text]
    obtain ⟨c, chars, hchars⟩ := List.exists_cons_of_ne_nil whole.ne_nil
    have hminus : c ≠ '-' := by
      rintro rfl
      exact absurd (whole.isDigit '-' (hchars ▸ List.mem_cons_self)) (by decide)
    rw [htext, number?, hmagnitude, word?_eq]
    · simp [NumberText.word?]
    · intro cs hcs
      rw [hchars] at hcs
      exact hminus (List.cons.inj hcs).1

/-! ### Cutting lexemes off -/

/-- Pieces between brackets, with commas in between. -/
def bracketed (opening closing : Lexeme) (pieces : List (List Lexeme)) : List Lexeme :=
  opening :: ([comma].intercalate pieces ++ [closing])

/-- Whether a lexeme is a number. -/
def isNumber : Lexeme → Bool
  | number _ => true
  | _ => false

/-- No two numbers are next to each other. -/
def Apart (lexemes : List Lexeme) : Prop :=
  lexemes.IsChain fun l l' ↦ l.isNumber = true → l'.isNumber = false

theorem exists_head_text (n : NumberText) :
    ∃ c chars, n.text = c :: chars ∧ (c = '-' ∨ c.isDigit = true) := by
  obtain ⟨negative, whole, leadingZero, fraction?, exponent?⟩ := n
  obtain ⟨c, chars, hchars⟩ := List.exists_cons_of_ne_nil whole.ne_nil
  cases negative with
  | true => exact ⟨'-', _, rfl, .inl rfl⟩
  | false =>
    refine ⟨c, chars ++ fraction?.elim [] ('.' :: ·.chars) ++ exponent?.elim [] Exponent.text, ?_,
      .inr (whole.isDigit c (hchars ▸ List.mem_cons_self))⟩
    simp [NumberText.text, hchars]

/-- What begins like a number is read as one. -/
theorem next?_of_head {c : Char} (h : c = '-' ∨ c.isDigit = true) (chars : List Char) :
    next? (c :: chars) = (number? (c :: chars)).map fun p ↦ (number p.1, p.2) := by
  have hne : ∀ d : Char, ¬ (d = '-' ∨ d.isDigit = true) → c ≠ d := by
    rintro d hd rfl
    exact hd h
  rw [next?]
  all_goals
    intro rest heq
    refine hne _ ?_ (List.cons.inj heq).1
    decide

/-- **A lexeme is cut off in any of its forms**, if no number goes on behind a number. -/
theorem next?_append {l : Lexeme} {front rest : List Char} (h : l.WrittenAs front)
    (hends : l.isNumber = true → Ends rest) : next? (front ++ rest) = some (l, rest) := by
  cases h with
  | openList | closeList | openRecord | closeRecord | comma | colon | null => rfl
  | bool value => cases value <;> rfl
  | number n =>
    obtain ⟨c, chars, hchars, hc⟩ := exists_head_text n
    rw [hchars, List.cons_append, next?_of_head hc, ← List.cons_append, ← hchars,
      number?_append n (hends rfl)]
    rfl
  | @string parts text h =>
    show (stringBody? (text ++ ['"'] ++ rest)).map _ = _
    rw [List.append_assoc, List.singleton_append, stringBody?_of_partsWrittenAs h]
    rfl

/-- No lexeme begins with a blank, and only a number begins with what may go on with a number. -/
theorem WrittenAs.head {l : Lexeme} {front : List Char} (h : l.WrittenAs front) :
    ∃ c chars, front = c :: chars ∧ isBlank c = false ∧
      (l.isNumber = false → c.isDigit = false ∧ c ≠ '.' ∧ c ≠ 'e' ∧ c ≠ 'E') := by
  cases h with
  | openList | closeList | openRecord | closeRecord | comma | colon | null | string =>
    exact ⟨_, _, rfl, by decide, fun _ ↦ by decide⟩
  | bool value => cases value <;> exact ⟨_, _, rfl, by decide, fun _ ↦ by decide⟩
  | number n =>
    obtain ⟨c, chars, hchars, hc⟩ := exists_head_text n
    refine ⟨c, chars, hchars, ?_, fun hnumber ↦ nomatch hnumber⟩
    rw [isBlank]
    rcases hc with rfl | hc
    · decide
    · simp only [Bool.or_eq_false_iff, decide_eq_false_iff_not]
      refine ⟨⟨⟨?_, ?_⟩, ?_⟩, ?_⟩ <;> rintro rfl <;> exact absurd hc (by decide)

/-- A blank is taken as one, and no number goes on with it. -/
theorem blank_of_mem {c : Char} (hc : c ∈ [' ', '\n', '\t', '\r']) :
    isBlank c = true ∧ c.isDigit = false ∧ c ≠ '.' ∧ c ≠ 'e' ∧ c ≠ 'E' := by
  simp only [List.mem_cons, List.not_mem_nil, or_false] at hc
  rcases hc with rfl | rfl | rfl | rfl <;> decide

/-- What is laid behind a number does not go on with it, unless another number comes first. -/
theorem Laid.ends {lexemes : List Lexeme} {text : List Char} (h : Laid lexemes text)
    (hnumber : ∀ l ∈ lexemes.head?, l.isNumber = false) : Ends text := by
  cases h with
  | nil => exact fun c hc ↦ nomatch hc
  | @blank c _ _ hc =>
    rintro d hd
    cases hd
    exact (blank_of_mem hc).2
  | @lexeme l _ front _ hfront =>
    obtain ⟨c, chars, rfl, -, hc⟩ := hfront.head
    rintro d hd
    cases hd
    exact hc (hnumber l rfl)

/-! ### The cut -/

theorem scan_blank {c : Char} (hc : c ∈ [' ', '\n', '\t', '\r']) (text : List Char) :
    scan (c :: text) = scan text := by
  rw [scan, if_pos (blank_of_mem hc).1]

theorem scan_append {l : Lexeme} {front rest : List Char} (h : l.WrittenAs front)
    (hends : l.isNumber = true → Ends rest) : scan (front ++ rest) = (scan rest).map (l :: ·) := by
  have hnext := next?_append h hends
  obtain ⟨c, chars, rfl, hblank, -⟩ := h.head
  rw [List.cons_append] at hnext ⊢
  rw [scan, if_neg (by simp [hblank])]
  split
  · next hnone =>
    rw [hnext] at hnone
    cases hnone
  · next hsome =>
    rw [hnext] at hsome
    cases hsome
    rfl

/-- **Cutting a text gives back the lexemes that are laid in it.** -/
theorem scan_of_laid {lexemes : List Lexeme} {text : List Char} (h : Laid lexemes text)
    (hapart : Apart lexemes) : scan text = some lexemes := by
  induction h with
  | nil => rw [scan]
  | blank hc _ ih => rw [scan_blank hc, ih hapart]
  | @lexeme l lexemes front text hfront hlaid ih =>
    have hends : l.isNumber = true → Ends text := by
      refine fun hl ↦ Laid.ends hlaid fun l' hl' ↦ ?_
      cases lexemes with
      | nil => cases hl'
      | cons next lexemes =>
        cases hl'
        exact (List.isChain_cons_cons.1 hapart).1 hl
    rw [scan_append hfront hends, ih hapart.tail, Option.map_some]

end Lexeme

/-! ## Values -/

namespace Tree

/-- Values are built from values: to prove something of all of them, it may be assumed of the items
of a list and of what the members of a record hold. -/
@[elab_as_elim]
theorem induction {P : Tree → Prop} (null : P null) (bool : ∀ b, P (bool b))
    (number : ∀ n, P (number n)) (string : ∀ parts, P (string parts))
    (list : ∀ items, (∀ t ∈ items, P t) → P (list items))
    (record : ∀ members : Members, (∀ m ∈ members, P m.2) → P (record members)) :
    ∀ t, P t
  | .null => null
  | .bool b => bool b
  | .number n => number n
  | .string parts => string parts
  | .list items => list items fun t _ => induction null bool number string list record t
  | .record members =>
    record members fun m _ => induction null bool number string list record m.2
decreasing_by
  · have := List.sizeOf_lt_of_mem ‹t ∈ items›
    simp
    omega
  · have := List.sizeOf_lt_of_mem ‹m ∈ members›
    obtain ⟨name, value⟩ := m
    simp at this ⊢
    omega

mutual

/-- The lexemes of a value, in order. -/
def lexemes : Tree → List Lexeme
  | null => [.null]
  | bool value => [.bool value]
  | number word? => [.number word?]
  | string parts => [.string parts]
  | list items => Lexeme.bracketed .openList .closeList (lexemesOfItems items)
  | record members => Lexeme.bracketed .openRecord .closeRecord (lexemesOfMembers members)

/-- The lexemes of the items of a list, item by item. -/
def lexemesOfItems : List Tree → List (List Lexeme)
  | [] => []
  | item :: rest => lexemes item :: lexemesOfItems rest

/-- The lexemes of the members of a record, member by member. -/
def lexemesOfMembers : List (List StringPart × Tree) → List (List Lexeme)
  | [] => []
  | (name, value) :: rest => (.string name :: .colon :: lexemes value) :: lexemesOfMembers rest

end

theorem lexemesOfItems_eq_map (items : List Tree) : lexemesOfItems items = items.map lexemes := by
  induction items with
  | nil => rfl
  | cons item rest ih => rw [lexemesOfItems, ih, List.map_cons]

/-- The lexemes of a member. -/
def lexemesOfMember (m : List StringPart × Tree) : List Lexeme :=
  .string m.1 :: .colon :: m.2.lexemes

theorem lexemesOfMembers_eq_map (members : Members) :
    lexemesOfMembers members = members.map lexemesOfMember := by
  induction members with
  | nil => rfl
  | cons m rest ih => rw [lexemesOfMembers, ih, List.map_cons, lexemesOfMember]

/-! ### No two numbers are neighbours -/

/-- Pieces with commas in between and brackets around them. -/
theorem apart_bracketed {opening closing : Lexeme} (hopening : opening.isNumber = false)
    (hclosing : closing.isNumber = false) {pieces : List (List Lexeme)}
    (h : ∀ piece ∈ pieces, Lexeme.Apart piece) :
    Lexeme.Apart (Lexeme.bracketed opening closing pieces) := by
  -- a piece may be put in front of anything that does not begin with a number
  have hput (piece rest : List Lexeme) (hpiece : Lexeme.Apart piece) (hrest : Lexeme.Apart rest)
      (hhead : ∀ l ∈ rest.head?, l.isNumber = false) : Lexeme.Apart (piece ++ rest) :=
    List.isChain_append.2 ⟨hpiece, hrest, fun _ _ l hl _ ↦ hhead l hl⟩
  have hclosed : Lexeme.Apart [closing] := List.isChain_singleton _
  have hend : ∀ l ∈ [closing].head?, l.isNumber = false := by
    rintro l hl
    cases hl
    exact hclosing
  have hpieces : Lexeme.Apart ([Lexeme.comma].intercalate pieces ++ [closing]) := by
    induction pieces with
    | nil => exact hclosed
    | cons piece pieces ih =>
      have hpiece := h piece List.mem_cons_self
      have ih := ih fun piece' hmem ↦ h piece' (List.mem_cons_of_mem _ hmem)
      cases pieces with
      | nil =>
        rw [List.intercalate_singleton]
        exact hput piece _ hpiece hclosed hend
      | cons next pieces =>
        rw [List.intercalate_cons_cons, List.append_assoc, List.append_assoc]
        refine hput piece _ hpiece (List.isChain_cons.2 ⟨fun _ _ hcomma ↦ (nomatch hcomma), ih⟩) ?_
        rintro l hl
        cases hl
        rfl
  refine List.isChain_cons.2 ⟨fun l _ hnumber ↦ ?_, hpieces⟩
  rw [hopening] at hnumber
  cases hnumber

theorem apart_lexemes (t : Tree) : Lexeme.Apart t.lexemes := by
  induction t using induction with
  | null | bool | number | string => exact List.isChain_singleton _
  | list items ih =>
    rw [lexemes, lexemesOfItems_eq_map]
    refine apart_bracketed rfl rfl fun piece hpiece ↦ ?_
    obtain ⟨t, ht, rfl⟩ := List.mem_map.1 hpiece
    exact ih t ht
  | record members ih =>
    rw [lexemes, lexemesOfMembers_eq_map]
    refine apart_bracketed rfl rfl fun piece hpiece ↦ ?_
    obtain ⟨m, hm, rfl⟩ := List.mem_map.1 hpiece
    refine List.isChain_cons.2 ⟨fun _ _ hname ↦ (nomatch hname), List.isChain_cons.2 ⟨?_, ih m hm⟩⟩
    exact fun _ _ hcolon ↦ nomatch hcolon

/-! ### Putting lexemes together -/

/-- A value begins with a lexeme that is no closing bracket. -/
theorem exists_head_lexemes (t : Tree) : ∃ l rest, t.lexemes = l :: rest ∧ l ≠ .closeList := by
  cases t with
  | null | bool | number | string | list | record => exact ⟨_, _, rfl, by simp⟩

/-- Pieces with commas in between are taken one by one, until a bracket closes them.  Here `before`
is the state that a piece is taken in, `behind` the one that it leads to, and `closed` the one
behind the bracket; each of them depends on the pieces `done`, the last first. -/
theorem foldlM_step_pieces {α : Type} (piece : α → List Lexeme) (closing : Lexeme)
    (before : List α → State) (behind : List α → α → State) (closed : List α → State)
    {pieces : List α}
    (hpiece : ∀ a ∈ pieces, ∀ done,
      (piece a).foldlM step (before done) = some (behind done a))
    (hcomma : ∀ done a, step (behind done a) .comma = some (before (a :: done)))
    (hclosing : ∀ done a, step (behind done a) closing = some (closed (a :: done)))
    (hne : pieces ≠ []) (done : List α) :
    ([Lexeme.comma].intercalate (pieces.map piece) ++ [closing]).foldlM step (before done)
      = some (closed (pieces.reverse ++ done)) := by
  induction pieces generalizing done with
  | nil => exact absurd rfl hne
  | cons a pieces ih =>
    have ha := hpiece a List.mem_cons_self done
    cases pieces with
    | nil =>
      rw [List.map_singleton, List.intercalate_singleton, List.foldlM_append, ha]
      show (step (behind done a) closing).bind _ = _
      rw [hclosing]
      rfl
    | cons next pieces =>
      rw [List.map_cons, List.map_cons, List.intercalate_cons_cons, List.append_assoc,
        List.append_assoc, List.foldlM_append, ha]
      show (step (behind done a) .comma).bind _ = _
      rw [hcomma, List.reverse_cons, List.append_assoc]
      exact ih (fun a' ha' ↦ hpiece a' (List.mem_cons_of_mem _ ha')) (List.cons_ne_nil _ _)
        (a :: done)

/-- What pieces begin with, when they are between commas and in front of a bracket. -/
theorem exists_cons_intercalate (l : Lexeme) (rest closing : List Lexeme)
    (pieces : List (List Lexeme)) :
    ∃ behind, [Lexeme.comma].intercalate ((l :: rest) :: pieces) ++ closing = l :: behind := by
  cases pieces with
  | nil => exact ⟨rest ++ closing, by rw [List.intercalate_singleton, List.cons_append]⟩
  | cons next pieces =>
    rw [List.intercalate_cons_cons, List.cons_append, List.cons_append, List.cons_append]
    exact ⟨_, rfl⟩

variable (stack : List Frame)

/-- Where a first item may stand, a value is taken as it is anywhere. -/
theorem foldlM_step_firstItem {l : Lexeme} (hl : l ≠ .closeList) (rest : List Lexeme)
    (items : List Tree) :
    (l :: rest).foldlM step (.list items :: stack, .firstItem)
      = (l :: rest).foldlM step (.list items :: stack, .value) := by
  cases l with
  | closeList => exact absurd rfl hl
  | _ => rfl

/-- **The lexemes of a value are put together to the value**, whatever is still open around it. -/
theorem foldlM_step_lexemes (t : Tree) :
    t.lexemes.foldlM step (stack, .value) = some (stack, .continuation t) := by
  induction t using induction generalizing stack with
  | null | bool | number | string => rfl
  | list items ih =>
    rw [lexemes, lexemesOfItems_eq_map]
    show ([Lexeme.comma].intercalate (items.map lexemes) ++ [Lexeme.closeList]).foldlM step
      (.list [] :: stack, .firstItem) = _
    cases items with
    | nil => rfl
    | cons t items =>
      have hitems := foldlM_step_pieces lexemes .closeList
        (fun done ↦ (.list done :: stack, .value))
        (fun done t ↦ (.list done :: stack, .continuation t))
        (fun done ↦ (stack, .continuation (list done.reverse)))
        (fun t ht done ↦ ih t ht (.list done :: stack)) (fun _ _ ↦ rfl) (fun _ _ ↦ rfl)
        (List.cons_ne_nil t items) []
      obtain ⟨l, rest, hl, hne⟩ := t.exists_head_lexemes
      obtain ⟨behind, hbehind⟩ := exists_cons_intercalate l rest [.closeList] (items.map lexemes)
      rw [List.map_cons, hl, hbehind] at hitems ⊢
      rw [foldlM_step_firstItem stack hne, hitems, List.append_nil, List.reverse_reverse]
  | record members ih =>
    rw [lexemes, lexemesOfMembers_eq_map]
    cases members with
    | nil => rfl
    | cons m members =>
      have hmembers := foldlM_step_pieces lexemesOfMember .closeRecord
        (fun done ↦ (stack, .name done))
        (fun done m ↦ (.record done m.1 :: stack, .continuation m.2))
        (fun done ↦ (stack, .continuation (record done.reverse)))
        (fun m hm done ↦ ih m hm (.record done m.1 :: stack))
        (fun _ _ ↦ rfl) (fun _ _ ↦ rfl) (List.cons_ne_nil m members) []
      obtain ⟨behind, hbehind⟩ := exists_cons_intercalate (.string m.1) (.colon :: m.2.lexemes)
        [.closeRecord] (members.map lexemesOfMember)
      rw [List.map_cons, lexemesOfMember, hbehind, List.append_nil, List.reverse_reverse]
        at hmembers
      rw [Lexeme.bracketed, List.map_cons, lexemesOfMember, hbehind]
      -- the first name is taken as a later one is
      exact hmembers

/-- **Every text of a value is read, and as that value.** -/
theorem ofText?_of_laid {t : Tree} {text : List Char} (h : Laid t.lexemes text) :
    ofText? text = some t := by
  have hscan := Lexeme.scan_of_laid h t.apart_lexemes
  have hfold := foldlM_step_lexemes [] t
  simp only [ofText?, hscan, ofLexemes?, Option.bind_eq_bind, Option.bind_some, hfold]
  rfl

end Tree
end Json
end RoomScript
