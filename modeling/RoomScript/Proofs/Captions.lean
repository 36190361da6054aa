import RoomScript.Proofs.PrintedLines

/-!
# Numbers between words

Many lines of a listing are words with numbers between them, and each number stands for something.
A `Caption` says how such a line is made up: which words it has, and where it has the number of
which `Field`, in which `Style`.  It can be used both ways, to write a line and to read the numbers
in one.

Nothing marks the end of a number.  But if the words behind it begin with a character that is no
digit of its style, it can be told from them; then the numbers that a line was written with are the
numbers that are read in it (`Caption.read_write`).
-/

set_option autoImplicit false

namespace RoomScript

/-! ## Numbers in a text -/

/-- The ways in which a line writes a number. -/
inductive Style where
  /-- Decimal, with a sign if the number is negative. -/
  | decimal
  /-- Hexadecimal, of at least `width` digits. -/
  | hex (width : Nat)
  /-- Hexadecimal after the mark `0x`. -/
  | marked (width : Nat)
  deriving DecidableEq, Repr

namespace Style

/-- The number as the style writes it. -/
def write : Style → Int → String
  | decimal, n => n.repr
  | hex width, n => Numeral.hex width n.toNat
  | marked width, n => "0x" ++ Numeral.hex width n.toNat

/-- The numbers that a style can write. -/
def Fits : Style → Int → Prop
  | decimal, _ => True
  | hex _, n | marked _, n => 0 ≤ n

/-- The characters of numbers. -/
def isDigit : Style → Char → Bool
  | decimal, c => c.isDigit || c == '-'
  | hex _, c => (Numeral.digit? c).isSome
  | marked _, c => (Numeral.digit? c).isSome || c == 'x'

/-- The number without a sign that decimal digits write. -/
def readNat (cs : List Char) : Option Nat :=
  if cs ≠ [] ∧ cs.all Char.isDigit then some (Nat.ofDigitChars 10 cs 0) else none

/-- The number that hexadecimal digits write. -/
def readHex (cs : List Char) : Option Int :=
  if cs = [] then none else (Numeral.readHex cs).map Int.ofNat

/-- The number that some characters write. -/
def read : Style → List Char → Option Int
  | decimal, '-' :: cs => (readNat cs).map fun (n : Nat) ↦ -(n : Int)
  | decimal, cs => (readNat cs).map Int.ofNat
  | hex _, cs => readHex cs
  | marked _, '0' :: 'x' :: cs => readHex cs
  | marked _, _ => none

theorem isDigit_of_mem_repr {n : Nat} {c : Char} (hc : c ∈ n.repr.toList) : c.isDigit = true := by
  rw [Nat.toList_repr] at hc
  exact Nat.isDigit_of_mem_toDigits (by decide) (by decide) hc

theorem readNat_repr (n : Nat) : readNat n.repr.toList = some n := by
  have hall : n.repr.toList.all Char.isDigit = true :=
    List.all_eq_true.2 fun c hc ↦ isDigit_of_mem_repr hc
  have hne : n.repr.toList ≠ [] := by
    rw [Nat.toList_repr]
    exact Nat.toDigits_ne_nil
  rw [readNat, if_pos ⟨hne, hall⟩, Nat.toList_repr, Nat.ofDigitChars_ten_toDigits]

theorem read_decimal_of_digits {cs : List Char} (h : ∀ c ∈ cs, c.isDigit = true) :
    read decimal cs = (readNat cs).map Int.ofNat := by
  rw [read]
  rintro cs' rfl
  exact absurd (h '-' List.mem_cons_self) (by decide)

theorem isDigit_of_mem_hex {width n : Nat} {c : Char} (hc : c ∈ (Numeral.hex width n).toList) :
    (Numeral.digit? c).isSome = true := by
  have hdigit : ∀ d < 16, (Numeral.digit? (Nat.digitChar d)).isSome = true := by decide +kernel
  obtain ⟨d, hd, rfl⟩ := exists_digitChar_of_mem_hex hc
  exact hdigit d hd

/-- A number is written with the characters of its style. -/
theorem isDigit_of_mem_write {style : Style} {n : Int} {c : Char}
    (hc : c ∈ (style.write n).toList) : style.isDigit c = true := by
  cases style with
  | decimal =>
    rw [write, Int.repr_eq_if] at hc
    split at hc
    · simp [isDigit, isDigit_of_mem_repr hc]
    · rw [String.toList_append] at hc
      obtain hc | hc := List.mem_append.1 hc
      · have hc : c ∈ ['-'] := hc
        simp [isDigit, List.mem_singleton.1 hc]
      · simp [isDigit, isDigit_of_mem_repr hc]
  | hex width => exact isDigit_of_mem_hex hc
  | marked width =>
    rw [write, String.toList_append] at hc
    obtain hc | hc := List.mem_append.1 hc
    · have hmark : ['0', 'x'].all (fun c ↦ (Numeral.digit? c).isSome || c == 'x') = true := by
        decide +kernel
      exact List.all_eq_true.1 hmark c hc
    · simp [isDigit, isDigit_of_mem_hex hc]

theorem readHex_hex {width : Nat} {n : Int} (h : 0 ≤ n) :
    readHex (Numeral.hex width n.toNat).toList = some n := by
  have hne : (Numeral.hex width n.toNat).toList ≠ [] := by
    rw [Numeral.hex, String.toList_ofList, List.leftpad]
    simp [Nat.toDigits_ne_nil]
  rw [readHex, if_neg hne, Numeral.readHex_hex, Option.map_some]
  exact congrArg some (Int.toNat_of_nonneg h)

/-- A number is read as it was written. -/
theorem read_write {style : Style} {n : Int} (h : style.Fits n) :
    style.read (style.write n).toList = some n := by
  cases style with
  | decimal =>
    rw [write, Int.repr_eq_if]
    split
    · next hn =>
      rw [read_decimal_of_digits fun c hc ↦ isDigit_of_mem_repr hc, readNat_repr, Option.map_some]
      exact congrArg some (Int.toNat_of_nonneg hn)
    · next hn =>
      have hminus : ("-" ++ (-n).toNat.repr).toList = '-' :: (-n).toNat.repr.toList :=
        String.toList_append
      rw [hminus, read, readNat_repr, Option.map_some]
      congr 1
      omega
  | hex width => exact readHex_hex h
  | marked width =>
    have hmark : ("0x" ++ Numeral.hex width n.toNat).toList
        = '0' :: 'x' :: (Numeral.hex width n.toNat).toList := String.toList_append
    rw [write, hmark, read]
    exact readHex_hex h

end Style

/-! ## Captions -/

/-- What an effect says in numbers.  A door leads to a stage, a room, a camera and a place there. -/
inductive Field where
  | id
  | kind
  | amount
  | x
  | y
  | w
  | h
  | stage
  | room
  | camera
  | toX
  | toY
  | toZ
  | toDir
  | array
  | bit
  | target
  | value
  | source
  | message
  deriving DecidableEq, Repr

/-- Whether a field can be negative. -/
def Field.signed : Field → Bool
  | x | y | w | h | toX | toY | toZ | toDir | value => true
  | _ => false

/-- A part of a line: some words, or a number that stands for a field. -/
inductive CaptionPart where
  | words (text : String)
  | number (field : Field) (style : Style)

/-- How a line tells what happens: its words, and where it has the numbers. -/
abbrev Caption := List CaptionPart

namespace CaptionPart

/-- The text of a part, where the fields have the numbers `value`. -/
def write (value : Field → Int) : CaptionPart → String
  | words text => text
  | number field style => style.write (value field)

/-- The field that a part has the number of. -/
def field? : CaptionPart → Option Field
  | words _ => none
  | number field _ => some field

end CaptionPart

namespace Caption

/-- The fields that a caption has numbers for, in order. -/
def fields (c : Caption) : List Field := c.filterMap CaptionPart.field?

/-- The line that a caption stands for. -/
def write (c : Caption) (value : Field → Int) : String := String.join (c.map (·.write value))

/-- The numbers in a line, if it has the words of the caption. -/
def read : Caption → List Char → Option (List (Field × Int))
  | [], [] => some []
  | [], _ :: _ => none
  | .words text :: parts, cs =>
    if text.toList <+: cs then read parts (cs.drop text.toList.length) else none
  | .number field style :: parts, cs =>
    (style.read (cs.takeWhile style.isDigit)).bind fun n ↦
      (read parts (cs.dropWhile style.isDigit)).map ((field, n) :: ·)

/-- Whether a number can be told from what comes after it. -/
def endsNumber (style : Style) : Caption → Bool
  | [] => true
  | .words text :: _ => text.toList.head?.any (!style.isDigit ·)
  | .number _ _ :: _ => false

/-- Whether every number can be told from what comes after it, and the style of every number that
can be negative has a sign. -/
def readable : Caption → Bool
  | [] => true
  | .words _ :: parts => readable parts
  | .number field style :: parts =>
    (style = .decimal || !field.signed) && (endsNumber style parts && readable parts)

variable {value : Field → Int}

theorem write_nil : write [] value = "" := rfl

theorem write_cons (part : CaptionPart) (parts : Caption) :
    write (part :: parts) value = part.write value ++ write parts value := by
  rw [write, List.map_cons, String.join_cons]
  rfl

theorem write_append (c c' : Caption) :
    write (c ++ c') value = c.write value ++ c'.write value := by
  rw [write, List.map_append, String.join_append]
  rfl

theorem write_words (texts : List String) :
    write (texts.map .words) value = String.join texts := by
  rw [write, List.map_map]
  exact congrArg String.join (List.map_id texts)

/-- A number ends where the words behind it begin. -/
theorem takeWhile_write {style : Style} {n : Int} {parts : Caption}
    (h : endsNumber style parts = true) :
    ((style.write n).toList ++ (write parts value).toList).takeWhile style.isDigit
        = (style.write n).toList ∧
      ((style.write n).toList ++ (write parts value).toList).dropWhile style.isDigit
        = (write parts value).toList := by
  have hall : ∀ c ∈ (style.write n).toList, style.isDigit c = true :=
    fun _ ↦ Style.isDigit_of_mem_write
  match parts, h with
  | [], _ =>
    have hnil : (write [] value).toList = [] := rfl
    rw [hnil, List.takeWhile_append_of_pos hall, List.dropWhile_append_of_pos hall]
    exact ⟨List.append_nil _, rfl⟩
  | .words text :: parts, h =>
    obtain ⟨mark, rest, htext⟩ : ∃ mark rest, text.toList = mark :: rest := by
      cases htext : text.toList with
      | nil => simp [endsNumber, htext] at h
      | cons mark rest => exact ⟨mark, rest, rfl⟩
    have hmark : ¬ style.isDigit mark = true := by simpa [endsNumber, htext] using h
    have hwrite : (write (.words text :: parts) value).toList
        = mark :: (rest ++ (write parts value).toList) := by
      rw [write_cons, String.toList_append, CaptionPart.write, htext, List.cons_append]
    rw [hwrite]
    exact takeWhile_dropWhile_mark hall mark hmark _

/-- The numbers of a line are read as they were written. -/
theorem read_write {c : Caption} (hread : c.readable = true)
    (hvalue : ∀ field : Field, field.signed = false → 0 ≤ value field) :
    c.read (c.write value).toList = some (c.fields.map fun field ↦ (field, value field)) := by
  induction c with
  | nil => rfl
  | cons part parts ih =>
    rw [write_cons, String.toList_append]
    cases part with
    | words text =>
      rw [CaptionPart.write, read, if_pos (List.prefix_append _ _), List.drop_left, ih hread]
      rfl
    | number field style =>
      obtain ⟨hstyle, hread⟩ := Bool.and_eq_true_iff.1 hread
      obtain ⟨hends, hread⟩ := Bool.and_eq_true_iff.1 hread
      -- only a decimal can be the number of a field with a sign
      have hfits : style.Fits (value field) := by
        cases style with
        | decimal => trivial
        | _ => exact hvalue field (by simpa using hstyle)
      rw [CaptionPart.write, read, (takeWhile_write hends).1, (takeWhile_write hends).2,
        Style.read_write hfits, ih hread]
      rfl

/-- Whether no words of a caption have a question mark. -/
def plain (c : Caption) : Bool :=
  c.all fun
    | .words text => !text.toList.contains '?'
    | .number _ _ => true

/-- Numbers have no question marks. -/
theorem notMem_write {c : Caption} (h : c.plain = true) : '?' ∉ (c.write value).toList := by
  induction c with
  | nil => simp [write]
  | cons part parts ih =>
    rw [plain, List.all_cons, Bool.and_eq_true] at h
    obtain ⟨hpart, hparts⟩ := h
    rw [write_cons, String.toList_append, List.mem_append, not_or]
    refine ⟨?_, ih hparts⟩
    cases part with
    | words text => simpa [CaptionPart.write] using hpart
    | number field style =>
      have hdigit : style.isDigit '?' = false := by cases style <;> rfl
      intro hmark
      rw [Style.isDigit_of_mem_write hmark] at hdigit
      cases hdigit

end Caption

end RoomScript
