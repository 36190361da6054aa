import RoomScript.Json
import RoomScript.Proofs.JsonTexts

/-!
# Printed values are JSON

Whatever is printed is JSON: the lines that a value is printed on, with their margins, are one of
the texts of the value (`laid_prettyAt`).  What the value is to a reader is `toTree`: names and
strings have the same characters (`unescapes_partsOf`), and a number that fits into 64 bits is read
as that number.
-/

set_option autoImplicit false

namespace RoomScript
namespace Json

/-! ## Strings -/

/-- The part of a string that a character is printed as. -/
def partOf (c : Char) : StringPart :=
  if c.toNat < 0x20 ∧ c ∉ ['\n', '\r', '\t', '\x08', '\x0c'] then .unit c.toNat else .char c

/-- The parts of a printed string. -/
def partsOf (s : String) : List StringPart := s.toList.map partOf

theorem isHexDigit_digitChar {n : Nat} (h : n < 16) : IsHexDigit (Nat.digitChar n) n := by
  have hall : ∀ n < 16, "0123456789abcdef".toList[n]? = some (Nat.digitChar n) := by decide
  exact .inl (hall n h)

theorem writtenAs_escape (c : Char) : (partOf c).WrittenAs (escape c) := by
  -- the characters with a short escape, one by one
  have hshort (e : Char) (h : (e, c) ∈ shortEscapes) (hpart : partOf c = .char c)
      (hescape : escape c = ['\\', e]) : (partOf c).WrittenAs (escape c) := by
    rw [hpart, hescape]
    exact .short h
  by_cases hmem : c ∈ ['"', '\\', '\n', '\r', '\t', '\x08', '\x0c']
  · simp only [List.mem_cons, List.not_mem_nil, or_false] at hmem
    rcases hmem with rfl | rfl | rfl | rfl | rfl | rfl | rfl
    · exact hshort '"' (by decide) rfl rfl
    · exact hshort '\\' (by decide) rfl rfl
    · exact hshort 'n' (by decide) rfl rfl
    · exact hshort 'r' (by decide) rfl rfl
    · exact hshort 't' (by decide) rfl rfl
    · exact hshort 'b' (by decide) rfl rfl
    · exact hshort 'f' (by decide) rfl rfl
  · simp only [List.mem_cons, List.not_mem_nil, or_false, not_or] at hmem
    obtain ⟨hquote, hbackslash, hn, hr, ht, hb, hf⟩ := hmem
    rw [partOf, escape, if_neg hquote, if_neg hbackslash, if_neg hn, if_neg hr, if_neg ht,
      if_neg hb, if_neg hf]
    by_cases hcontrol : c.toNat < 0x20
    · have hcode : c.toNat = 4096 * 0 + 256 * 0 + 16 * (c.toNat / 16) + c.toNat % 16 := by omega
      rw [if_pos ⟨hcontrol, by simp [hn, hr, ht, hb, hf]⟩, if_pos hcontrol]
      have hwritten := StringPart.WrittenAs.numbered (isHexDigit_digitChar (by decide : 0 < 16))
        (isHexDigit_digitChar (by decide : 0 < 16))
        (isHexDigit_digitChar (by omega : c.toNat / 16 < 16))
        (isHexDigit_digitChar (Nat.mod_lt c.toNat (by decide : 0 < 16)))
      rw [← hcode] at hwritten
      exact hwritten
    · rw [if_neg fun h ↦ hcontrol h.1, if_neg hcontrol]
      exact .plain (Nat.le_of_not_lt hcontrol) hquote hbackslash

/-- A printed string is a form of its parts. -/
theorem partsWrittenAs_escape (cs : List Char) :
    PartsWrittenAs (cs.map partOf) (cs.flatMap escape) := by
  induction cs with
  | nil => exact .nil
  | cons c cs ih => exact .cons (writtenAs_escape c) ih

/-- The characters of a printed string are those of the string. -/
theorem unescapes_partsOf (s : String) : Unescapes (partsOf s) s.toList := by
  rw [partsOf]
  induction s.toList with
  | nil => exact .nil
  | cons c cs ih =>
    rw [List.map_cons, partOf]
    split
    · next h =>
      have hunit := Unescapes.unit (.inl (by omega : c.toNat < 0xd800)) ih
      rwa [Char.ofNat_toNat] at hunit
    · exact .char ih

theorem writtenAs_quote (s : String) :
    Lexeme.WrittenAs (.string (partsOf s)) (quote s).toList := by
  rw [quote, String.toList_ofList]
  exact .string (partsWrittenAs_escape s.toList)

/-! ## Numbers -/

/-- Digits without a zero in front are those of a number that is not zero. -/
theorem eq_zero_of_head?_toDigits {n : Nat} (h : (Nat.toDigits 10 n).head? = some '0') :
    n = 0 := by
  induction n using Nat.strongRecOn with
  | ind n ih =>
    rw [Nat.toDigits_eq_if (by decide)] at h
    split at h
    · next hlt =>
      have hall : ∀ n < 10, Nat.digitChar n = '0' → n = 0 := by decide
      exact hall n hlt (Option.some.inj h)
    · next hle =>
      rw [List.head?_append_of_ne_nil _ Nat.toDigits_ne_nil] at h
      have hzero := ih (n / 10) (by omega) h
      omega

/-- The decimal digits of a number. -/
def Digits.ofNat (n : Nat) : Digits where
  chars := Nat.toDigits 10 n
  ne_nil := Nat.toDigits_ne_nil
  isDigit _ hc := Nat.isDigit_of_mem_toDigits (by decide) (by decide) hc

namespace NumberText

/-- An integer as it is printed. -/
def ofInt (n : Int) : NumberText where
  negative := decide (n < 0)
  whole := .ofNat n.natAbs
  leadingZero h := by
    have hzero : n.natAbs = 0 := eq_zero_of_head?_toDigits h
    show (Nat.toDigits 10 n.natAbs).length = 1
    rw [hzero]
    rfl

theorem text_ofInt (n : Int) : (ofInt n).text = (toString n).toList := by
  have hrepr : toString n = if 0 ≤ n then n.toNat.repr else "-" ++ (-n).toNat.repr :=
    Int.repr_eq_if
  rw [hrepr]
  by_cases hneg : n < 0
  · have habs : (-n).toNat = n.natAbs := by omega
    rw [if_neg (by omega), String.toList_append, Nat.toList_repr, habs]
    simp [text, ofInt, hneg, Digits.ofNat]
  · have habs : n.toNat = n.natAbs := by omega
    rw [if_pos (by omega), Nat.toList_repr, habs]
    simp [text, ofInt, hneg, Digits.ofNat]

/-- A number of 64 bits is read as itself. -/
theorem word?_ofInt (n : UInt64) : (ofInt (n.toNat : Int)).word? = some n := by
  have hlt : n.toNat < UInt64.size := n.toNat_lt
  have hvalue : Nat.ofDigitChars 10 (ofInt (n.toNat : Int)).whole.chars 0 = n.toNat :=
    Nat.ofDigitChars_ten_toDigits
  have hplain : ¬ ((ofInt (n.toNat : Int)).negative = true ∨
      (ofInt (n.toNat : Int)).fraction?.isSome = true ∨
        (ofInt (n.toNat : Int)).exponent?.isSome = true) := by
    simp [ofInt]
  rw [word?, if_neg hplain, hvalue, if_pos hlt, UInt64.ofNat_toNat]

end NumberText

/-! ## Values -/

mutual

/-- A printed value as it is read. -/
def toTree : Json → Tree
  | null => .null
  | bool value => .bool value
  | number n => .number (NumberText.ofInt n).word?
  | string s => .string (partsOf s)
  | list items => .list (treesOfItems items)
  | record members => .record (treesOfMembers members)

/-- The items of a printed list as they are read. -/
def treesOfItems : List Json → List Tree
  | [] => []
  | item :: rest => toTree item :: treesOfItems rest

/-- The members of a printed record as they are read. -/
def treesOfMembers : List (String × Json) → Tree.Members
  | [] => []
  | (name, value) :: rest => (partsOf name, toTree value) :: treesOfMembers rest

end

/-! ## Layout -/

namespace Laid

variable {lexemes lexemes' : List Lexeme} {text text' : List Char}

theorem single {l : Lexeme} (h : l.WrittenAs text) : Laid [l] text := by
  have hlaid := Laid.lexeme h .nil
  rwa [List.append_nil] at hlaid

theorem append (h : Laid lexemes text) (h' : Laid lexemes' text') :
    Laid (lexemes ++ lexemes') (text ++ text') := by
  induction h with
  | nil => exact h'
  | blank hc _ ih => exact .blank hc ih
  | lexeme hfront _ ih =>
    rw [List.append_assoc]
    exact .lexeme hfront ih

/-- Blanks may stand in front of any text. -/
theorem margin_append (level : Nat) (h : Laid lexemes text) :
    Laid lexemes ((margin level).toList ++ text) := by
  rw [margin, String.toList_ofList]
  induction 2 * level with
  | zero => exact h
  | succ n ih =>
    rw [List.replicate_succ]
    exact .blank (by decide) ih

/-- Pieces on lines of their own, with a comma at the end of all lines but the last. -/
theorem lines (level : Nat) {pieces : List (List Lexeme)} {lines : List String}
    (h : List.Forall₂ (fun piece line ↦ Laid piece line.toList) pieces lines) :
    Laid ([Lexeme.comma].intercalate pieces)
      (String.intercalate ",\n" (lines.map (margin level ++ ·))).toList := by
  rw [String.toList_intercalate, List.map_map]
  induction h with
  | nil => exact .nil
  | @cons piece line pieces lines hline hlines ih =>
    have hmargin : Laid piece (margin level ++ line).toList := by
      rw [String.toList_append]
      exact hline.margin_append level
    cases hlines with
    | nil =>
      rw [List.map_singleton, List.intercalate_singleton, List.intercalate_singleton]
      exact hmargin
    | cons _ _ =>
      rw [List.map_cons, List.map_cons, List.intercalate_cons_cons, List.intercalate_cons_cons]
      have hcomma : Laid [Lexeme.comma] ",\n".toList :=
        .lexeme .comma (.blank (by decide) .nil)
      exact (hmargin.append hcomma).append ih

/-- Pieces on lines between brackets. -/
theorem block {opening closing : Lexeme} {o c : String} (ho : opening.WrittenAs o.toList)
    (hc : closing.WrittenAs c.toList) (level : Nat) {pieces : List (List Lexeme)}
    {lines : List String}
    (h : List.Forall₂ (fun piece line ↦ Laid piece line.toList) pieces lines) :
    Laid (Lexeme.bracketed opening closing pieces) (Json.block o c level lines).toList := by
  rw [Json.block, Lexeme.bracketed]
  cases h with
  | nil =>
    rw [List.isEmpty_nil, if_pos rfl, String.toList_append]
    exact .lexeme ho (single hc)
  | cons hline hlines =>
    rw [List.isEmpty_cons, if_neg (by decide)]
    simp only [String.toList_append, List.append_assoc]
    have hend : Laid [closing] ("\n".toList ++ ((margin level).toList ++ c.toList)) :=
      .blank (by decide) ((single hc).margin_append level)
    have hlines := Laid.lines (level + 1) (.cons hline hlines)
    exact .lexeme ho (.blank (by decide) (hlines.append hend))

end Laid

mutual

/-- **A printed value is a text of the value**, at any level. -/
theorem laid_prettyAt (level : Nat) :
    (j : Json) → Laid j.toTree.lexemes (prettyAt level j).toList
  | null => .single .null
  | bool true => .single (.bool true)
  | bool false => .single (.bool false)
  | number n => by
    rw [toTree, Tree.lexemes, prettyAt, ← NumberText.text_ofInt]
    exact .single (.number _)
  | string s => .single (writtenAs_quote s)
  | list items => .block .openList .closeList level (laid_prettyItems (level + 1) items)
  | record members =>
    .block .openRecord .closeRecord level (laid_prettyMembers (level + 1) members)

theorem laid_prettyItems (level : Nat) :
    (items : List Json) →
      List.Forall₂ (fun piece line ↦ Laid piece line.toList)
        (Tree.lexemesOfItems (treesOfItems items)) (prettyItems level items)
  | [] => .nil
  | item :: rest => .cons (laid_prettyAt level item) (laid_prettyItems level rest)

theorem laid_prettyMembers (level : Nat) :
    (members : List (String × Json)) →
      List.Forall₂ (fun piece line ↦ Laid piece line.toList)
        (Tree.lexemesOfMembers (treesOfMembers members)) (prettyMembers level members)
  | [] => .nil
  | (name, value) :: rest => by
    refine .cons ?_ (laid_prettyMembers level rest)
    have hname : Laid [.string (partsOf name)] (quote name).toList := .single (writtenAs_quote name)
    have hcolon : Laid [Lexeme.colon] ": ".toList := .lexeme .colon (.blank (by decide) .nil)
    rw [String.toList_append, String.toList_append]
    exact (hname.append hcolon).append (laid_prettyAt level value)

end

/-- **What is printed is read back.** -/
theorem ofText?_pretty (j : Json) : Tree.ofText? j.pretty.toList = some j.toTree :=
  Tree.ofText?_of_laid (laid_prettyAt 0 j)

end Json
end RoomScript
