import RoomScript.Proofs.ByteListing
import RoomScript.Proofs.Wording

/-!
# A printed listing can be read back

A listing is printed line by line, and a line is an offset, a colon, an indentation and a text.
None of this is marked off: the offset has as many digits as it needs, the indentation is made of
blanks, and the text can be anything that is said about an instruction.  Still, the lines of a
listing can be told from what is printed, as long as their texts are not empty, do not begin with a
blank and have no line break (`Line.Readable`).

`Listing.read?` reads a print: it cuts the print at every line break (`textLines`), and each piece
at its first colon and behind the blanks that follow.  What was printed is what is read
(`Listing.read?_render`), so two listings with different lines never look the same.

That the lines of every section of every room are of this kind is a matter of going through the
texts: those of the instructions (`Language.wording`), the notes about flags, and the messages,
whose fonts have no line breaks (`Generation.unbroken_decodeMessage`).
-/

set_option autoImplicit false

namespace RoomScript

/-! ## Reading -/

/-- Lines whose text can be told from what stands in front of it and behind it. -/
structure Line.Readable (l : Line) : Prop where
  nonempty : l.text ≠ ""
  unindented : l.text.toList.head? ≠ some ' '
  unbroken : Unbroken l.text

/-- Cuts a text at its line breaks. -/
def textLines : List Char → List (List Char)
  | [] => []
  | c :: cs =>
    if c ∈ lineBreaks then [] :: textLines cs
    else
      match textLines cs with
      | [] => [[c]]
      | line :: lines => (c :: line) :: lines

/-- The number that a hexadecimal digit behind `n` makes. -/
def Numeral.addDigit? (n : Nat) (c : Char) : Option Nat := (digit? c).map (16 * n + ·)

/-- Reads a hexadecimal number. -/
def Numeral.readHex (digits : List Char) : Option Nat := digits.foldlM addDigit? 0

/-- Reads a line. -/
def Line.read? : List Char → Option Line
  | '0' :: 'x' :: rest =>
    match rest.dropWhile (· ≠ ':') with
    | ':' :: ' ' :: behind =>
      (Numeral.readHex (rest.takeWhile (· ≠ ':'))).map fun offset ↦
        let text := behind.dropWhile (· = ' ')
        ⟨offset, (behind.length - text.length) / 2, String.ofList text⟩
    | _ => none
  | _ => none

/-- Reads a printed listing, line by line. -/
def Listing.read? (print : String) : Option (List Line) := (textLines print.toList).mapM Line.read?

/-! ### Numerals -/

namespace Numeral

theorem addDigit?_digitChar (n : Nat) {d : Nat} (hd : d < 16) :
    addDigit? n (Nat.digitChar d) = some (16 * n + d) := by
  have hdigit : ∀ d < 16, digit? (Nat.digitChar d) = some d := by decide +kernel
  rw [addDigit?, hdigit d hd, Option.map_some]

/-- Hexadecimal digits are read as the number that they were written for. -/
theorem readHex_toDigits (n : Nat) : readHex (Nat.toDigits 16 n) = some n := by
  rw [readHex]
  induction n using Nat.strongRecOn with
  | ind n ih =>
    by_cases hlt : n < 16
    · rw [Nat.toDigits_of_lt_base hlt, List.foldlM_cons, addDigit?_digitChar 0 hlt]
      simp
    · have hdiv := Nat.div_lt_self (show 0 < n by omega) (show 1 < 16 by decide)
      rw [Nat.toDigits_of_base_le (by decide) (Nat.le_of_not_lt hlt), List.foldlM_append,
        ih (n / 16) hdiv, Option.bind_eq_bind, Option.bind_some, List.foldlM_cons,
        addDigit?_digitChar _ (Nat.mod_lt n (by decide)), Nat.div_add_mod]
      rfl

/-- Zeros in front of a number do not change it. -/
theorem readHex_hex (width n : Nat) : readHex (hex width n).toList = some n := by
  have hzeros (k : Nat) : (List.replicate k '0').foldlM addDigit? 0 = some 0 := by
    have hzero : addDigit? 0 '0' = some 0 := addDigit?_digitChar 0 (show 0 < 16 by decide)
    induction k with
    | zero => rfl
    | succ k ih => rw [List.replicate_succ, List.foldlM_cons, hzero]; exact ih
  rw [hex, String.toList_ofList, List.leftpad, readHex, List.foldlM_append, hzeros]
  exact readHex_toDigits n

/-- There are only digits in a number. -/
theorem ne_of_mem_hex {mark : Char} (hmark : ∀ d < 16, Nat.digitChar d ≠ mark) (width n : Nat) :
    ∀ c ∈ (hex width n).toList, c ≠ mark := by
  intro c hc
  obtain ⟨d, hd, rfl⟩ := exists_digitChar_of_mem_hex hc
  exact hmark d hd

end Numeral

/-! ### Lines -/

/-- A text without line breaks is cut off at the first break behind it. -/
theorem textLines_append_cons {cs : List Char} (h : ∀ c ∈ cs, c ∉ lineBreaks) {mark : Char}
    (hmark : mark ∈ lineBreaks) (rest : List Char) :
    textLines (cs ++ mark :: rest) = cs :: textLines rest := by
  induction cs with
  | nil => rw [List.nil_append, textLines, if_pos hmark]
  | cons c cs ih =>
    rw [List.forall_mem_cons] at h
    rw [List.cons_append, textLines, if_neg h.1, ih h.2]

namespace Line

/-- A line as it is printed, without the line break at its end. -/
def chars (l : Line) : List Char :=
  '0' :: 'x' :: ((Numeral.hex 8 l.offset).toList
    ++ ':' :: ' ' :: (List.replicate (2 * l.indent) ' ' ++ l.text.toList))

theorem toList_render (l : Line) : l.render.toList = l.chars ++ ['\n'] := by
  simp [render, chars, toString, Numeral.offset]

theorem unbroken_chars {l : Line} (h : l.Readable) : ∀ c ∈ l.chars, c ∉ lineBreaks := by
  have hblank : ∀ c ∈ List.replicate (2 * l.indent) ' ', c ∉ lineBreaks := by
    intro c hc
    rw [(List.mem_replicate.1 hc).2]
    decide
  have hhex : ∀ c ∈ (Numeral.hex 8 l.offset).toList, c ∉ lineBreaks := unbroken_hex 8 l.offset
  have htext : ∀ c ∈ l.text.toList, c ∉ lineBreaks := h.unbroken
  simp only [chars, List.forall_mem_cons, List.forall_mem_append]
  exact ⟨by decide, by decide, hhex, by decide, by decide, hblank, htext⟩

/-- A line is read as it was printed. -/
theorem read?_chars {l : Line} (h : l.Readable) : read? l.chars = some l := by
  have hcolon : ∀ c ∈ (Numeral.hex 8 l.offset).toList, decide (c ≠ ':') = true :=
    fun c hc ↦ decide_eq_true (Numeral.ne_of_mem_hex (by decide) 8 l.offset c hc)
  have hblank : ∀ c ∈ List.replicate (2 * l.indent) ' ', decide (c = ' ') = true :=
    fun c hc ↦ decide_eq_true (List.mem_replicate.1 hc).2
  have htext : l.text.toList.dropWhile (· = ' ') = l.text.toList := by
    cases hchars : l.text.toList with
    | nil => rfl
    | cons c cs =>
      have hc : c ≠ ' ' := fun hc ↦ h.unindented (by rw [hchars, hc, List.head?_cons])
      exact List.dropWhile_cons_of_neg (by simpa using hc)
  have hbehind : (List.replicate (2 * l.indent) ' ' ++ l.text.toList).dropWhile (· = ' ')
      = l.text.toList := by
    rw [List.dropWhile_append_of_pos hblank, htext]
  have hlength : (List.replicate (2 * l.indent) ' ' ++ l.text.toList).length - l.text.toList.length
      = 2 * l.indent := by
    rw [List.length_append, List.length_replicate, Nat.add_sub_cancel]
  have hrest := takeWhile_dropWhile_mark hcolon ':' (by simp)
  rw [chars, read?, (hrest _).1, (hrest _).2]
  simp only [Numeral.readHex_hex, Option.map_some, hbehind, hlength, String.ofList_toList]
  rw [Nat.mul_div_cancel_left _ (by decide)]

end Line

namespace Listing

theorem toList_render (l : Listing) :
    l.render.toList = l.lines.toList.flatMap (·.chars ++ ['\n']) := by
  rw [render, String.toList_join, List.flatMap_map]
  exact List.flatMap_congr fun line _ ↦ line.toList_render

/-- A listing is printed with one line of text for each line. -/
theorem textLines_render {l : Listing} (h : ∀ line ∈ l.lines.toList, line.Readable) :
    textLines l.render.toList = l.lines.toList.map Line.chars := by
  rw [toList_render]
  generalize l.lines.toList = lines at h ⊢
  induction lines with
  | nil => rfl
  | cons line lines ih =>
    rw [List.forall_mem_cons] at h
    rw [List.flatMap_cons, List.append_assoc, List.singleton_append,
      textLines_append_cons (Line.unbroken_chars h.1) (by decide), ih h.2, List.map_cons]

/-- **A printed listing can be read back.** -/
theorem read?_render {l : Listing} (h : ∀ line ∈ l.lines.toList, line.Readable) :
    read? l.render = some l.lines.toList := by
  rw [read?, textLines_render h]
  generalize l.lines.toList = lines at h ⊢
  induction lines with
  | nil => rfl
  | cons line lines ih =>
    rw [List.forall_mem_cons] at h
    rw [List.map_cons, List.mapM_cons, Line.read?_chars h.1, ih h.2]
    rfl

end Listing

/-! ## Texts of messages -/

theorem unbroken_glyph {pos : Nat} {c : Char} (h : glyphs[pos]? = some c) :
    Unbroken (String.singleton c) := by
  have hglyphs : glyphs.toList.all (· ∉ lineBreaks) = true := by decide +kernel
  have hmem := Array.mem_toList_iff.2 (Array.mem_of_getElem? h)
  exact unbroken_singleton (of_decide_eq_true (List.all_eq_true.1 hglyphs c hmem))

theorem Token.unbroken_render (t : Token) : Unbroken t.render := by
  have hcolor (value : UInt8) :
      Unbroken (colorNames[value.toNat]?.getD (Numeral.byte value)) := by
    have hnames : ∀ name ∈ colorNames, Unbroken name := by decide +kernel
    exact unbroken_getD (fun name hname ↦ hnames name (List.mem_of_getElem? hname))
      (unbroken_byte value)
  fun_cases render t with
  | case7 b _ _ _ _ _ _ c hc => exact unbroken_glyph hc
  | case8 | case9 | case13 =>
    simp [toString]
    and_intros <;> exact unbroken_ofList (by decide)
  | case10 argument value =>
    simp [toString, hcolor]
    and_intros <;> exact unbroken_ofList (by decide)
  | _ => exact unbroken_ofList (by decide)

theorem unbroken_renderGlyph (b : UInt8) : Unbroken (renderGlyph b) := by
  fun_cases renderGlyph b with
  | case2 _ _ c hc => exact unbroken_glyph hc
  | case4 =>
    simp [toString]
    and_intros <;> exact unbroken_ofList (by decide)
  | _ => exact unbroken_ofList (by decide)

/-- Messages have no line breaks, whatever their bytes are. -/
theorem Generation.unbroken_decodeMessage (g : Generation) (message : Stretch) :
    Unbroken (g.decodeMessage message) := by
  have hmarked : Unbroken (decodeMarked message) :=
    unbroken_join (List.forall_mem_map.2 fun t _ ↦ t.unbroken_render)
  have hplain : Unbroken (decodePlain message) :=
    unbroken_join (List.forall_mem_map.2 fun b _ ↦ unbroken_renderGlyph b)
  cases g with
  | re1 => exact hplain
  | re2 | re3 => exact hmarked

/-- Messages that have no line breaks. -/
def MessageSource.AllUnbroken (source : MessageSource) : Prop :=
  ∀ message? ∈ source, ∀ id, ∀ message ∈ message? id, Unbroken message

theorem Room.allUnbroken_messages (r : Room) : r.messages.AllUnbroken := by
  intro message? hmessage? id message hmessage
  obtain ⟨table?, -, rfl⟩ := List.mem_map.1 hmessage?
  obtain ⟨table, -, hmessage⟩ := Option.bind_eq_some_iff.1 hmessage
  obtain ⟨entry, -, rfl⟩ := Option.map_eq_some_iff.1 hmessage
  exact r.generation.unbroken_decodeMessage entry

/-! ## The lines of a listing -/

theorem Line.readable_of_head? {text : String} {c : Char} (hhead : text.toList.head? = some c)
    (hc : c ≠ ' ') (h : Unbroken text) (offset indent : Nat) :
    Readable ⟨offset, indent, text⟩ := by
  refine ⟨?_, ?_, h⟩
  · rintro rfl
    cases hhead
  · intro hblank
    exact hc (Option.some.inj (hhead.symm.trans hblank))

/-- The text of an instruction can be told from what stands around it. -/
theorem Worded.readable {text : String} (h : Worded text) (offset indent : Nat) :
    Line.Readable ⟨offset, indent, text⟩ := by
  refine ⟨?_, h.head?_ne (by decide), h.2⟩
  rintro rfl
  exact absurd h (by decide)

theorem Wording.unbroken_comments {callee? : Option UInt8}
    {describe : ListingContext → Description} (h : Wording callee? describe)
    {context : ListingContext}
    (hmessages : context.messages.AllUnbroken) :
    ∀ comment ∈ (describe context).comments, Unbroken comment := by
  cases h with
  | line => exact List.forall_mem_nil _
  | flag array bit =>
    intro comment hcomment
    exact (Symbols.flagNote (Option.mem_toList.1 hcomment)).unbroken
  | call intro index =>
    rw [context.comments_describeCall]
    exact List.forall_mem_nil _
  | message id =>
    intro comment hcomment
    obtain ⟨⟨message?, language⟩, hentry, hcomment⟩ := List.mem_filterMap.1 hcomment
    obtain ⟨message, hmessage, rfl⟩ := Option.map_eq_some_iff.1 hcomment
    have hsource : message? ∈ context.messages :=
      List.mem_of_mem_take (List.fst_mem_of_mem_zipIdx hentry)
    have hunbroken := hmessages message? hsource id.toNat message hmessage
    simp [toString, hunbroken]
    and_intros <;> decide

/-- The bytes of an instruction are shown with digits and blanks. -/
theorem Instruction.ne_of_mem_hex {mark : Char} (hdigit : ∀ d < 16, Nat.digitChar d ≠ mark)
    (hx : 'x' ≠ mark) (hblank : ' ' ≠ mark) (i : Instruction) : ∀ c ∈ i.hex.toList, c ≠ mark := by
  have hbyte (b : UInt8) : ∀ c ∈ (Numeral.byte b).toList, c ≠ mark := by
    rw [Numeral.byte, String.toList_append, List.forall_mem_append]
    refine ⟨?_, Numeral.ne_of_mem_hex hdigit 2 b.toNat⟩
    simpa using ⟨hdigit 0 (by decide), hx⟩
  rw [hex]
  induction i.bytes.toList with
  | nil => exact List.forall_mem_nil _
  | cons b bytes ih =>
    cases bytes with
    | nil => exact hbyte b
    | cons b' bytes =>
      rw [List.map_cons, List.map_cons, String.intercalate_cons_cons, String.toList_append,
        String.toList_append, List.forall_mem_append, List.forall_mem_append]
      exact ⟨⟨hbyte b, by simpa using hblank⟩, ih⟩

theorem Instruction.unbroken_hex (i : Instruction) : Unbroken i.hex := by
  intro c hc hbreak
  have hdigit (d : Nat) (hd : d < 16) : Nat.digitChar d ≠ c := by
    rintro rfl
    exact digitChar_notMem_lineBreaks d hd hbreak
  have hother : 'x' ∉ lineBreaks ∧ ' ' ∉ lineBreaks := by decide
  exact i.ne_of_mem_hex hdigit (fun h ↦ hother.1 (h ▸ hbreak)) (fun h ↦ hother.2 (h ▸ hbreak))
    c hc rfl

/-- **The lines of an instruction can be read back.** -/
theorem Visit.readable_lines {style : ListingStyle}
    (hmessages : style.context.messages.AllUnbroken) (v : Visit) :
    ∀ line ∈ v.lines style, line.Readable := by
  have hwording := v.language.wording v.instruction
  have hworded := hwording.worded_text style.context
  have hown : (v.lineAt style.indent (v.text style)).Readable := by
    rw [text]
    split
    · refine Line.readable_of_head? (c := '[') (by simp [toString]) (by decide) ?_ _ _
      simp only [toString, unbroken_append]
      exact ⟨⟨⟨by decide, v.instruction.unbroken_hex⟩, by decide⟩, hworded.2⟩
    · exact hworded.readable _ _
  have hcomment (comment : String) (h : Unbroken comment) :
      (v.lineAt style.indent s!"# {comment}").Readable := by
    refine Line.readable_of_head? (c := '#') (by simp [toString]) (by decide) ?_ _ _
    simp only [toString, unbroken_append]
    exact ⟨by decide, h⟩
  rw [lines_eq, List.forall_mem_cons, List.forall_mem_map]
  exact ⟨hown, fun comment h ↦ hcomment comment (hwording.unbroken_comments hmessages comment h)⟩

/-- The lines around a function can be read back. -/
theorem EntryTable.readable_frame (table : EntryTable) (f : ScriptFunction) :
    (table.opening f).Readable ∧ (table.closing f).Readable := by
  have hopening : Worded (table.frame.1 ++ Numeral.hex 2 f.index) := by
    cases table <;>
      exact worded_ofList_append (by decide) (by decide) (unbroken_hex 2 f.index)
  have hclosing : Worded table.frame.2 := by
    cases table <;> exact (plain_ofList (by decide)).worded
  exact ⟨hopening.readable _ _, hclosing.readable _ _⟩

/-! ## Main statement -/

/-- **A printed listing can be read back.**  No line of the listing of a section is empty, begins
with a blank or has a line break in it.  From the print of a listing with such lines, the offsets,
the indentation and the texts of all lines can be read; there is one line of text for each of them,
and listings that look the same have the same lines. -/
theorem Room.listSection_reads_back {r : Room} (settings : Settings) {kind : ScriptKind}
    {s : ScriptSection} (hs : r.generation.scriptSection kind = .ok s) :
    (∃ listing, r.listSection settings kind = .ok listing ∧
      ∀ line ∈ listing.lines, line.Readable) ∧
      ∀ l : Listing, (∀ line ∈ l.lines, line.Readable) →
        Listing.read? l.render = some l.lines.toList ∧
          (textLines l.render.toList).length = l.lines.size ∧
            ∀ l' : Listing, (∀ line ∈ l'.lines, line.Readable) → l.render = l'.render →
              l.lines = l'.lines := by
  have hread (l : Listing) (hl : ∀ line ∈ l.lines, line.Readable) :
      ∀ line ∈ l.lines.toList, line.Readable :=
    fun line hline ↦ hl line (Array.mem_toList_iff.1 hline)
  obtain ⟨listing, hlisting, hlines, -⟩ := toList_listSection settings hs
  refine ⟨⟨listing, hlisting, fun line hline ↦ ?_⟩, fun l hl ↦ ⟨?_, ?_, fun l' hl' h ↦ ?_⟩⟩
  · rw [← Array.mem_toList_iff, hlines] at hline
    obtain ⟨f, -, hline⟩ := List.mem_flatMap.1 hline
    obtain ⟨hopening, hclosing⟩ := s.table.readable_frame f
    rw [f.toList_lines_list, List.cons_append, List.mem_cons, List.mem_append,
      List.mem_singleton] at hline
    rcases hline with rfl | hline | rfl
    · exact hopening
    · obtain ⟨v, -, hline⟩ := List.mem_flatMap.1 hline
      exact v.readable_lines r.allUnbroken_messages line hline
    · exact hclosing
  · exact Listing.read?_render (hread l hl)
  · rw [Listing.textLines_render (hread l hl), List.length_map, Array.length_toList]
  · have hsame := (Listing.read?_render (hread l hl)).symm.trans
      ((congrArg Listing.read? h).trans (Listing.read?_render (hread l' hl')))
    exact Array.toList_inj.1 (Option.some.inj hsame)

/-- A function that asks for a flag and calls a function that is not there. -/
theorem Room.listSection_reads_back_flag :
    let settings : Settings := { showBytes := true }
    let content : Bytes := #[0x02, 0x00, 0x21, 0x01, 0x00, 0x01, 0x18, 0x07]
    let file := Draft.Layout.file .re2 1
      { offsets := (List.replicate 21 0).set 16 92, body := content }
    ∃ (r : Room) (listing : Listing), r.bytes = file ∧
      r.generation.scriptSection .init = .ok ⟨16, .halfWords, .re2⟩ ∧
        r.listSection settings .init = .ok listing ∧
          (∀ line ∈ listing.lines, line.Readable) ∧
            listing.render = String.join
              ["0x00000002: BEGIN_EVENT event00\n",
                "0x00000002:   [0x21 0x01 0x00 0x01] CK array 0x01 bit 0x00 on\n",
                "0x00000002:   # game.character\n",
                "0x00000006:   [0x18 0x07] GOSUB func07() ; out of range\n",
                "0x00000008: END_EVENT\n"] ∧
              Listing.read? listing.render = some listing.lines.toList ∧
                (textLines listing.render.toList).length = 5 ∧
                  ∀ l' : Listing, (∀ line ∈ l'.lines, line.Readable) →
                    listing.render = l'.render → listing.lines = l'.lines := by
  intro settings content file
  let r : Room :=
    { generation := .re2, bytes := file, offsets := Generation.offsetTable .re2 file,
      offsets_eq := rfl, header_le := by decide +kernel, offsets_valid := by decide +kernel }
  have hs : r.generation.scriptSection .init = .ok ⟨16, .halfWords, .re2⟩ := rfl
  have hprint : ((r.listSection settings .init).map fun l ↦ (l.render, l.lines.size)).toOption
      = some (String.join
        ["0x00000002: BEGIN_EVENT event00\n",
          "0x00000002:   [0x21 0x01 0x00 0x01] CK array 0x01 bit 0x00 on\n",
          "0x00000002:   # game.character\n",
          "0x00000006:   [0x18 0x07] GOSUB func07() ; out of range\n",
          "0x00000008: END_EVENT\n"], 5) := by
    decide +kernel
  obtain ⟨⟨listing, hlisting, hreadable⟩, hback⟩ := listSection_reads_back settings hs
  rw [hlisting] at hprint
  obtain ⟨hrender, hfive⟩ := Prod.mk.inj (Option.some.inj hprint)
  obtain ⟨hread, hlength, hinj⟩ := hback listing hreadable
  exact ⟨r, listing, rfl, hs, hlisting, hreadable, hrender, hread, hlength.trans hfive, hinj⟩

end RoomScript
