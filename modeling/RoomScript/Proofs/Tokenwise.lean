import RoomScript.Proofs.MessageEnds

/-!
# Messages are decoded token by token

Some bytes of a message come with an argument, and the argument can be any byte, the end mark
included.  So one cannot look for the end mark to find the end of a message, and a message that is
cut just anywhere does not decode to the texts of its parts.  It can be cut between tokens: the text
of some tokens with anything behind them is made of the texts of the tokens, each decoded alone, and
the text of what is behind (`textOf_written_append`).

What is left when there are no more tokens is a `Tail`: nothing, an end mark with whatever comes
behind it, or markup that lacks its argument.  Every byte string is some tokens and a tail in
exactly one way (`existsUnique_written_append`), so the laws of `textOf_tokenwise` say what each of
them decodes to.
-/

set_option autoImplicit false

namespace RoomScript

theorem Markup.eq_code_of_ofByte? {b : UInt8} {m : Markup} (h : ofByte? b = some m) :
    b = m.code := by
  unfold ofByte? at h
  grind

namespace Token

/-! ## Tokens that can stand inside a message -/

instance (t : Token) : Decidable t.Inner :=
  match t with
  | plain _ => inferInstanceAs (Decidable (_ ∧ _))
  | marked _ argument => inferInstanceAs (Decidable (argument.isSome = true))

/-- A plain byte that can stand inside a message is neither the end mark nor announces markup. -/
theorem inner_plain_iff {b : UInt8} :
    (plain b).Inner ↔ b ∉ [0xf8, 0xf9, 0xfa, 0xfd, 0xfe] := by
  unfold Inner Markup.ofByte? Markup.code messageEnd
  grind

/-- The bytes of a token that can stand inside a message: one that is neither the end mark nor
announces markup, or one that does with any byte behind it. -/
theorem inner_iff_bytes {t : Token} :
    t.Inner ↔ (∃ b ∉ [0xf8, 0xf9, 0xfa, 0xfd, 0xfe], t.bytes = [b]) ∨
      ∃ code ∈ [0xf8, 0xf9, 0xfa, 0xfd], ∃ argument, t.bytes = [code, argument] := by
  match t with
  | plain b =>
    rw [inner_plain_iff]
    constructor
    · exact fun hb ↦ .inl ⟨b, hb, rfl⟩
    · rintro (⟨b', hb, hbytes⟩ | ⟨code, -, a, hbytes⟩)
      · rwa [(List.cons.inj hbytes).1]
      · cases hbytes
  | marked m argument =>
    have hcode : m.code ∈ [0xf8, 0xf9, 0xfa, 0xfd] := by cases m <;> decide
    cases argument with
    | none =>
      refine iff_of_false (by simp [Inner]) ?_
      rintro (⟨b, hb, hbytes⟩ | ⟨code, -, a, hbytes⟩)
      · obtain rfl : m.code = b := (List.cons.inj hbytes).1
        exact hb (List.mem_append_left [0xfe] hcode)
      · cases hbytes
    | some a => exact iff_of_true rfl (.inr ⟨m.code, hcode, a, rfl⟩)

/-! ## Texts of bytes -/

/-- The text of the message that has the given bytes. -/
def textOf (message : List UInt8) : String := decodeMarked (Bytes.whole message.toArray)

theorem textOf_eq (message : List UInt8) : textOf message = text (scan message) := by
  rw [textOf, decodeMarked_eq_text, Bytes.toList_whole]

theorem text_append (tokens tokens' : List Token) :
    text (tokens ++ tokens') = text tokens ++ text tokens' := by
  rw [text, List.map_append, String.join_append]
  rfl

/-! ## Tokens in front of a message -/

section

variable {tokens : List Token} (htokens : ∀ t ∈ tokens, t.Inner)
include htokens

/-- Tokens that were written are cut off again. -/
theorem scan_written_append (rest : List UInt8) :
    scan (written tokens ++ rest) = tokens ++ scan rest := by
  induction tokens with
  | nil => rfl
  | cons t tokens ih =>
    rw [List.forall_mem_cons] at htokens
    have hwritten : written (t :: tokens) = t.bytes ++ written tokens := rfl
    rw [hwritten, List.append_assoc, scan_bytes_append htokens.1, ih htokens.2, List.cons_append]

/-- **Messages are decoded token by token.** -/
theorem textOf_written_append (rest : List UInt8) :
    textOf (written tokens ++ rest) = text tokens ++ textOf rest := by
  rw [textOf_eq, textOf_eq, scan_written_append htokens, text_append]

end

/-- The text of a token is what it decodes to alone. -/
theorem textOf_bytes {t : Token} (ht : t.Inner) : textOf t.bytes = t.render := by
  have hscan := scan_bytes_append ht []
  rw [List.append_nil] at hscan
  rw [textOf_eq, hscan, scan, text_cons]
  exact String.append_empty

/-! ## Behind the last token -/

/-- What can be behind the last token of a message. -/
inductive Tail : List UInt8 → Prop
  | nil : Tail []
  /-- The end mark.  What comes behind it is no part of the message. -/
  | ended (rest : List UInt8) : Tail (messageEnd :: rest)
  /-- Markup that lacks its argument. -/
  | bare (m : Markup) : Tail [m.code]

theorem scan_code (m : Markup) : scan [m.code] = [marked m none] := by
  rw [scan, if_neg m.code_ne_messageEnd, m.ofByte?_code]

/-- There are no more tokens in a tail. -/
theorem Tail.not_inner {rest : List UInt8} (h : Tail rest) : ∀ t ∈ scan rest, ¬ t.Inner := by
  cases h with
  | nil => simp [scan]
  | ended rest => simp [scan_messageEnd]
  | bare m => simp [scan_code, Inner]

theorem exists_written_append (message : List UInt8) :
    ∃ tokens rest, (∀ t ∈ tokens, t.Inner) ∧ Tail rest ∧ message = written tokens ++ rest := by
  fun_induction scan message with
  | case1 => exact ⟨[], [], by simp, .nil, rfl⟩
  | case2 rest => exact ⟨[], _, by simp, .ended rest, rfl⟩
  | case3 b rest hend hplain ih =>
    obtain ⟨tokens, tail, htokens, htail, rfl⟩ := ih
    exact ⟨plain b :: tokens, tail, List.forall_mem_cons.2 ⟨⟨hend, hplain⟩, htokens⟩, htail, rfl⟩
  | case4 b hend m hm =>
    obtain rfl := Markup.eq_code_of_ofByte? hm
    exact ⟨[], _, by simp, .bare m, rfl⟩
  | case5 b hend m hm argument rest ih =>
    obtain rfl := Markup.eq_code_of_ofByte? hm
    obtain ⟨tokens, tail, htokens, htail, rfl⟩ := ih
    exact ⟨marked m (some argument) :: tokens, tail, List.forall_mem_cons.2 ⟨rfl, htokens⟩, htail,
      rfl⟩

/-- The tokens in front of a tail are those that the message is cut into. -/
theorem eq_filter_scan {tokens : List Token} (htokens : ∀ t ∈ tokens, t.Inner)
    {rest : List UInt8} (hrest : Tail rest) :
    tokens = (scan (written tokens ++ rest)).filter (·.Inner) := by
  rw [scan_written_append htokens, List.filter_append,
    List.filter_eq_self.2 (by simpa using htokens),
    List.filter_eq_nil_iff.2 (by simpa using hrest.not_inner), List.append_nil]

/-- **Every message is some tokens and a tail**, in exactly one way. -/
theorem existsUnique_written_append (message : List UInt8) :
    ∃! split : List Token × List UInt8, (∀ t ∈ split.1, t.Inner) ∧ Tail split.2 ∧
      message = written split.1 ++ split.2 := by
  obtain ⟨tokens, rest, htokens, hrest, rfl⟩ := exists_written_append message
  refine ⟨(tokens, rest), ⟨htokens, hrest, rfl⟩, ?_⟩
  rintro ⟨tokens', rest'⟩ ⟨htokens', hrest', heq⟩
  dsimp only at htokens' hrest' heq
  obtain rfl : tokens' = tokens := by
    rw [eq_filter_scan htokens hrest, eq_filter_scan htokens' hrest', heq]
  rw [List.append_right_inj] at heq
  rw [heq]

/-! ## Main statement -/

/-- **Message decoding is token-wise.**  A token is one byte, neither the end mark nor one that
announces markup, or one that announces markup with any argument behind it.  Tokens with anything
behind them decode to the texts of the tokens, each one decoded alone, and the text of what is
behind.  An end mark decodes to nothing, whatever is behind it.  Markup that lacks its argument
decodes as if that were zero, but that of a paragraph is shown as bytes.  As there is no other way
for tokens to end, and only one way to split a message into tokens and a tail, this is what every
message decodes to. -/
theorem textOf_tokenwise :
    (∀ t : Token, t.Inner ↔ (∃ b ∉ [0xf8, 0xf9, 0xfa, 0xfd, 0xfe], t.bytes = [b]) ∨
      ∃ code ∈ [0xf8, 0xf9, 0xfa, 0xfd], ∃ argument, t.bytes = [code, argument]) ∧
      (∀ tokens rest, (∀ t ∈ tokens, t.Inner) →
        textOf (written tokens ++ rest)
          = String.join (tokens.map fun t ↦ textOf t.bytes) ++ textOf rest) ∧
        (∀ t : Token, t.Inner → textOf t.bytes = t.render) ∧
          (∀ rest, textOf (0xfe :: rest) = "") ∧
            (∀ code ∈ [0xf8, 0xf9, 0xfd], textOf [code] = textOf [code, 0]) ∧
              textOf [0xfa] = "[0xfa][0x00]" ∧
                ∀ message, ∃! split : List Token × List UInt8, (∀ t ∈ split.1, t.Inner) ∧
                  Tail split.2 ∧ message = written split.1 ++ split.2 := by
  refine ⟨fun t ↦ inner_iff_bytes, fun tokens rest htokens ↦ ?_, fun t ↦ textOf_bytes,
    fun rest ↦ ?_, fun code hcode ↦ ?_, ?_, existsUnique_written_append⟩
  · rw [textOf_written_append htokens, text,
      List.map_congr_left fun t ht ↦ (textOf_bytes (htokens t ht)).symm]
  · rw [textOf_eq, show (0xfe : UInt8) = messageEnd from rfl, scan_messageEnd]
    rfl
  · simp only [textOf_eq]
    revert code
    decide +kernel
  · rw [textOf_eq]
    decide +kernel

/-- A message with the byte of the end mark as the argument of an item. -/
theorem textOf_tokenwise_argument :
    let tokens : List Token := [.plain 0x24, .marked .item (some 0xfe), .plain 0x45]
    (∀ t ∈ tokens, t.Inner) ∧
      textOf (written tokens ++ [0xfe, 0x2d, 0xfa])
        = String.join ["H", "<item id=\"254\">", "i"] ++ "" := by
  intro tokens
  have htokens : ∀ t ∈ tokens, t.Inner := by decide
  obtain ⟨-, happend, hrender, hend, -⟩ := textOf_tokenwise
  refine ⟨htokens, ?_⟩
  rw [happend tokens _ htokens, hend,
    List.map_congr_left fun t ht ↦ hrender t (htokens t ht)]
  decide +kernel

end Token
end RoomScript
