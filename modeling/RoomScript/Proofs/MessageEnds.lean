import RoomScript.Proofs.Messages

/-!
# Where a message is over

A message of the later generations has an end mark of its own, so its offset would be enough to find
it: two messages could share their bytes, and a table need not be in order.  The table is read in
the same way for all generations, though, and a message is cut off where the slot of the next one
points.  Mostly the cut is behind the end mark and makes no difference.  If it is in front of it, a
part of the message is lost, and if the next slot points no further than the own one, all of it is.

What a cut leaves of a text is a question about tokens (`Token.text_scan_take_eq_iff`).  A cut
behind the last token spares the text, and one in front of it does not; in between there is only a
cut that takes the argument of the last token away, which may read like an argument that is missing
(`Token.SparedBy`).

So `Room.message?_eq_rest_iff` says which messages of a room are the ones that their own end marks
give, whatever the table is like.  Messages that share an offset are not
(`Room.message?_ne_of_shared_offset`).
-/

set_option autoImplicit false

namespace RoomScript

namespace Token

/-! ## Texts of tokens -/

/-- The bytes that some tokens take up, one behind the other. -/
def written (tokens : List Token) : List UInt8 := tokens.flatMap bytes

/-- The text of some tokens. -/
def text (tokens : List Token) : String := String.join (tokens.map render)

theorem text_cons (t : Token) (tokens : List Token) :
    text (t :: tokens) = t.render ++ text tokens := String.join_cons

theorem length_written_cons (t : Token) (tokens : List Token) :
    (written (t :: tokens)).length = t.bytes.length + (written tokens).length := by
  rw [written, List.flatMap_cons, List.length_append]
  rfl

theorem length_bytes_pos (t : Token) : 0 < t.bytes.length := by
  match t with
  | plain _ => exact Nat.one_pos
  | marked _ _ => exact Nat.succ_pos _

/-- There is no token without bytes. -/
theorem eq_nil_of_written {tokens : List Token} (h : (written tokens).length = 0) :
    tokens = [] := by
  match tokens with
  | [] => rfl
  | t :: tokens =>
    have hpos := t.length_bytes_pos
    rw [length_written_cons] at h
    omega

/-- Every token has a text. -/
theorem render_ne_empty (t : Token) : t.render ≠ "" := by
  match t with
  | plain b =>
    rw [render]
    repeat' split
    all_goals simp [ToString.toString, String.append_eq_empty_iff]
  | marked .item argument => simp [render, ToString.toString, String.append_eq_empty_iff]
  | marked .color argument => simp [render, ToString.toString, String.append_eq_empty_iff]
  | marked .paragraph none => decide
  | marked .paragraph (some a) =>
    rw [render.eq_def]
    dsimp only
    split <;> simp_all [ToString.toString, String.append_eq_empty_iff]
  | marked .pause _ => simp [render]

theorem text_eq_empty_iff {tokens : List Token} : text tokens = "" ↔ tokens = [] := by
  match tokens with
  | [] => simp [text]
  | t :: tokens => simp [text_cons, String.append_eq_empty_iff, render_ne_empty]

/-! ## Arguments that are missing

Markup whose argument is missing has a text, too.  None of the texts that it has with an argument is
a part of that text, so a text that was cut off in front of an argument shows it. -/

theorem four_le_length_byte (b : UInt8) : 4 ≤ (Numeral.byte b).length := by
  have hmark : "0x".length = 2 := by decide
  simp only [Numeral.byte, Numeral.hex, List.leftpad, String.length_append, hmark,
    String.length_ofList, List.length_append, List.length_replicate]
  omega

/-- The name of a color, or the number of one without a name, does not begin like the name of
another color. -/
theorem render_color_eq_of_isPrefixOf {a : UInt8}
    (h : (marked .color (some a)).render.toList <+: (marked .color none).render.toList) :
    (marked .color (some a)).render = (marked .color none).render := by
  have hsome : (marked .color (some a)).render
      = "<text color=\"" ++ colorNames[a.toNat]?.getD (Numeral.byte a) ++ "\">" := rfl
  have hnone : (marked .color none).render = "<text color=\"" ++ "white" ++ "\">" := by decide
  rw [hsome, hnone] at h ⊢
  simp only [String.toList_append, List.append_assoc, List.prefix_append_right_inj] at h
  match hname : colorNames[a.toNat]? with
  | none => simp [hname, Numeral.byte] at h
  | some name =>
    have hmem : name ∈ colorNames := List.mem_of_getElem? hname
    simp only [colorNames, List.mem_cons, List.not_mem_nil, or_false] at hmem
    rw [hname] at h
    rcases hmem with rfl | rfl | rfl | rfl | rfl | rfl <;> revert h <;> simp

theorem render_eq_of_isPrefixOf (m : Markup) (a : UInt8)
    (h : (marked m (some a)).render.toList <+: (marked m none).render.toList) :
    (marked m (some a)).render = (marked m none).render := by
  match m with
  | .pause => rfl
  | .color => exact render_color_eq_of_isPrefixOf h
  | .item =>
    have hsome : (marked .item (some a)).render = "<item id=\"" ++ a.toNat.repr ++ "\">" := rfl
    have hnone : (marked .item none).render = "<item id=\"" ++ "0" ++ "\">" := by decide
    have hpos : 0 < a.toNat.repr.length := Nat.length_repr_pos
    have hone : "0".length = 1 := by decide
    refine String.toList_inj.1 (h.eq_of_length_le ?_)
    rw [hsome, hnone]
    simp only [String.length_toList, String.length_append]
    omega
  | .paragraph =>
    by_cases hspecial : a = 0 ∨ a = 1
    · rcases hspecial with rfl | rfl <;> revert h <;> decide
    · rw [not_or] at hspecial
      have hsome : (marked .paragraph (some a)).render = "[0xfa][" ++ Numeral.byte a ++ "]" := by
        simp [render, hspecial, ToString.toString]
      have hnone : (marked .paragraph none).render = "[0xfa][" ++ "0x00" ++ "]" := by decide
      have hfour : "0x00".length = 4 := by decide
      have hlength := four_le_length_byte a
      refine String.toList_inj.1 (h.eq_of_length_le ?_)
      rw [hsome, hnone]
      simp only [String.length_toList, String.length_append]
      omega

/-! ## Messages that are cut off -/

/-- Whether a cut behind `n` bytes spares the text of a message: it is behind all tokens, or it
takes away nothing but an argument that reads like one that is missing. -/
def SparedBy (n : Nat) (tokens : List Token) : Prop :=
  (written tokens).length ≤ n ∨
    ∃ front m a, tokens = front ++ [marked m (some a)] ∧ (written tokens).length = n + 1 ∧
      (marked m (some a)).render = (marked m none).render

/-- A cut in front of a message spares it if there is nothing to it. -/
theorem sparedBy_zero {tokens : List Token} : SparedBy 0 tokens ↔ tokens = [] := by
  constructor
  · rintro (hlength | ⟨front, m, a, rfl, hlength, -⟩)
    · exact eq_nil_of_written (Nat.le_zero.1 hlength)
    · simp [written, bytes] at hlength
  · rintro rfl
    exact .inl (Nat.le_refl 0)

/-- A cut between markup and its argument spares a message if nothing comes after it and the
argument does not matter. -/
theorem sparedBy_one_marked {m : Markup} {a : UInt8} {tokens : List Token} :
    SparedBy 1 (marked m (some a) :: tokens) ↔
      tokens = [] ∧ (marked m (some a)).render = (marked m none).render := by
  have hbytes : (marked m (some a)).bytes.length = 2 := rfl
  constructor
  · rintro (hlength | ⟨front, m', a', htokens, hlength, hrender⟩)
    · rw [length_written_cons, hbytes] at hlength
      omega
    · rw [length_written_cons, hbytes] at hlength
      obtain rfl : tokens = [] := eq_nil_of_written (by omega)
      obtain ⟨-, hlast⟩ :=
        (List.append_eq_singleton_iff.1 htokens.symm).resolve_right (by simp)
      obtain ⟨rfl, rfl⟩ : m' = m ∧ a' = a := by simpa using hlast
      exact ⟨rfl, hrender⟩
  · rintro ⟨rfl, hrender⟩
    exact .inr ⟨[], m, a, rfl, rfl, hrender⟩

/-- A cut behind the first token spares a message if it spares the rest. -/
theorem sparedBy_cons {t : Token} {tokens : List Token} {n k : Nat} (hn : n = t.bytes.length + k) :
    SparedBy n (t :: tokens) ↔ SparedBy k tokens := by
  rw [SparedBy, SparedBy, length_written_cons, hn, Nat.add_le_add_iff_left, Nat.add_assoc,
    Nat.add_left_cancel_iff]
  refine or_congr_right ⟨?_, ?_⟩
  · rintro ⟨front, m, a, htokens, hlength, hrender⟩
    match front with
    | [] =>
      obtain ⟨-, rfl⟩ := List.cons.inj htokens
      simp [written] at hlength
    | _ :: front =>
      obtain ⟨-, rfl⟩ := List.cons.inj htokens
      exact ⟨front, m, a, rfl, hlength, hrender⟩
  · rintro ⟨front, m, a, rfl, hrest⟩
    exact ⟨t :: front, m, a, rfl, hrest⟩

/-- **What a cut leaves of a text.**  It is the same text if and only if the cut spares the tokens
of the message. -/
theorem text_scan_take_eq_iff (message : List UInt8) (n : Nat) :
    text (scan (message.take n)) = text (scan message) ↔ SparedBy n (scan message) := by
  have hzero (tokens : List Token) : text (scan []) = text tokens ↔ SparedBy 0 tokens := by
    rw [sparedBy_zero, eq_comm]
    exact text_eq_empty_iff
  fun_induction scan message generalizing n with
  | case1 => simp [scan, SparedBy, written]
  | case2 rest => cases n <;> simp [scan, SparedBy, written]
  | case3 b rest hend hplain ih =>
    cases n with
    | zero => exact hzero _
    | succ n =>
      rw [List.take_succ_cons, scan, if_neg hend, hplain, text_cons, text_cons,
        String.append_right_inj, sparedBy_cons (Nat.add_comm n 1)]
      exact ih n
  | case4 b hend m hm =>
    cases n with
    | zero => exact hzero _
    | succ n =>
      have hscan : scan ([b].take (n + 1)) = [marked m none] := by
        rw [List.take_succ_cons, List.take_nil, scan, if_neg hend, hm]
      rw [hscan]
      exact iff_of_true rfl (.inl (Nat.le_add_left 1 n))
  | case5 b hend m hm argument rest ih =>
    obtain rfl | rfl | ⟨n, rfl⟩ : n = 0 ∨ n = 1 ∨ ∃ k, n = k + 2 := by
      rcases n with _ | _ | n <;> simp
    · exact hzero _
    · have hscan : scan ((b :: argument :: rest).take 1) = [marked m none] := by
        rw [List.take_succ_cons, List.take_zero, scan, if_neg hend, hm]
      have htext : text [marked m none] = (marked m none).render := by simp [text]
      rw [hscan, htext, text_cons, sparedBy_one_marked]
      constructor
      · intro heq
        have hrender := render_eq_of_isPrefixOf m argument
          ⟨(text (scan rest)).toList, by rw [heq, String.toList_append]⟩
        rw [hrender] at heq
        exact ⟨text_eq_empty_iff.1 (by simpa using heq.symm), hrender⟩
      · rintro ⟨hnil, hrender⟩
        rw [hrender, text_eq_empty_iff.2 hnil, String.append_empty]
    · rw [List.take_succ_cons, List.take_succ_cons, scan, if_neg hend, hm]
      simp only [text_cons, String.append_right_inj]
      rw [sparedBy_cons (Nat.add_comm n 2)]
      exact ih n

end Token

/-! ## Messages of a room -/

theorem decodeMarked_eq_text (message : Stretch) :
    decodeMarked message = Token.text (Token.scan message.toList) := by
  rw [decodeMarked, Token.read_eq_scan]
  rfl

namespace Room

/-- Every byte string but the empty one can be the text section of a room. -/
theorem exists_messageTable (table : Bytes) (hne : table.isEmpty = false)
    (hsize : Generation.headerLength .re2 + table.size < UInt32.size) :
    ∃ r : Room, r.generation = .re2 ∧ r.messageTable? 0 = some table := by
  let d : Draft := { generation := .re2, sections := [(13, table)] }
  have hindex : ∀ entry ∈ d.sections, entry.1 < d.generation.sectionCount := by
    simp [d, Generation.sectionCount]
  have hnodup : (d.sections.map Prod.fst).Nodup := List.nodup_singleton 13
  have hd : d.size < UInt32.size := by simpa [d, Draft.size, Draft.contents] using hsize
  obtain ⟨r, -, hgeneration, hoffsets, hbytes⟩ := Draft.exists_build hindex hd
  refine ⟨r, hgeneration, ?_⟩
  rw [messageTable?, hgeneration]
  exact (Draft.sectionBytes?_eq_some_iff hnodup hindex hoffsets hbytes).2
    ⟨List.mem_singleton_self _, hne⟩

section

variable {r : Room} (hgeneration : r.generation ≠ .re1) {language id start : Nat} {table : Bytes}
  (htable : r.messageTable? language = some table) (hid : id < MessageTable.count table)
  (hslot : MessageTable.slot? table id = some start) (hstart : start ≤ table.size)
include hgeneration htable hid hslot hstart

/-- A message of a later generation is the text between its offset and that of the next one. -/
theorem message?_of_slot :
    r.messages.message? language id
      = (MessageTable.stop? table id).map fun stop ↦ decodeMarked (table.stretch start stop) := by
  rw [r.message?_messages, htable, Option.bind_some, Generation.tableMessage?,
    MessageTable.entry?, if_pos hid, hslot]
  cases MessageTable.stop? table id with
  | none => rfl
  | some stop =>
    simp only [Option.bind_eq_bind, Option.bind_some, if_pos hstart, Option.map_some]
    cases hg : r.generation with
    | re1 => exact absurd hg hgeneration
    | re2 => rfl
    | re3 => rfl

/-- **Which messages end at their own end marks.**  Take a message of a later generation that has a
slot which can be read, with an offset inside the text section.  If there is a next message and its
slot cannot be read, the message is missing.  Otherwise it is the text of the section from its
offset up to that of the next message, or to the end of the section for the last one.  It is the
text of the section from its offset on, which ends with the end mark of the message, if and only if
the cut spares it. -/
theorem message?_eq_rest_iff :
    (∀ stop, MessageTable.stop? table id = some stop →
      r.messages.message? language id = some (decodeMarked (table.stretch start stop)) ∧
        (r.messages.message? language id
            = some (decodeMarked (table.stretch start table.size)) ↔
          Token.SparedBy (stop - start) (Token.scan (table.toList.drop start)))) ∧
      (MessageTable.stop? table id = none → r.messages.message? language id = none) := by
  have hrest : (table.stretch start table.size).toList = table.toList.drop start := by
    rw [Bytes.toList_stretch, ← Array.length_toList, List.take_length]
  rw [message?_of_slot hgeneration htable hid hslot hstart]
  refine ⟨fun stop hstop ↦ ?_, fun hnone ↦ by rw [hnone]; rfl⟩
  rw [hstop, Option.map_some, Option.some.injEq, Option.some.injEq, decodeMarked_eq_text,
    decodeMarked_eq_text, hrest, Bytes.toList_stretch, List.drop_take]
  exact ⟨rfl, Token.text_scan_take_eq_iff _ _⟩

end

/-- A table that is not in order: the next offset is behind the end mark of the first message, and
in front of the second one. -/
theorem message?_eq_rest_iff_unordered :
    let table : Bytes :=
      #[0x06, 0x00, 0x09, 0x00, 0x06, 0x00, 0x24, 0x45, 0xfe, 0x2c, 0x45, 0xfe]
    ∃ r : Room, r.generation ≠ .re1 ∧ r.messageTable? 0 = some table ∧
      MessageTable.count table = 3 ∧ MessageTable.slot? table 0 = some 6 ∧
        MessageTable.slot? table 1 = some 9 ∧ 9 ≤ table.size ∧
          r.messages.message? 0 0 = some (decodeMarked (table.stretch 6 table.size)) ∧
            r.messages.message? 0 1 ≠ some (decodeMarked (table.stretch 9 table.size)) := by
  intro table
  obtain ⟨r, hgeneration, htable⟩ := exists_messageTable table rfl (by decide +kernel)
  have hne : r.generation ≠ .re1 := by
    rw [hgeneration]
    decide
  have hcount : MessageTable.count table = 3 := by decide +kernel
  have hslot0 : MessageTable.slot? table 0 = some 6 := by decide +kernel
  have hslot1 : MessageTable.slot? table 1 = some 9 := by decide +kernel
  have hfirst := message?_eq_rest_iff hne htable (by rw [hcount]; decide) hslot0 (by decide)
  have hsecond := message?_eq_rest_iff hne htable (by rw [hcount]; decide) hslot1 (by decide)
  refine ⟨r, hne, htable, hcount, hslot0, hslot1, by decide,
    (hfirst.1 9 (by decide +kernel)).2.2 ?_, fun h ↦ ?_⟩
  · exact .inl (by decide +kernel)
  · rcases (hsecond.1 6 (by decide +kernel)).2.1 h with h | ⟨front, m, a, htokens, hlength, -⟩
    · revert h
      decide +kernel
    · revert hlength
      decide +kernel

/-- Of two messages that share an offset, the first one is empty. -/
theorem message?_ne_of_shared_offset :
    ¬ ∀ (r : Room) (language id start : Nat) (table : Bytes), r.generation ≠ .re1 →
      r.messageTable? language = some table → id < MessageTable.count table →
        MessageTable.slot? table id = some start → start ≤ table.size →
          r.messages.message? language id
            = some (decodeMarked (table.stretch start table.size)) := by
  intro h
  let table : Bytes := #[0x04, 0x00, 0x04, 0x00, 0x24, 0x45, 0xfe]
  obtain ⟨r, hgeneration, htable⟩ := exists_messageTable table rfl (by decide +kernel)
  have hne : r.generation ≠ .re1 := by
    rw [hgeneration]
    decide
  have hid : 0 < MessageTable.count table := by decide +kernel
  have hslot : MessageTable.slot? table 0 = some 4 := by decide +kernel
  have hstop : MessageTable.stop? table 0 = some 4 := by decide +kernel
  have hrest := h r 0 0 4 table hne htable hid hslot (by decide)
  rw [message?_of_slot hne htable hid hslot (by decide), hstop, Option.map_some,
    Option.some.injEq, decodeMarked_eq_text, decodeMarked_eq_text, Bytes.toList_stretch,
    Bytes.toList_stretch] at hrest
  revert hrest
  decide +kernel

end Room
end RoomScript
