import RoomScript.Message.Table
import RoomScript.Proofs.Packing

/-!
# Messages come back as they were written

A message table says where its messages start; how many there are and where each one ends has to be
inferred.  The number comes from the first offset, which points behind the table.  A message ends
where the next one starts, and the last one where the section does, which is inferred in turn from
the section table of the room.

For a table that was packed all this is right (`entry?_packTable`), whatever the messages: empty
ones are two equal offsets, and the table of a single message has no second offset at all.  With
what is known of packed rooms it follows that the messages of a language are those that were put
into its text section, and that there are no others (`message?_build`).
-/

set_option autoImplicit false

namespace RoomScript

/-! ## Messages are their bytes -/

/-- The text of a message depends on nothing but its bytes. -/
theorem Generation.decodeMessage_congr (g : Generation) {message message' : Stretch}
    (h : message.toList = message'.toList) :
    g.decodeMessage message = g.decodeMessage message' := by
  match g with
  | re1 => simp only [decodeMessage, decodePlain, Stretch.toList_bytes, h]
  | re2 | re3 => simp only [decodeMessage, decodeMarked, Token.read_eq_scan, h]

/-- Every language of a game has a text section. -/
theorem Generation.exists_textSection? {g : Generation} {language : Nat}
    (h : language < g.languageCount) : ∃ index, g.textSection? language = some index := by
  match g, language with
  | re1, 0 | re2, 0 | re2, 1 | re3, 0 | re3, 1 => exact ⟨_, rfl⟩
  | re1, _ + 1 | re2, _ + 2 | re3, _ + 2 =>
    simp only [languageCount] at h
    omega

/-! ## A packed table -/

namespace MessageTable

open Bytes (packTable starts joined)

section

variable {messages : List Bytes} (hsize : (packTable 2 messages).size < UInt16.size)
include hsize

/-- The slots of a packed table have the places of its messages. -/
theorem slot?_packTable {id offset : Nat}
    (h : (starts (2 * messages.length) messages)[id]? = some offset) :
    slot? (packTable 2 messages) id = some offset := by
  have hid : id < messages.length := by
    have hlt := (List.getElem?_eq_some_iff.1 h).1
    rwa [Bytes.length_starts] at hlt
  obtain ⟨offset', hoffset', hpiece, -⟩ :=
    Bytes.exists_start (List.getElem?_eq_getElem hid) (2 * messages.length)
  obtain rfl : offset' = offset := Option.some.inj (hoffset'.symm.trans h)
  have hle := hpiece.stop_le
  rw [← Bytes.size_packTable] at hle
  have hlt : offset' < UInt16.size := by omega
  rw [slot?, Bytes.u16?_of_piece (Bytes.piece_word h) hlt, Option.map_some,
    UInt16.toNat_ofNat_of_lt' hlt]

/-- The first offset tells how many messages there are. -/
theorem count_packTable : count (packTable 2 messages) = messages.length := by
  by_cases hmessages : messages = []
  · subst hmessages
    rfl
  · obtain ⟨message, rest, rfl⟩ := List.exists_cons_of_ne_nil hmessages
    have hslot : slot? (packTable 2 (message :: rest)) 0
        = some (2 * (message :: rest).length) := slot?_packTable hsize rfl
    obtain ⟨word, hword, hlength⟩ := Option.map_eq_some_iff.1 hslot
    rw [count, hword, Option.map_some, Option.getD_some, hlength]
    omega

/-- A message ends where the next one starts, the last one where the table ends. -/
theorem stop?_packTable {id : Nat} (hid : id < messages.length) :
    stop? (packTable 2 messages) id
      = some ((starts (2 * messages.length) messages)[id + 1]?.getD
          (2 * messages.length + (joined messages).length)) := by
  rw [stop?, count_packTable hsize]
  by_cases hnext : id + 1 < messages.length
  · obtain ⟨offset, hoffset⟩ : ∃ offset,
        (starts (2 * messages.length) messages)[id + 1]? = some offset :=
      ⟨_, List.getElem?_eq_getElem (by rwa [Bytes.length_starts])⟩
    rw [if_pos hnext, slot?_packTable hsize hoffset, hoffset, Option.getD_some]
  · have hlength : (starts (2 * messages.length) messages).length ≤ id + 1 := by
      rw [Bytes.length_starts]
      omega
    rw [if_neg hnext, List.getElem?_eq_none hlength, Option.getD_none, Bytes.size_packTable]

/-- **A packed table has the messages that it was made of**, and no others. -/
theorem entry?_packTable (id : Nat) :
    (MessageTable.entry? (packTable 2 messages) id).map (·.toList)
      = messages[id]?.map Array.toList := by
  unfold entry?
  rw [count_packTable hsize]
  by_cases hid : id < messages.length
  · obtain ⟨offset, hoffset, hpiece, hstop⟩ :=
      Bytes.exists_start (List.getElem?_eq_getElem hid) (2 * messages.length)
    have htable := Bytes.piece_part hpiece
    have hle : offset ≤ (packTable 2 messages).size := by
      have hend := htable.stop_le
      rw [Nat.zero_add, Array.length_toList] at hend
      exact Nat.le_of_add_right_le hend
    have hbytes : ((packTable 2 messages).stretch offset (offset + messages[id].size)).toList
        = messages[id].toList := by
      have hcut := htable.eq_take_drop
      rw [Nat.sub_zero, Array.length_toList] at hcut
      rw [Bytes.toList_stretch, List.drop_take, Nat.add_sub_cancel_left, ← hcut]
    rw [if_pos hid, slot?_packTable hsize hoffset, stop?_packTable hsize hid, hstop,
      List.getElem?_eq_getElem hid]
    simp only [Option.bind_eq_bind, Option.bind_some, if_pos hle, Option.map_some, hbytes]
  · rw [if_neg hid, List.getElem?_eq_none (Nat.le_of_not_lt hid)]
    rfl

/-- The texts of a packed table. -/
theorem tableMessage?_packTable (g : Generation) (id : Nat) :
    g.tableMessage? (packTable 2 messages) id
      = messages[id]?.map fun message ↦ g.decodeMessage message.whole := by
  have hentry := entry?_packTable hsize id
  rw [Generation.tableMessage?]
  cases hfound : entry? (packTable 2 messages) id with
  | none =>
    rw [hfound, Option.map_none, eq_comm, Option.map_eq_none_iff] at hentry
    rw [hentry]
    rfl
  | some entry =>
    rw [hfound, Option.map_some, eq_comm, Option.map_eq_some_iff] at hentry
    obtain ⟨message, hmessage, hbytes⟩ := hentry
    rw [hmessage, Option.map_some, Option.map_some, g.decodeMessage_congr]
    rw [Bytes.toList_whole, hbytes]

end

end MessageTable

/-! ## Rooms with messages -/

namespace Room

/-- The draft `d` has `messages`, by language: the table of a language that has any is among the
sections, and a language that has none has no table. -/
structure Draft.HasMessages (d : Draft) (messages : (language : Nat) → List Bytes) : Prop where
  mem_of_ne_nil : ∀ language index, d.generation.textSection? language = some index →
    messages language ≠ [] → (index, Bytes.packTable 2 (messages language)) ∈ d.sections
  isEmpty_of_eq_nil : ∀ language index, d.generation.textSection? language = some index →
    messages language = [] → ∀ content, (index, content) ∈ d.sections → content.isEmpty
  /-- The offsets of a table fit into its slots. -/
  size_lt : ∀ language < d.generation.languageCount,
    (Bytes.packTable 2 (messages language)).size < UInt16.size

/-- **Messages come back as they were written.**  Take a draft in which no section comes twice and
whose text sections are packed tables of messages, of at most 65535 bytes each, beside whatever
other sections there are.  If the section table has entries for all of them and there is room, it is
packed; and then message `id` of a language is the text of exactly the string with that number, for
every language of the game and every number that has a string.  There is no message under any other
number, in a language without a table, or in a language that the game does not have. -/
theorem message?_build {d : Draft} {messages : (language : Nat) → List Bytes}
    (hnodup : (d.sections.map Prod.fst).Nodup) (hmessages : d.HasMessages messages) :
    ((∀ entry ∈ d.sections, entry.1 < d.generation.sectionCount) → d.size < UInt32.size →
        ∃ r, d.build = .ok r) ∧
      ∀ r, d.build = .ok r → ∀ language id,
        r.messages.message? language id =
          if language < d.generation.languageCount then
            (messages language)[id]?.map fun message ↦ d.generation.decodeMessage message.whole
          else none := by
  constructor
  · intro hindex hsize
    obtain ⟨r, hr, -⟩ := Draft.exists_build hindex hsize
    exact ⟨r, hr⟩
  · intro r hr language id
    have hindex := Draft.lt_of_build_eq_ok hr
    obtain ⟨hgeneration, hoffsets, hbytes⟩ := Draft.eq_of_build_eq_ok hr
    rw [r.message?_messages, messageTable?, hgeneration]
    by_cases hlanguage : language < d.generation.languageCount
    · obtain ⟨index, hsection⟩ := Generation.exists_textSection? hlanguage
      rw [if_pos hlanguage, hsection, Option.bind_some]
      by_cases hnil : messages language = []
      · have hnone : r.sectionBytes? index = none := by
          refine Option.eq_none_iff_forall_ne_some.2 fun content hcontent ↦ ?_
          obtain ⟨hmem, hne⟩ :=
            (Draft.sectionBytes?_eq_some_iff hnodup hindex hoffsets hbytes).1 hcontent
          rw [hmessages.isEmpty_of_eq_nil language index hsection hnil content hmem] at hne
          cases hne
        rw [hnone, hnil]
        rfl
      · have hne : (Bytes.packTable 2 (messages language)).isEmpty = false := by
          have hpos := List.length_pos_of_ne_nil hnil
          rw [← Bool.not_eq_true, Array.isEmpty_iff_size_eq_zero, Bytes.size_packTable]
          omega
        have hsome := (Draft.sectionBytes?_eq_some_iff hnodup hindex hoffsets hbytes).2
          ⟨hmessages.mem_of_ne_nil language index hsection hnil, hne⟩
        rw [hsome, Option.bind_some]
        exact MessageTable.tableMessage?_packTable (hmessages.size_lt language hlanguage) _ id
    · rw [if_neg hlanguage, Generation.textSection?_eq_none (Nat.le_of_not_lt hlanguage)]
      rfl

/-- A room whose first language has an empty message between two others, and whose second language
has a single message. -/
theorem message?_build_empty :
    let messages : (language : Nat) → List Bytes
      | 0 => [#[0x24, 0x45, 0xfe], #[], #[0x0d, 0xfe, 0x2d]]
      | 1 => [#[0x2c, 0x45, 0xfe]]
      | _ => []
    let d : Draft :=
      { generation := .re2
        sections := [(17, #[0x02, 0x00]), (13, Bytes.packTable 2 (messages 0)),
          (14, Bytes.packTable 2 (messages 1)), (16, #[0x02, 0x00])] }
    (d.sections.map Prod.fst).Nodup ∧ d.HasMessages messages ∧
      ∃ r, d.build = .ok r ∧ r.messages.message? 0 0 = some "Hi" ∧
        r.messages.message? 0 1 = some "" ∧ r.messages.message? 0 2 = some "1" ∧
          r.messages.message? 0 3 = none ∧ r.messages.message? 1 0 = some "Pi" ∧
            r.messages.message? 1 1 = none ∧ r.messages.message? 2 0 = none := by
  intro messages d
  have hnodup : (d.sections.map Prod.fst).Nodup := by decide
  have hmessages : d.HasMessages messages := by
    refine ⟨?_, ?_, ?_⟩
    · intro language index hsection _
      match language with
      | 0 | 1 =>
        cases hsection
        decide
      | _ + 2 => cases hsection
    · intro language index hsection hnil
      match language with
      | 0 | 1 => cases hnil
      | _ + 2 => cases hsection
    · decide
  obtain ⟨hbuild, htexts⟩ := message?_build hnodup hmessages
  obtain ⟨r, hr⟩ := hbuild (by decide) (by decide +kernel)
  have hmarked (message : Bytes) : d.generation.decodeMessage message.whole
      = String.join ((Token.scan message.toList).map Token.render) := by
    simp only [d, Generation.decodeMessage, decodeMarked, Token.read_eq_scan, Bytes.toList_whole]
  refine ⟨hnodup, hmessages, r, hr, ?_⟩
  simp only [htexts r hr, hmarked]
  decide +kernel

end Room
end RoomScript
