import RoomScript.Message.Table
import RoomScript.Proofs.Placement

/-!
# Where messages are cut out

A message lies between two slots of its table: its own, and that of the next message or the end of
the section.  Slots come from the file, and anything can be in them.  They can be missing because
the first one, which tells how many there are, promises too much; they can point past the end of the
section, or to and fro.  `entries_tile` says what comes of it.  A message is there exactly when the
two slots can be read and its own one points into the section, and then it is a piece of the
section, from where the slot points.

Nothing more can be said of tables that point to and fro: two messages can share bytes, and bytes
can be in no message.  But as long as the offsets ascend (`Ascending`), the messages are the section
from the first offset on, cut into pieces: none of its bytes is lost, and none is in two messages.
-/

set_option autoImplicit false

namespace RoomScript

/-! ## Cutting -/

/-- Two neighbouring cuts make one. -/
theorem drop_take_append {a b c : Nat} (hab : a ≤ b) (hbc : b ≤ c) (code : List UInt8) :
    (code.take b).drop a ++ (code.take c).drop b = (code.take c).drop a := by
  obtain ⟨m, rfl⟩ := Nat.exists_eq_add_of_le hab
  obtain ⟨n, rfl⟩ := Nat.exists_eq_add_of_le hbc
  have hm : a + m + n - (a + m) = n := by omega
  have hmn : a + m + n - a = m + n := by omega
  rw [List.drop_take, List.drop_take, List.drop_take, Nat.add_sub_cancel_left, hm, hmn,
    List.take_add, List.drop_drop]

/-- What is cut at places that ascend is all there, from the first place to the last. -/
theorem flatMap_drop_take (code : List UInt8) (cut : Nat → Nat) {n : Nat}
    (h : ∀ i < n, cut i ≤ cut (i + 1)) :
    cut 0 ≤ cut n ∧
      (List.range n).flatMap (fun i ↦ (code.take (cut (i + 1))).drop (cut i))
        = (code.take (cut n)).drop (cut 0) := by
  induction n with
  | zero => simp [List.drop_take]
  | succ n ih =>
    obtain ⟨hle, hall⟩ := ih fun i hi ↦ h i (Nat.lt_succ_of_lt hi)
    have hlast := h n (Nat.lt_succ_self n)
    refine ⟨Nat.le_trans hle hlast, ?_⟩
    rw [List.range_succ, List.flatMap_append, hall, List.flatMap_singleton,
      drop_take_append hle hlast]

namespace MessageTable

variable {table : Bytes}

/-! ## Single messages -/

/-- A message is there if its slots are, and it is what they cut out. -/
theorem entry?_eq_some_iff {id : Nat} {entry : Stretch} :
    entry? table id = some entry ↔
      id < count table ∧ ∃ start stop, slot? table id = some start ∧ stop? table id = some stop ∧
        start ≤ table.size ∧ table.stretch start stop = entry := by
  unfold entry?
  split
  · next hid =>
    simp only [Option.bind_eq_bind, Option.bind_eq_some_iff, Option.ite_none_right_eq_some,
      Option.some.injEq, hid, true_and]
    exact ⟨fun ⟨start, hstart, stop, hstop, hle, heq⟩ ↦ ⟨start, stop, hstart, hstop, hle, heq⟩,
      fun ⟨start, stop, hstart, hstop, hle, heq⟩ ↦ ⟨start, hstart, stop, hstop, hle, heq⟩⟩
  · next hid => simp [hid]

/-- Only the slot of a next message can make the end of a message unknown. -/
theorem isSome_stop?_iff {id : Nat} :
    (stop? table id).isSome ↔ (id + 1 < count table → (slot? table (id + 1)).isSome) := by
  unfold stop?
  split <;> simp [*]

/-- A stretch that starts in a byte string is a piece of it. -/
theorem piece_stretch {start : Nat} (hstart : start ≤ table.size) (stop : Nat) :
    Piece 0 table.toList start (table.stretch start stop).toList := by
  rw [Bytes.toList_stretch, List.drop_take]
  refine ⟨table.toList.take start, (table.toList.drop start).drop (stop - start), ?_, ?_⟩
  · rw [List.take_append_drop, List.take_append_drop]
  · rw [List.length_take, Array.length_toList, Nat.zero_add, Nat.min_eq_left hstart]

/-! ## Tables that ascend -/

/-- A table of at least one message that lies in its section, with offsets that lie there, too, and
none of which is in front of the one before it. -/
structure Ascending (table : Bytes) : Prop where
  count_pos : 1 ≤ count table
  slots_le : 2 * count table ≤ table.size
  offset_le : ∀ id < count table, ∀ start ∈ slot? table id, start ≤ table.size
  ascends : ∀ id < count table - 1, ∀ start ∈ slot? table id, ∀ next ∈ slot? table (id + 1),
    start ≤ next

/-- The place in front of message `id`, which is the place behind the message before it. -/
def cut (table : Bytes) (id : Nat) : Nat :=
  if id < count table then (slot? table id).getD 0 else table.size

namespace Ascending

variable (h : Ascending table)
include h

/-- All slots can be read. -/
theorem slot?_eq {id : Nat} (hid : id < count table) : slot? table id = some (cut table id) := by
  have hslot : 2 * id + 2 ≤ table.size := by
    have hle := h.slots_le
    omega
  rw [cut, if_pos hid, slot?, Bytes.u16?, Bytes.field?_eq_some_window hslot]
  rfl

theorem stop?_eq (id : Nat) : stop? table id = some (cut table (id + 1)) := by
  rw [stop?]
  split
  · next hnext => exact h.slot?_eq hnext
  · next hlast => rw [cut, if_neg hlast]

theorem cut_le (id : Nat) : cut table id ≤ table.size := by
  by_cases hid : id < count table
  · exact h.offset_le id hid _ (h.slot?_eq hid)
  · have hlast : cut table id = table.size := if_neg hid
    exact Nat.le_of_eq hlast

theorem cut_le_cut {id : Nat} (hid : id < count table) : cut table id ≤ cut table (id + 1) := by
  by_cases hnext : id + 1 < count table
  · exact h.ascends id (by omega) _ (h.slot?_eq hid) _ (h.slot?_eq hnext)
  · rw [cut.eq_1 table (id + 1), if_neg hnext]
    exact h.cut_le id

theorem entry?_eq {id : Nat} (hid : id < count table) :
    entry? table id = some (table.stretch (cut table id) (cut table (id + 1))) :=
  entry?_eq_some_iff.2
    ⟨hid, _, _, h.slot?_eq hid, h.stop?_eq id, h.cut_le id, rfl⟩

/-- The messages are the section from the first offset on, cut into pieces. -/
theorem exists_entries :
    ∃ entries : List Stretch, entries.length = count table ∧
      (∀ id, entry? table id = entries[id]?) ∧
        entries.flatMap (·.toList) = table.toList.drop (cut table 0) := by
  refine ⟨(List.range (count table)).map fun id ↦
    table.stretch (cut table id) (cut table (id + 1)), by simp, fun id ↦ ?_, ?_⟩
  · by_cases hid : id < count table
    · rw [List.getElem?_map, List.getElem?_range hid, h.entry?_eq hid, Option.map_some]
    · rw [MessageTable.entry?, if_neg hid, List.getElem?_eq_none (by simpa using hid)]
  · have hcount : cut table (count table) = table.toList.length := by
      rw [cut, if_neg (Nat.lt_irrefl _), Array.length_toList]
    simp only [List.flatMap_map, Bytes.toList_stretch]
    rw [(flatMap_drop_take table.toList (cut table) fun _ hid ↦ h.cut_le_cut hid).2, hcount,
      List.take_length]

end Ascending

/-! ## Main statement -/

/-- **Messages are cut out safely and without gaps.**  Whatever the bytes of a text section are,
message `id` is there exactly when the section has that many messages, its own slot and that of the
next message, if it is not the last one, can be read, and its offset is not past the end of the
section.  The message is then a piece of the section at that offset, up to the next offset as far as
this is behind it and in the section.

If the table ascends, all its messages are there, and one behind the other they are the section from
the first offset to the end. -/
theorem entries_tile (table : Bytes) :
    (∀ id, (MessageTable.entry? table id).isSome ↔
      id < count table ∧ (∃ start, slot? table id = some start ∧ start ≤ table.size) ∧
        (id + 1 < count table → (slot? table (id + 1)).isSome)) ∧
      (∀ id entry, entry? table id = some entry → ∃ start stop, slot? table id = some start ∧
        stop? table id = some stop ∧ Piece 0 table.toList start entry.toList ∧
          entry.toList.length = min stop table.size - start) ∧
      (Ascending table → ∃ (first : Nat) (entries : List Stretch), slot? table 0 = some first ∧
        entries.length = count table ∧ (∀ id, entry? table id = entries[id]?) ∧
          entries.flatMap (·.toList) = table.toList.drop first) := by
  refine ⟨fun id ↦ ?_, fun id entry hentry ↦ ?_, fun h ↦ ?_⟩
  · rw [Option.isSome_iff_exists, ← isSome_stop?_iff, Option.isSome_iff_exists]
    simp only [entry?_eq_some_iff]
    constructor
    · rintro ⟨entry, hid, start, stop, hstart, hstop, hle, -⟩
      exact ⟨hid, ⟨start, hstart, hle⟩, stop, hstop⟩
    · rintro ⟨hid, ⟨start, hstart, hle⟩, stop, hstop⟩
      exact ⟨_, hid, start, stop, hstart, hstop, hle, rfl⟩
  · obtain ⟨-, start, stop, hstart, hstop, hle, rfl⟩ := entry?_eq_some_iff.1 hentry
    refine ⟨start, stop, hstart, hstop, piece_stretch hle stop, ?_⟩
    rw [Subarray.length_toList, Bytes.size_stretch]
  · obtain ⟨entries, hentries⟩ := h.exists_entries
    exact ⟨cut table 0, entries, h.slot?_eq h.count_pos, hentries⟩

/-- A table with an empty message in front, and one that is cut off in the middle of its last slot,
which takes the message before the last one away as well. -/
theorem entries_tile_empty :
    let table : Bytes := #[0x06, 0x00, 0x06, 0x00, 0x08, 0x00, 0x24, 0x45, 0xfe]
    let torn : Bytes := #[0x06, 0x00, 0x00, 0x00, 0x24]
    Ascending table ∧
      (∃ entries : List Stretch, entries.length = 3 ∧ (∀ id, entry? table id = entries[id]?) ∧
        entries[0]?.map (·.toList) = some [] ∧
          entries.flatMap (·.toList) = [0x24, 0x45, 0xfe]) ∧
        1 < count torn ∧ slot? torn 1 = some 0 ∧ ¬ (MessageTable.entry? torn 1).isSome := by
  intro table torn
  have hascending : Ascending table :=
    ⟨by decide +kernel, by decide +kernel, by decide +kernel, by decide +kernel⟩
  obtain ⟨-, -, hall⟩ := entries_tile table
  obtain ⟨first, entries, hfirst, hlength, hentries, hjoined⟩ := hall hascending
  obtain rfl : 6 = first := Option.some.inj (Eq.trans (by decide +kernel) hfirst)
  have hempty : entries[0]?.map (·.toList) = some [] := by
    rw [← hentries, hascending.entry?_eq (by decide +kernel), Option.map_some,
      Bytes.toList_stretch]
    decide +kernel
  obtain ⟨hthere, -, -⟩ := entries_tile torn
  have hnext : ¬ (2 < count torn → (slot? torn 2).isSome) := by decide +kernel
  exact ⟨hascending, ⟨entries, hlength.trans (by decide +kernel), hentries, hempty, hjoined⟩,
    by decide +kernel, by decide +kernel, fun hsome ↦ hnext ((hthere 1).1 hsome).2.2⟩

end MessageTable
end RoomScript
