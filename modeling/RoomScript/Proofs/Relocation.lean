import Mathlib.Data.List.Basic
import RoomScript.Room.Draft
import RoomScript.ScriptSection

/-!
# Scripts do not depend on where they are

The functions of a section are found at absolute places of a room file, and what is said about them
is relative to the section again.  This file says that the detour through the file leaves no trace:
a section is listed, and runs, as if its bytes were a file of their own that starts with its table
(`listSection_eq`, `scriptSection_eq`).  The one thing that a listing takes from elsewhere in the
room is the messages.

So rooms that agree on the bytes of a section agree on what it does, wherever it is and whatever
else is in the files (`scripts_relocate`).

A function of a section of its own is moved to its place in the file (`ScriptFunction.move`), and
the functions of a room are those of its section, moved (`Room.functions_eq`).  Moving keeps the
offset of a function in its section, because the same word is added and subtracted; and it keeps the
code, because a function does not reach beyond the end of its section (`EntryTable.le_size_of_mem`),
and the section does not reach beyond the end of the file.  Offsets are words of 32 bits, so
sections have to end below 4 GiB.
-/

set_option autoImplicit false

namespace RoomScript

/-! ## Moving a function -/

namespace ScriptFunction

/-- A function, with the start of its section moved to `offset` in a file. -/
def move (f : ScriptFunction) (offset : Nat) : ScriptFunction :=
  { f with
    sectionOffset := f.sectionOffset + UInt32.ofNat offset
    baseOffset := f.baseOffset + UInt32.ofNat offset }

variable {f : ScriptFunction} {offset size : Nat} {file : Bytes}

/-- Two functions, each in a file of its own, that differ in nothing but where they are in it. -/
structure Agrees (f : ScriptFunction) (file : Bytes) (f' : ScriptFunction) (file' : Bytes) :
    Prop where
  index : f.index = f'.index
  entryOffset : f.entryOffset = f'.entryOffset
  byteLength : f.byteLength = f'.byteLength
  entries : f.entries = f'.entries
  toList : (f.code file).toList = (f'.code file').toList

theorem entryOffset_move (f : ScriptFunction) (offset : Nat) :
    (f.move offset).entryOffset = f.entryOffset := by
  rw [entryOffset, entryOffset, move]
  grind

/-- Moving does not wrap around if the function starts below 4 GiB then. -/
theorem toNat_baseOffset_move (hlt : offset + f.baseOffset.toNat < UInt32.size) :
    (f.move offset).baseOffset.toNat = offset + f.baseOffset.toNat := by
  rw [move, UInt32.toNat_add, UInt32.toNat_ofNat_of_lt' (Nat.lt_of_add_right_lt hlt),
    Nat.add_comm f.baseOffset.toNat]
  exact Nat.mod_eq_of_lt hlt

/-- A function keeps its code if the file goes on at least as far as the function does. -/
theorem toList_code_move (hend : offset + (file.window offset size).size < UInt32.size)
    (hstop : f.baseOffset.toNat + f.byteLength.toNat ≤ (file.window offset size).size) :
    ((f.move offset).code file).toList = (f.code (file.window offset size)).toList := by
  have hlt : offset + f.baseOffset.toNat < UInt32.size := by omega
  have hbase := toNat_baseOffset_move hlt
  rw [Bytes.size_window] at hend hstop
  rw [toList_code, toList_code, hbase, Bytes.toList_window, Bytes.toList_window,
    Bytes.toList_window, List.drop_take, List.drop_drop, List.take_take]
  congr 1
  show f.byteLength.toNat = min f.byteLength.toNat (size - f.baseOffset.toNat)
  omega

/-- A function that is moved along with its section stays what it was. -/
theorem agrees_move (hend : offset + (file.window offset size).size < UInt32.size)
    (hstop : f.baseOffset.toNat + f.byteLength.toNat ≤ (file.window offset size).size) :
    (f.move offset).Agrees file f (file.window offset size) where
  index := rfl
  entryOffset := f.entryOffset_move offset
  byteLength := rfl
  entries := rfl
  toList := toList_code_move hend hstop

end ScriptFunction

/-! ## The functions of a section -/

namespace EntryTable

/-- The functions of a section that is a file of its own. -/
def functions (table : EntryTable) (content : Bytes) : List ScriptFunction :=
  let entries := table.entries content
  entries.zipIdx.map fun (entry, index) ↦
    let start := min entry.toNat content.size
    { index
      baseOffset := UInt32.ofNat start
      byteLength := UInt32.ofNat (table.stop content content.size entries.toArray index - start)
      entries }

theorem stop_le (table : EntryTable) (content : Bytes) (entries : Array UInt32) (index : Nat) :
    table.stop content content.size entries index ≤ content.size := Nat.min_le_right _ _

/-- A function does not reach beyond the end of its section. -/
theorem le_size_of_mem {table : EntryTable} {content : Bytes} (hsize : content.size < UInt32.size)
    {f : ScriptFunction} (hf : f ∈ table.functions content) :
    f.baseOffset.toNat + f.byteLength.toNat ≤ content.size := by
  obtain ⟨⟨entry, index⟩, -, rfl⟩ := List.mem_map.1 hf
  have hstop := table.stop_le content (table.entries content).toArray index
  dsimp only
  rw [UInt32.toNat_ofNat_of_lt' (Nat.lt_of_le_of_lt (Nat.min_le_right _ _) hsize),
    UInt32.toNat_ofNat_of_lt' (show _ < UInt32.size by omega)]
  omega

end EntryTable

/-- The functions of a section of a room are those of the section, moved to where it is. -/
theorem Room.functions_eq {r : Room} {index offset : Nat} {content : Bytes}
    (hoffset : r.sectionOffset? index = some offset)
    (hcontent : r.sectionBytes? index = some content) (table : EntryTable) :
    r.functions index table = (table.functions content).map (·.move offset) := by
  rw [functions, hoffset, hcontent, EntryTable.functions, List.map_map]
  refine List.map_congr_left fun ⟨entry, i⟩ _ ↦ ?_
  simp only [Function.comp_apply, ScriptFunction.move, UInt32.ofNat_add, UInt32.zero_add,
    UInt32.add_comm]

/-- A section that is absent has no functions. -/
theorem Room.functions_of_sectionBytes?_eq_none {r : Room} {index : Nat}
    (h : r.sectionBytes? index = none) (table : EntryTable) : r.functions index table = [] := by
  rw [functions, h]
  cases r.sectionOffset? index with
  | none => rfl
  | some _ => rfl

/-- A section that is present is a part of the file. -/
theorem Room.exists_window {r : Room} {index : Nat} {content : Bytes}
    (h : r.sectionBytes? index = some content) :
    ∃ offset size, r.sectionOffset? index = some offset ∧ offset ≤ r.bytes.size ∧
      content = r.bytes.window offset size := by
  obtain ⟨offset, hoffset, rfl⟩ := Option.map_eq_some_iff.1 h
  exact ⟨offset, _, hoffset, Nat.le_of_lt (lt_of_sectionOffset? hoffset).2, rfl⟩

/-- To go through the functions of a room is to go through those of the section, if it does not
matter where they are. -/
theorem Room.foldl_functions {β : Type} {F : β → ScriptFunction → β}
    {G : Bytes → β → ScriptFunction → β} {r : Room} (hsize : r.bytes.size < UInt32.size)
    (h : ∀ content b f f', f'.Agrees r.bytes f content → F b f' = G content b f) (index : Nat)
    (table : EntryTable) (b : β) :
    (r.functions index table).foldl F b
      = (r.sectionBytes? index).elim b fun content ↦
          (table.functions content).foldl (G content) b := by
  cases hcontent : r.sectionBytes? index with
  | none =>
    rw [functions_of_sectionBytes?_eq_none hcontent]
    rfl
  | some content =>
    obtain ⟨offset, size, hoffset, hle, rfl⟩ := exists_window hcontent
    have hend : offset + (r.bytes.window offset size).size < UInt32.size := by
      rw [Bytes.size_window]
      omega
    have hcontentSize := Nat.lt_of_le_of_lt (Nat.le_add_left _ _) hend
    rw [functions_eq hoffset hcontent, List.foldl_map]
    refine List.foldl_ext _ _ b fun b f hf ↦ h _ b f _ ?_
    exact ScriptFunction.agrees_move hend (EntryTable.le_size_of_mem hcontentSize hf)

/-! ## Listing and running a section -/

namespace ScriptSection

/-- Lists a section that is a file of its own. -/
def list (s : ScriptSection) (settings : Settings) (messages : MessageSource) (content : Bytes) :
    Listing :=
  (s.table.functions content).foldl
    (fun listing f ↦ listing ++ Room.listFunction settings s messages content f) {}

/-- Runs a section that is a file of its own. -/
def run (s : ScriptSection) (settings : Settings) (e : Execution) (content : Bytes) : Execution :=
  (s.table.functions content).foldl
    (fun e f ↦ e.function settings s.language content f) e

end ScriptSection

namespace ScriptFunction.Agrees

variable {f f' : ScriptFunction} {file file' : Bytes} (h : f.Agrees file f' file')
include h

theorem listFunction_eq (settings : Settings) (s : ScriptSection) (messages : MessageSource) :
    Room.listFunction settings s messages file f
      = Room.listFunction settings s messages file' f' := by
  have hlist : f.list settings s.language messages file 1
      = f'.list settings s.language messages file' 1 := by
    simp only [ScriptFunction.list, ListingStyle.transcribe, h.entries, h.entryOffset]
    rw [Observer.walk_congr _ _ _ _ h.toList]
  rw [Room.listFunction, Room.listFunction, hlist, h.index, h.entryOffset, h.byteLength]

theorem function_eq (e : Execution) (settings : Settings) (lang : Language) :
    e.function settings lang file f = e.function settings lang file' f' := by
  rw [Execution.function, Execution.function, Execution.script, Execution.script, h.entryOffset,
    Observer.walk_congr _ _ _ _ h.toList]

end ScriptFunction.Agrees

/-- **A section is listed as if it were a file of its own**, with the messages of the room. -/
theorem Room.listSection_eq {r : Room} (hsize : r.bytes.size < UInt32.size) (settings : Settings)
    (kind : ScriptKind) :
    r.listSection settings kind = (r.generation.scriptSection kind).map fun s ↦
      (r.sectionBytes? s.index).elim {} (s.list settings r.messages) := by
  have hfunctions (s : ScriptSection) := foldl_functions hsize
    (fun content (listing : Listing) f f' hagrees ↦ congrArg (listing ++ ·)
      (hagrees.listFunction_eq settings s r.messages)) s.index s.table {}
  simp only [listSection, hfunctions]
  rfl

/-- **A section runs as if it were a file of its own.** -/
theorem Execution.scriptSection_eq {r : Room} (hsize : r.bytes.size < UInt32.size) (e : Execution)
    (settings : Settings) (kind : ScriptKind) :
    e.scriptSection settings r kind = (r.generation.scriptSection kind).map fun s ↦
      (r.sectionBytes? s.index).elim e (s.run settings e) := by
  have hfunctions (s : ScriptSection) := Room.foldl_functions hsize
    (fun content (e : Execution) f f' hagrees ↦ hagrees.function_eq e settings s.language)
    s.index s.table e
  simp only [scriptSection, hfunctions]
  rfl

/-! ## Main statement -/

/-- Rooms that agree on their text sections have the same messages. -/
theorem Room.messages_congr {r r' : Room} (hgeneration : r.generation = r'.generation)
    (htexts : ∀ language index, r.generation.textSection? language = some index →
      r.sectionBytes? index = r'.sectionBytes? index) :
    r.messages = r'.messages := by
  have htable (language : Nat) : r.messageTable? language = r'.messageTable? language := by
    rw [messageTable?, messageTable?, ← hgeneration]
    cases hindex : r.generation.textSection? language with
    | none => rfl
    | some index => exact htexts language index hindex
  rw [messages, messages, messageTables, messageTables, ← hgeneration, funext htable]

/-- **Scripts do not depend on where they are.**  If two rooms of a generation agree on the bytes of
their text sections, and on those of the section of a kind of scripts, then the section is listed
and runs the same in both, wherever it is and whatever else is in the files.  If they agree on the
init and the run script, they are loaded the same. -/
theorem scripts_relocate {r r' : Room} (hgeneration : r.generation = r'.generation)
    (hsize : r.bytes.size < UInt32.size) (hsize' : r'.bytes.size < UInt32.size)
    (htexts : ∀ language index, r.generation.textSection? language = some index →
      r.sectionBytes? index = r'.sectionBytes? index) (settings : Settings) :
    let Same (kind : ScriptKind) : Prop := ∀ s, r.generation.scriptSection kind = .ok s →
      r.sectionBytes? s.index = r'.sectionBytes? s.index
    (∀ kind, Same kind → r.listSection settings kind = r'.listSection settings kind ∧
      ∀ e : Execution, e.scriptSection settings r kind = e.scriptSection settings r' kind) ∧
      (Same .init → Same .run → ∀ e : Execution, e.load settings r = e.load settings r') := by
  intro Same
  have hrun (kind : ScriptKind) (hsame : Same kind) (e : Execution) :
      e.scriptSection settings r kind = e.scriptSection settings r' kind := by
    rw [Execution.scriptSection_eq hsize, Execution.scriptSection_eq hsize', ← hgeneration]
    cases hs : r.generation.scriptSection kind with
    | error => rfl
    | ok s =>
      have hbytes := hsame s hs
      simp only [Except.map, hbytes]
  refine ⟨fun kind hsame ↦ ⟨?_, hrun kind hsame⟩, fun hinitSame hrunSame e ↦ ?_⟩
  · rw [Room.listSection_eq hsize, Room.listSection_eq hsize', ← hgeneration,
      ← Room.messages_congr hgeneration htexts]
    cases hs : r.generation.scriptSection kind with
    | error => rfl
    | ok s =>
      have hbytes := hsame s hs
      simp only [Except.map, hbytes]
  · rw [Execution.load, Execution.load, hrun .init hinitSame, funext (hrun .run hrunSame)]

/-- A room with an init script and a text, and a room that has another section in front of them, and
has them the other way round. -/
theorem scripts_relocate_swapped :
    let script : Bytes := #[0x02, 0x00, 0x2b, 0x00, 0x05, 0x00, 0x00, 0x00, 0x01, 0x00]
    let text : Bytes := #[0x02, 0x00, 0x3d, 0xfe]
    let absent : List Nat := List.replicate 21 0
    let file := Room.Draft.Layout.file .re2 1
      { offsets := (absent.set 16 92).set 13 102, body := script ++ text }
    let file' := Room.Draft.Layout.file .re2 1
      { offsets := ((absent.set 6 92).set 13 95).set 16 99, body := #[1, 2, 3] ++ text ++ script }
    ∃ r r' : Room, r.bytes = file ∧ r'.bytes = file' ∧ r.generation = r'.generation ∧
      r.sectionOffset? 16 = some 92 ∧ r'.sectionOffset? 16 = some 99 ∧
        r.sectionBytes? 16 = some script ∧ r'.sectionBytes? 16 = some script ∧
          r.listSection {} .init = r'.listSection {} .init ∧
            (∀ e : Execution, e.load {} r = e.load {} r') ∧
              ((({ room := {} } : Execution).load {} r).map fun e ↦ e.room.messages).toOption
                = some #[5] := by
  intro script text absent file file'
  let r : Room :=
    { generation := .re2, bytes := file, offsets := Generation.offsetTable .re2 file,
      offsets_eq := rfl, header_le := by decide +kernel, offsets_valid := by decide +kernel }
  let r' : Room :=
    { generation := .re2, bytes := file', offsets := Generation.offsetTable .re2 file',
      offsets_eq := rfl, header_le := by decide +kernel, offsets_valid := by decide +kernel }
  have htexts (language index : Nat)
      (hindex : Generation.textSection? .re2 language = some index) :
      r.sectionBytes? index = r'.sectionBytes? index := by
    match language with
    | 0 | 1 =>
      cases hindex
      decide +kernel
    | _ + 2 => cases hindex
  have hscript : r.sectionBytes? 16 = some script := by decide +kernel
  have hscript' : r'.sectionBytes? 16 = some script := by decide +kernel
  have hrun : r.sectionBytes? 17 = r'.sectionBytes? 17 := by decide +kernel
  have hgeneration : r.generation = r'.generation := rfl
  obtain ⟨hsection, hload⟩ :=
    scripts_relocate hgeneration (by decide +kernel) (by decide +kernel) htexts {}
  refine ⟨r, r', rfl, rfl, hgeneration, by decide +kernel, by decide +kernel, hscript, hscript',
    (hsection .init ?_).1, hload ?_ ?_, by decide +kernel⟩
  · rintro s ⟨⟩
    exact hscript.trans hscript'.symm
  · rintro s ⟨⟩
    exact hscript.trans hscript'.symm
  · rintro s ⟨⟩
    exact hrun

end RoomScript
