import RoomScript.Room.Draft
import RoomScript.Proofs.Coverage
import RoomScript.Proofs.Relocation
import RoomScript.Proofs.TableEntries
import RoomScript.Proofs.Transcription

/-!
# A byte listing loses nothing

A listing that shows bytes has them in brackets, in front of each instruction.  Here they are read
back from the printed lines and compared with the section that was listed.

## What is here

* `Line.shownBytes?` — the bytes that a line shows, read from its characters.
  `Listing.instructionLines` are the lines that show some, which comments and the frames of
  functions do not.
* `ScriptFunction.map_instructionLines_list` — what the printed lines of a function say about bytes
  is what the walk said about instructions, in order.
* `EntryTable.piece_code` — the code of a function is a piece of its section, and instructions are
  pieces of the code.  So the bytes of a line are bytes of the section.
* `EntryTable.flatMap_code` — the functions are all of the section behind the table as long as no
  entry lies in front of the one before it: each function is cut off where the next one starts.
* `ScriptSection.flatMap_shownBytes?` — in the later generations the instructions of a function are
  all of its code, and so the bytes of all lines are the section behind the table.
* `Room.listSection_shows_bytes` — both, for the sections of a room.

The first generation is left out of the second part: its table has a length and no offsets, and its
walks can end early, at an opcode that has no length.
-/

set_option autoImplicit false

namespace RoomScript

/-! ## Reading bytes from a line -/

namespace Numeral

/-- The value of a hexadecimal digit. -/
def digit? (c : Char) : Option Nat := (List.range 16).find? (Nat.digitChar · = c)

/-- Reads bytes that are separated by blanks, up to a closing bracket. -/
def readBytes : List Char → Option (List UInt8)
  | '0' :: 'x' :: high :: low :: mark :: rest =>
    (digit? high).bind fun m ↦ (digit? low).bind fun n ↦
      let b := UInt8.ofNat (16 * m + n)
      if mark = ']' then some [b] else if mark = ' ' then (readBytes rest).map (b :: ·) else none
  | _ => none

/-- A byte is written with two digits. -/
theorem exists_digits (b : UInt8) :
    ∃ high low m n, (byte b).toList = ['0', 'x', high, low] ∧ digit? high = some m ∧
      digit? low = some n ∧ UInt8.ofNat (16 * m + n) = b := by
  have hdigits : ∀ k < 256, List.leftpad 2 '0' (Nat.toDigits 16 k)
      = [Nat.digitChar (k / 16), Nat.digitChar (k % 16)] := by decide +kernel
  have hdigit : ∀ d < 16, digit? (Nat.digitChar d) = some d := by decide +kernel
  have hlt : b.toNat < 256 := b.toNat_lt
  have hbyte : (byte b).toList
      = ['0', 'x', Nat.digitChar (b.toNat / 16), Nat.digitChar (b.toNat % 16)] := by
    rw [byte, hex, hdigits _ hlt, String.toList_append, String.toList_ofList,
      String.toList_ofList]
    rfl
  refine ⟨_, _, _, _, hbyte, hdigit _ (by omega), hdigit _ (by omega), ?_⟩
  rw [Nat.div_add_mod, UInt8.ofNat_toNat]

/-- What is behind a byte decides whether there are more. -/
theorem readBytes_byte (b : UInt8) (mark : Char) (rest : List Char) :
    readBytes ((byte b).toList ++ mark :: rest)
      = if mark = ']' then some [b] else if mark = ' ' then (readBytes rest).map (b :: ·)
        else none := by
  obtain ⟨high, low, m, n, hb, hm, hn, hvalue⟩ := exists_digits b
  rw [hb]
  simp only [List.cons_append, List.nil_append, readBytes, hm, hn, hvalue, Option.bind_some]

/-- Bytes are read back as they were written. -/
theorem readBytes_intercalate {bytes : List UInt8} (h : bytes ≠ []) (rest : List Char) :
    readBytes ((String.intercalate " " (bytes.map byte)).toList ++ ']' :: rest) = some bytes := by
  rw [String.toList_intercalate]
  induction bytes with
  | nil => exact absurd rfl h
  | cons b bytes ih =>
    cases bytes with
    | nil =>
      have hone : " ".toList.intercalate (([b].map byte).map String.toList) = (byte b).toList :=
        List.intercalate_singleton
      rw [hone, readBytes_byte]
      rfl
    | cons b' bytes =>
      have ih := ih (List.cons_ne_nil _ _)
      simp only [List.map_cons] at ih ⊢
      rw [List.intercalate_cons_cons, List.append_assoc, List.append_assoc]
      have hmark (cs : List Char) : " ".toList ++ cs = ' ' :: cs := rfl
      rw [hmark, readBytes_byte, ih]
      rfl

end Numeral

namespace Line

/-- Whether a line of a byte listing shows an instruction: other lines have no bracket in front. -/
def showsInstruction (l : Line) : Bool := l.text.toList.head? = some '['

/-- The bytes that a line shows in brackets. -/
def shownBytes? (l : Line) : Option (List UInt8) :=
  match l.text.toList with
  | '[' :: rest => Numeral.readBytes rest
  | _ => none

end Line

namespace Listing

/-- The lines of a byte listing that show an instruction. -/
def instructionLines (l : Listing) : List Line := l.lines.toList.filter Line.showsInstruction

theorem instructionLines_append (l l' : Listing) :
    (l ++ l').instructionLines = l.instructionLines ++ l'.instructionLines := by
  show (l.lines ++ l'.lines).toList.filter _ = _
  rw [Array.toList_append, List.filter_append]
  rfl

end Listing

/-! ## The lines of a transcript -/

namespace Line

/-- A comment shows no instruction. -/
theorem showsInstruction_comment (offset indent : Nat) (comment : String) :
    showsInstruction ⟨offset, indent, s!"# {comment}"⟩ = false := by
  rw [showsInstruction, toList_comment]
  rfl

/-- The line of an instruction shows it, with its bytes. -/
theorem shownBytes?_instruction (offset indent : Nat) {i : Instruction} (hi : i.bytes.toList ≠ [])
    (description : String) :
    let l : Line := ⟨offset, indent, s!"[{i.hex}] {description}"⟩
    l.showsInstruction = true ∧ l.shownBytes? = some i.bytes.toList := by
  refine ⟨?_, ?_⟩
  · rw [showsInstruction, toList_bracketed]
    rfl
  · rw [shownBytes?, toList_bracketed]
    exact Numeral.readBytes_intercalate hi _

end Line

/-- An instruction has one line that shows it, with its offset and its bytes. -/
theorem Visit.filter_lines {style : ListingStyle} (hshow : style.showBytes = true) {v : Visit}
    (hv : v.bytes ≠ []) :
    ((v.lines style).filter Line.showsInstruction).map (fun l ↦ (l.offset, l.shownBytes?))
      = [(v.offset, some v.bytes)] := by
  let d := v.language.describe v.instruction style.context
  let indent := style.indent + v.depth
  have hlines : v.lines style
      = ⟨v.offset, indent, s!"[{v.instruction.hex}] {d.text}"⟩
        :: d.comments.map fun comment ↦ ⟨v.offset, indent, s!"# {comment}"⟩ := by
    rw [lines_eq, text, hshow]
    rfl
  have hcomments : (d.comments.map fun comment ↦
      (⟨v.offset, indent, s!"# {comment}"⟩ : Line)).filter Line.showsInstruction = [] := by
    refine List.filter_eq_nil_iff.2 fun l hl ↦ ?_
    obtain ⟨comment, -, rfl⟩ := List.mem_map.1 hl
    rw [Line.showsInstruction_comment]
    exact Bool.false_ne_true
  obtain ⟨hshows, hshown⟩ := Line.shownBytes?_instruction v.offset indent hv d.text
  rw [hlines, List.filter_cons_of_pos hshows, hcomments, List.map_singleton, hshown]
  rfl

/-! ## Functions -/

/-- Whether a listing shows as many instructions as it reports. -/
def Listing.ShowsAll (l : Listing) : Prop := l.instructionLines.length = l.report.instructions

theorem Listing.ShowsAll.append {l l' : Listing} (h : l.ShowsAll) (h' : l'.ShowsAll) :
    (l ++ l').ShowsAll := by
  rw [ShowsAll, instructionLines_append, List.length_append, h, h']
  rfl

namespace ScriptFunction

variable (f : ScriptFunction) {settings : Settings} (hshow : settings.showBytes = true)
  (lang : Language) (messages : MessageSource) (file : Bytes) (indent : Nat)

/-- What a listing goes through is a part of the function. -/
theorem mem_visits_of_mem_listTrace {v : Visit}
    (hv : v ∈ (f.listTrace settings lang messages file indent).visits) :
    v ∈ (lang.outline (.start f.entryOffset.toNat (f.code file))).visits 0 := by
  rw [listTrace, (Transcript.thorough_observer _).trace_eq] at hv
  rw [← Outline.visits_callbacks]
  exact (Trace.visits_sublist (Trace.upTo_isPrefixOf _ _).sublist).subset hv

include hshow

/-- **A listing of a function shows what it went through**, in order. -/
theorem map_instructionLines_list :
    (f.list settings lang messages file indent).instructionLines.map
        (fun l ↦ (l.offset, l.shownBytes?))
      = (f.listTrace settings lang messages file indent).visits.map
        (fun v ↦ (v.offset, some v.bytes)) := by
  rw [Listing.instructionLines, toList_lines_list, List.filter_flatMap, List.map_flatMap,
    List.map_eq_flatMap]
  refine List.flatMap_congr fun v hv ↦ Visit.filter_lines hshow ?_
  have hpos := (decodes_outline lang _).length_pos_of_mem
    (mem_visits_of_mem_listTrace f lang messages file indent hv)
  rw [Visit.bytes]
  exact List.length_pos_iff.1 hpos

theorem showsAll_list : (f.list settings lang messages file indent).ShowsAll := by
  have hlength := congrArg List.length
    (f.map_instructionLines_list hshow lang messages file indent)
  rw [List.length_map, List.length_map] at hlength
  obtain ⟨-, -, hcount, -⟩ := f.exists_problems_list settings lang messages file indent
  have hthorough := Transcript.thorough_observer (f.listingStyle settings messages indent)
  rw [Listing.ShowsAll, hlength, hcount, listTrace, hthorough.trace_eq, ListingStyle.transcribe,
    hthorough.walk_eq]
  exact Trace.length_visits_upTo _ _

end ScriptFunction

/-! ## Sections -/

/-- The lines around a function show no instructions. -/
theorem EntryTable.not_showsInstruction_frame (table : EntryTable) (f : ScriptFunction) :
    ¬ (table.opening f).showsInstruction = true ∧ ¬ (table.closing f).showsInstruction = true := by
  have hopening : (table.opening f).text.toList.head? ≠ some '[' := by
    rw [opening, String.toList_append]
    cases table <;> exact fun h ↦ by cases h
  have hclosing : (table.closing f).text.toList.head? ≠ some '[' := by
    show table.frame.2.toList.head? ≠ some '['
    cases table <;> decide
  simpa only [Line.showsInstruction, decide_eq_true_eq] using And.intro hopening hclosing

/-- A function shows the same instructions inside its frame. -/
theorem Room.instructionLines_listFunction (settings : Settings) (s : ScriptSection)
    (messages : MessageSource) (file : Bytes) (f : ScriptFunction) :
    let l := listFunction settings s messages file f
    let own := f.list settings s.language messages file 1
    l.instructionLines = own.instructionLines ∧
      l.report.instructions = own.report.instructions := by
  obtain ⟨hopening, hclosing⟩ := s.table.not_showsInstruction_frame f
  have hlines := (toList_listFunction settings s messages file f).1
  intro l own
  refine ⟨?_, Nat.zero_add _⟩
  rw [Listing.instructionLines, hlines, List.cons_append, List.filter_cons_of_neg hopening,
    List.filter_append, List.filter_cons_of_neg hclosing, List.filter_nil, List.append_nil]
  rfl

/-- What is cut out of the code at a place is a piece of it. -/
theorem Piece.take_drop {code : List UInt8} {start : Nat} (h : start ≤ code.length) (len : Nat) :
    Piece 0 code start ((code.drop start).take len) := by
  refine ⟨code.take start, (code.drop start).drop len, ?_, ?_⟩
  · rw [List.take_append_drop, List.take_append_drop]
  · rw [List.length_take, Nat.zero_add, Nat.min_eq_left h]

/-- Parts that are cut out of the code, each one up to the start of the next one, are the code from
the first start on. -/
theorem flatMap_take_drop {code : List UInt8} {n : Nat} (hn : code.length = n)
    {starts entries : List UInt32} {k : Nat} (hentries : starts.drop k = entries)
    (hsorted : entries.Pairwise (· ≤ ·)) :
    ((entries.zipIdx k).flatMap fun (entry, index) ↦ (code.drop (min entry.toNat n)).take
        (min ((starts[index + 1]?.map UInt32.toNat).getD n) n - min entry.toNat n))
      = code.drop (min ((entries.head?.map UInt32.toNat).getD n) n) := by
  induction entries generalizing k with
  | nil => simp [← hn]
  | cons entry rest ih =>
    obtain ⟨hle, hsorted⟩ := List.pairwise_cons.1 hsorted
    have hrest : starts.drop (k + 1) = rest := by
      rw [← List.tail_drop, hentries, List.tail_cons]
    have hnext : starts[k + 1]? = rest.head? := by rw [← hrest, List.head?_drop]
    rw [List.zipIdx_cons, List.flatMap_cons, ih hrest hsorted]
    simp only [hnext, List.head?_cons, Option.map_some, Option.getD_some]
    -- the next start, or the end of the code
    obtain ⟨stop, hstop⟩ : ∃ stop, min ((rest.head?.map UInt32.toNat).getD n) n = stop := ⟨_, rfl⟩
    have hstart : min entry.toNat n ≤ stop := by
      cases rest with
      | nil =>
        have hstop : min n n = stop := hstop
        omega
      | cons next rest =>
        have hnext : entry.toNat ≤ next.toNat := hle next List.mem_cons_self
        have hstop : min next.toNat n = stop := hstop
        omega
    rw [hstop]
    calc (code.drop (min entry.toNat n)).take (stop - min entry.toNat n) ++ code.drop stop
        = (code.drop (min entry.toNat n)).take (stop - min entry.toNat n)
          ++ (code.drop (min entry.toNat n)).drop (stop - min entry.toNat n) := by
          rw [List.drop_drop, Nat.add_sub_cancel' hstart]
      _ = code.drop (min entry.toNat n) := List.take_append_drop _ _

namespace EntryTable

variable {table : EntryTable} {content : Bytes} (hsize : content.size < UInt32.size)
  {f : ScriptFunction}

include hsize

/-- **A function is a piece of its section.** -/
theorem piece_code (hf : f ∈ table.functions content) :
    Piece 0 content.toList f.entryOffset.toNat (f.code content).toList := by
  obtain ⟨⟨entry, index⟩, -, rfl⟩ := List.mem_map.1 hf
  have hstart : min entry.toNat content.size ≤ content.size := Nat.min_le_right _ _
  rw [ScriptFunction.toList_code, Bytes.toList_window, ScriptFunction.entryOffset]
  simp only [UInt32.sub_zero]
  rw [UInt32.toNat_ofNat_of_lt' (Nat.lt_of_le_of_lt hstart hsize)]
  exact .take_drop (by rwa [Array.length_toList]) _

omit hsize in
/-- In a table of offsets, a function ends where the next one starts. -/
theorem stop_of_ne (htable : table ≠ .lengthPrefixed) (size : Nat) (entries : List UInt32)
    (index : Nat) :
    table.stop content size entries.toArray index
      = min ((entries[index + 1]?.map UInt32.toNat).getD size) size := by
  cases table with
  | lengthPrefixed => exact absurd rfl htable
  | halfWords | words => rw [stop, List.getElem?_toArray]

/-- **If no entry is in front of the one before it, the functions are the section behind the
table.** -/
theorem flatMap_code {first : UInt32} {rest : List UInt32} (htable : table ≠ .lengthPrefixed)
    (hentries : table.entries content = first :: rest)
    (hsorted : (first :: rest).Pairwise (· ≤ ·)) :
    (table.functions content).flatMap (fun f ↦ (f.code content).toList)
      = content.toList.drop (min first.toNat content.size) := by
  have hlength : content.toList.length = content.size := Array.length_toList
  have hstarts : (first :: rest).drop 0 = first :: rest := rfl
  rw [functions, List.flatMap_map, hentries]
  refine Eq.trans (List.flatMap_congr ?_) (flatMap_take_drop hlength hstarts hsorted)
  rintro ⟨entry, index⟩ -
  have hstart : min entry.toNat content.size ≤ content.size := Nat.min_le_right _ _
  have hstop := table.stop_le content (first :: rest).toArray index
  rw [ScriptFunction.toList_code, Bytes.toList_window]
  dsimp only
  rw [UInt32.toNat_ofNat_of_lt' (Nat.lt_of_le_of_lt hstart hsize),
    UInt32.toNat_ofNat_of_lt' (show _ < UInt32.size by omega), stop_of_ne htable]

end EntryTable

namespace ScriptSection

variable (s : ScriptSection) {settings : Settings} (messages : MessageSource) (content : Bytes)

/-- The instructions in the listing of a section are those in the listings of its functions. -/
theorem instructionLines_list :
    (s.list settings messages content).instructionLines
      = (s.table.functions content).flatMap fun f ↦
        (f.list settings s.language messages content 1).instructionLines := by
  obtain ⟨hlines, -⟩ := Room.toList_foldl_listFunction settings s messages content
    (s.table.functions content) {}
  have hlines : (s.list settings messages content).lines.toList = _ := hlines
  rw [Listing.instructionLines, hlines, List.filter_append, List.filter_flatMap]
  refine (List.nil_append _).trans (List.flatMap_congr fun f _ ↦ ?_)
  exact (Room.instructionLines_listFunction settings s messages content f).1

theorem showsAll_list (hshow : settings.showBytes = true) :
    (s.list settings messages content).ShowsAll := by
  have hempty : ({} : Listing).ShowsAll := rfl
  refine List.foldlRecOn _ _ hempty fun l hl f _ ↦ hl.append ?_
  obtain ⟨hlines, hcount⟩ := Room.instructionLines_listFunction settings s messages content f
  rw [Listing.ShowsAll, hlines, hcount]
  exact f.showsAll_list hshow s.language messages content 1

/-- Every line that shows an instruction shows bytes of the section, at the place that it says. -/
theorem shownBytes?_of_mem (hsize : content.size < UInt32.size) (hshow : settings.showBytes = true)
    {line : Line} (hline : line ∈ (s.list settings messages content).instructionLines) :
    ∃ bytes, line.shownBytes? = some bytes ∧ bytes ≠ [] ∧
      bytes = (content.toList.drop line.offset).take bytes.length := by
  rw [instructionLines_list] at hline
  obtain ⟨f, hf, hline⟩ := List.mem_flatMap.1 hline
  have hmem := List.mem_map_of_mem (f := fun l : Line ↦ (l.offset, l.shownBytes?)) hline
  rw [f.map_instructionLines_list hshow s.language messages content 1] at hmem
  obtain ⟨v, hv, heq⟩ := List.mem_map.1 hmem
  obtain ⟨hoffset, hshown⟩ := Prod.mk.inj heq
  have hvisit := f.mem_visits_of_mem_listTrace s.language messages content 1 hv
  obtain ⟨hpos, hpiece⟩ := (decodes_outline s.language _).piece_of_mem_visits hvisit
  have hbytes := ((EntryTable.piece_code hsize hf).trans hpiece).eq_take_drop
  rw [Nat.sub_zero] at hbytes
  refine ⟨v.bytes, hshown.symm, List.length_pos_iff.1 hpos, ?_⟩
  rw [← hoffset]
  exact hbytes

/-- **In the later generations, the bytes that are shown are the section behind the table**, unless
an entry is in front of the one before it or the ceiling ends a walk. -/
theorem flatMap_shownBytes? (hsize : content.size < UInt32.size)
    (hshow : settings.showBytes = true) (hlang : s.language = .re2 ∨ s.language = .re3)
    (htable : s.table = .halfWords) (hlimit : content.size ≤ settings.maxInstructions.toNat)
    {first : UInt32} {rest : List UInt32} (hentries : s.table.entries content = first :: rest)
    (hsorted : (first :: rest).Pairwise (· ≤ ·)) :
    (s.list settings messages content).instructionLines.flatMap (fun l ↦ l.shownBytes?.getD [])
      = content.toList.drop (min first.toNat content.size) := by
  have htable' : s.table ≠ .lengthPrefixed := by
    rw [htable]
    decide
  rw [instructionLines_list, List.flatMap_assoc,
    ← EntryTable.flatMap_code hsize htable' hentries hsorted]
  refine List.flatMap_congr fun f hf ↦ ?_
  have hshown := congrArg (List.flatMap fun p ↦ p.2.getD [])
    (f.map_instructionLines_list hshow s.language messages content 1)
  rw [List.flatMap_map, List.flatMap_map] at hshown
  have hcode : (f.code content).size ≤ settings.maxInstructions.toNat := by
    have hstop := (EntryTable.piece_code hsize hf).stop_le
    rw [Subarray.length_toList, Array.length_toList] at hstop
    omega
  refine hshown.trans ?_
  have hthorough := Transcript.thorough_observer (f.listingStyle settings messages 1)
  rw [ScriptFunction.listTrace, hthorough.trace_eq_callbacks s.language _ hcode,
    Outline.visits_callbacks]
  exact (decodes_outline s.language _).flatMap_bytes_eq hlang 0

end ScriptSection

/-! ## Main statement -/

/-- The later generations have tables of half words, and languages in which everything is read. -/
theorem Generation.table_of_scriptSection {g : Generation} (hg : g ≠ .re1) {kind : ScriptKind}
    {s : ScriptSection} (hs : g.scriptSection kind = .ok s) :
    s.table = .halfWords ∧ (s.language = .re2 ∨ s.language = .re3) := by
  rw [scriptSection] at hs
  cases hindex : g.sectionIndex? kind.sectionKind with
  | none => simp [hindex] at hs
  | some index =>
    rw [hindex] at hs
    cases hs
    cases g with
    | re1 => exact absurd rfl hg
    | re2 => exact ⟨rfl, .inl rfl⟩
    | re3 => exact ⟨rfl, .inr rfl⟩

/-- **A byte listing loses nothing.**  A script section is listed with a line for each instruction,
and the bytes that the line shows are bytes of the section, at the offset of the line.  The entries
of its table are those at their places in the section.  In the later generations, if no entry is in
front of the one before it and the ceiling is as high as the section is long, the bytes of all lines
are the section from the first entry on. -/
theorem Room.listSection_shows_bytes {r : Room} (hsize : r.bytes.size < UInt32.size)
    {settings : Settings} (hshow : settings.showBytes = true) {kind : ScriptKind}
    {s : ScriptSection} (hs : r.generation.scriptSection kind = .ok s) :
    let content := (r.sectionBytes? s.index).getD #[]
    ∃ listing, r.listSection settings kind = .ok listing ∧
      listing.instructionLines.length = listing.report.instructions ∧
      (∀ line ∈ listing.instructionLines, ∃ bytes, line.shownBytes? = some bytes ∧ bytes ≠ [] ∧
        bytes = (content.toList.drop line.offset).take bytes.length) ∧
      (∀ i, (s.table.entries content)[i]? = s.table.entryAt? content i) ∧
      (r.generation ≠ .re1 → content.size ≤ settings.maxInstructions.toNat →
        ∀ first rest, s.table.entries content = first :: rest →
          (first :: rest).Pairwise (· ≤ ·) →
            listing.instructionLines.flatMap (fun line ↦ line.shownBytes?.getD [])
              = content.toList.drop (min first.toNat content.size)) := by
  intro content
  have hentries := s.table.getElem?_entries content
  have hlisting : r.listSection settings kind
      = .ok ((r.sectionBytes? s.index).elim {} (s.list settings r.messages)) := by
    rw [listSection_eq hsize, hs]
    rfl
  cases hcontent : r.sectionBytes? s.index with
  | none =>
    have hempty : s.table.entries content = [] := by
      rw [show content = #[] by simp only [content, hcontent, Option.getD_none]]
      cases s.table <;> rfl
    rw [hcontent] at hlisting
    refine ⟨_, hlisting, rfl, fun line hline ↦ ?_, hentries, fun _ _ first rest hfirst ↦ ?_⟩
    · cases hline
    · rw [hempty] at hfirst
      cases hfirst
  | some bytes =>
    have hbytes : content = bytes := by simp only [content, hcontent, Option.getD_some]
    have hsize' : bytes.size < UInt32.size := by
      obtain ⟨offset, size, -, -, rfl⟩ := exists_window hcontent
      rw [Bytes.size_window]
      omega
    rw [hcontent] at hlisting
    rw [hbytes] at hentries ⊢
    refine ⟨_, hlisting, s.showsAll_list r.messages bytes hshow,
      fun line ↦ s.shownBytes?_of_mem r.messages bytes hsize' hshow, hentries,
      fun hg hlimit first rest ↦ ?_⟩
    obtain ⟨htable, hlang⟩ := Generation.table_of_scriptSection hg hs
    exact s.flatMap_shownBytes? r.messages bytes hsize' hshow hlang htable hlimit

/-- A section with two functions: a conditional, and an instruction that is cut short by the end of
the section. -/
theorem Room.listSection_shows_bytes_truncated :
    let settings : Settings := { showBytes := true }
    let script : List UInt8 :=
      [0x06, 0x00, 0x04, 0x00, 0x00, 0x00, 0x08, 0x00, 0x2b, 0x00, 0x05]
    let content : Bytes := ([0x04, 0x00, 0x0c, 0x00] ++ script).toArray
    let file := Draft.Layout.file .re2 1
      { offsets := (List.replicate 21 0).set 16 92, body := content }
    ∃ r : Room, r.bytes = file ∧ r.bytes.size < UInt32.size ∧ settings.showBytes = true ∧
      r.generation.scriptSection .init = .ok ⟨16, .halfWords, .re2⟩ ∧
        r.sectionBytes? 16 = some content ∧ content.size ≤ settings.maxInstructions.toNat ∧
          EntryTable.entries .halfWords content = [4, 12] ∧
            ∃ listing, r.listSection settings .init = .ok listing ∧
              listing.instructionLines.length = 5 ∧
                (∀ line ∈ listing.instructionLines, ∃ bytes, line.shownBytes? = some bytes ∧
                  bytes ≠ [] ∧
                    bytes = (content.toList.drop line.offset).take bytes.length) ∧
                  listing.instructionLines.flatMap (fun line ↦ line.shownBytes?.getD [])
                    = script := by
  intro settings script content file
  let r : Room :=
    { generation := .re2, bytes := file, offsets := Generation.offsetTable .re2 file,
      offsets_eq := rfl, header_le := by decide +kernel, offsets_valid := by decide +kernel }
  have hsize : r.bytes.size < UInt32.size := by decide +kernel
  have hcontent : r.sectionBytes? 16 = some content := by decide +kernel
  have hlimit : content.size ≤ settings.maxInstructions.toNat := by decide +kernel
  have hentries : EntryTable.entries .halfWords content = [4, 12] := by decide +kernel
  have hshow : settings.showBytes = true := rfl
  have hs : r.generation.scriptSection .init = .ok ⟨16, .halfWords, .re2⟩ := rfl
  have hfive : ((r.listSection settings .init).map (·.report.instructions)).toOption = some 5 := by
    decide +kernel
  obtain ⟨listing, hlisting, hcount, hlines, -, hall⟩ := listSection_shows_bytes hsize hshow hs
  rw [hlisting] at hfive
  rw [hcontent] at hlines hall
  refine ⟨r, rfl, hsize, hshow, hs, hcontent, hlimit, hentries, listing, hlisting,
    hcount.trans (Option.some.inj hfive), hlines, ?_⟩
  exact hall (by decide) hlimit 4 [12] hentries (by decide)

end RoomScript
