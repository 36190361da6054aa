import RoomScript.Proofs.Confinement
import RoomScript.Proofs.PrintedLines

/-!
# Calls resolve or are reported

A line about a call has the number of the function that is called, and the offset that the call goes
to.  Numbers are bytes of the script, or zero where the script ends too early, and they can be out
of range; then the line says so, and there is a problem in the report.  The lines and the problems
are collected apart from each other, but they fit: from the lines alone one can tell which problems
there are, and in which order.

For this, calls are read from lines (`Line.call?`), with or without bytes in front.  Only
instructions that call a function have lines that begin like calls (`Wording`), and these can all be
read:

* `Wording.call?_eq`: the call in a line is the one that the instruction makes, by its opcode and
  its bytes (`Language.callee?`).
* `Wording.resolves`: the problem of a description can be told from the call in its line.

From there it goes to the lines of an instruction (`Visit.filterMap_callPlace?_lines`,
`Visit.calls_resolve`), to a function (`ScriptFunction.filterMap_callPlace?_list`,
`ScriptFunction.calls_resolve`) and to a section (`Room.listSection_calls`).  What is added on the
way is that comments, the frames of functions and the problems of walks have nothing to do with
calls.
-/

set_option autoImplicit false

namespace RoomScript

/-! ## Reading calls -/

/-- A call as a line shows it. -/
structure FunctionCall where
  index : Nat
  /-- The offset that the call goes to.  A call that is out of range has none. -/
  target? : Option Nat
  deriving DecidableEq, Repr

namespace FunctionCall

/-- Reads the offset behind a call. -/
def readTarget? : List Char → Option Nat
  | ' ' :: '[' :: '0' :: 'x' :: target => Numeral.readHex (target.takeWhile (· ≠ ']'))
  | _ => none

/-- Reads what is behind the introduction of a call. -/
def read? : List Char → Option FunctionCall
  | 'f' :: 'u' :: 'n' :: 'c' :: high :: low :: '(' :: ')' :: rest =>
    (Numeral.readHex [high, low]).map fun index ↦ ⟨index, readTarget? rest⟩
  | _ => none

end FunctionCall

namespace Line

/-- What a line says behind the bytes in brackets, if it has any. -/
def wording (l : Line) : String :=
  match l.text.toList with
  | '[' :: rest => String.ofList ((rest.dropWhile (· ≠ ']')).drop 2)
  | _ => l.text

/-- The call that a line is about.  An event has the number of its slot in front of the function. -/
def call? (l : Line) : Option FunctionCall :=
  match l.wording.toList with
  | 'G' :: 'O' :: 'S' :: 'U' :: 'B' :: ' ' :: rest => FunctionCall.read? rest
  | 'E' :: 'V' :: 'T' :: '_' :: 'E' :: 'X' :: 'E' :: 'C' :: ' ' :: rest =>
    FunctionCall.read? (rest.drop 5)
  | _ => none

/-- The offset of a line about a call, and the number of the function that is called. -/
def callPlace? (l : Line) : Option (Nat × Nat) := l.call?.map (l.offset, ·.index)

/-- The problem of a line about a call, in a section with `count` functions. -/
def outOfRange? (count : Nat) (l : Line) : Option Problem :=
  (l.call?.filter (count ≤ ·.index)).map fun call ↦ .functionOutOfRange call.index count

/-- A line that does not begin as calls do is about no call. -/
theorem call?_eq_none {l : Line} (h : ¬ Calls l.wording) : l.call? = none := by
  rw [call?]
  split
  · next rest heq =>
    exact absurd ⟨_, List.mem_cons_self, rest, heq.symm⟩ h
  · next rest heq =>
    exact absurd ⟨_, List.mem_cons_of_mem _ List.mem_cons_self, rest, heq.symm⟩ h
  · rfl

end Line

/-! ## Lines about calls -/

theorem exists_toList_hex2 (b : UInt8) : ∃ high low, (hex2 b).toList = [high, low] := by
  obtain ⟨high, low, -, -, hb, -⟩ := Numeral.exists_digits b
  have hbyte : (Numeral.byte b).toList = '0' :: 'x' :: (hex2 b).toList := String.toList_append
  rw [hbyte] at hb
  exact ⟨high, low, List.cons.inj (List.cons.inj hb).2 |>.2⟩

namespace FunctionCall

/-- The number of a function is read as it was written. -/
theorem read?_func (index : UInt8) (rest : List Char) :
    read? ('f' :: 'u' :: 'n' :: 'c' :: ((hex2 index).toList ++ '(' :: ')' :: rest))
      = some ⟨index.toNat, readTarget? rest⟩ := by
  obtain ⟨high, low, hchars⟩ := exists_toList_hex2 index
  have hindex : Numeral.readHex [high, low] = some index.toNat := by
    rw [← hchars]
    exact Numeral.readHex_hex 2 index.toNat
  rw [hchars, List.cons_append, List.cons_append, List.nil_append, read?, hindex,
    Option.map_some]

/-- The offset behind a call is read as it was written. -/
theorem readTarget?_offset (n : Nat) :
    readTarget? (' ' :: '[' :: '0' :: 'x' :: ((Numeral.hex 8 n).toList ++ [']'])) = some n := by
  have hbracket : ∀ c ∈ (Numeral.hex 8 n).toList, decide (c ≠ ']') = true :=
    fun c hc ↦ decide_eq_true (Numeral.ne_of_mem_hex (by decide) 8 n c hc)
  rw [readTarget?, (takeWhile_dropWhile_mark hbracket ']' (by simp) []).1, Numeral.readHex_hex]

end FunctionCall

namespace ListingContext

variable (context : ListingContext)

/-- A call has the offset of its function, if there is one. -/
theorem toList_describeCall (intro : String) (index : UInt8) :
    ∃ rest, (context.describeCall intro index).text.toList
        = intro.toList ++ 'f' :: 'u' :: 'n' :: 'c' :: ((hex2 index).toList ++ '(' :: ')' :: rest) ∧
      FunctionCall.readTarget? rest = context.entries[index.toNat]?.map UInt32.toNat := by
  rw [describeCall, callTarget]
  cases htarget : context.entries[index.toNat]? with
  | none => exact ⟨" ; out of range".toList, by simp [toString], by decide⟩
  | some target =>
    exact ⟨_, by simp [toString, Numeral.offset], FunctionCall.readTarget?_offset target.toNat⟩

/-- A call is a problem if there is no function with its number. -/
theorem problem?_describeCall (intro : String) (index : UInt8) :
    (context.describeCall intro index).problem?
      = if context.entries.length ≤ index.toNat then
          some (.functionOutOfRange index.toNat context.entries.length)
        else none := by
  rw [describeCall, callTarget]
  cases htarget : context.entries[index.toNat]? with
  | none => rw [if_pos (List.getElem?_eq_none_iff.1 htarget)]
  | some target =>
    have hlt := (List.getElem?_eq_some_iff.1 htarget).1
    rw [if_neg (Nat.not_le.2 hlt)]

end ListingContext

/-- The call in a line is read as it was written. -/
theorem Line.call?_describeCall (context : ListingContext) (intro : CallIntro) (index : UInt8)
    {l : Line} (h : l.wording = (context.describeCall intro.text index).text) :
    l.call? = some ⟨index.toNat, context.entries[index.toNat]?.map UInt32.toNat⟩ := by
  obtain ⟨rest, htext, htarget⟩ := context.toList_describeCall intro.text index
  rw [call?, h, htext, ← htarget]
  cases intro with
  | gosub => exact FunctionCall.read?_func index rest
  | execute slot =>
    obtain ⟨high, low, -, -, hb, -⟩ := Numeral.exists_digits slot
    have hintro : (CallIntro.execute slot).text.toList
        = 'E' :: 'V' :: 'T' :: '_' :: 'E' :: 'X' :: 'E' :: 'C' :: ' ' :: '0' :: 'x' :: high :: low
          :: [' '] := by
      simp [CallIntro.text, toString, hb]
    rw [hintro]
    exact FunctionCall.read?_func index rest

/-! ## The lines of an instruction -/

/-- A line without bytes in front says what its text says. -/
theorem Line.wording_of_head? {l : Line} (h : l.text.toList.head? ≠ some '[') :
    l.wording = l.text := by
  rw [wording]
  split
  · next rest heq =>
    rw [heq] at h
    exact absurd rfl h
  · rfl

namespace Visit

variable (style : ListingStyle) (v : Visit) (indent : Nat)

/-- The line of an instruction says what its description says. -/
theorem wording_lineAt :
    (v.lineAt indent (v.text style)).wording = (v.description style.context).text := by
  rw [text]
  split
  · have hbracket : ∀ c ∈ v.instruction.hex.toList, decide (c ≠ ']') = true := fun c hc ↦
      decide_eq_true (v.instruction.ne_of_mem_hex (by decide) (by decide) (by decide) c hc)
    simp only [Line.wording, lineAt, toList_bracketed]
    rw [(takeWhile_dropWhile_mark hbracket ']' (by simp) _).2]
    exact String.ofList_toList
  · have hworded := (v.language.wording v.instruction).worded_text style.context
    exact Line.wording_of_head? (hworded.head?_ne (by decide))

/-- A comment is about no call. -/
theorem not_calls_comment (comment : String) :
    ¬ Calls (v.lineAt indent s!"# {comment}").wording := by
  rw [Line.wording_of_head?]
  · rintro ⟨head, hhead, hprefix⟩
    rw [lineAt, toList_comment] at hprefix
    simp only [callHeads, List.mem_cons, List.not_mem_nil, or_false] at hhead
    rcases hhead with rfl | rfl <;> simp at hprefix
  · rw [lineAt, toList_comment]
    simp

end Visit

/-- A line about a call has the entry of the function that is called. -/
def Line.Resolves (entries : List UInt32) (l : Line) : Prop :=
  Calls l.wording → ∃ call, l.call? = some call ∧
    call.target? = entries[call.index]?.map UInt32.toNat

/-- A line without a call is no problem. -/
theorem Line.resolves_of_not_calls {l : Line} (h : ¬ Calls l.wording) (entries : List UInt32) :
    l.outOfRange? entries.length = none ∧ l.Resolves entries := by
  refine ⟨?_, fun hcalls ↦ absurd hcalls h⟩
  rw [outOfRange?, call?_eq_none h]
  rfl

namespace Wording

variable {callee? : Option UInt8} {describe : ListingContext → Description}
  (h : Wording callee? describe) (context : ListingContext) {l : Line}
  (hl : l.wording = (describe context).text)

include h hl

/-- **The call in a line is the one that the instruction makes.** -/
theorem call?_eq :
    l.call? = callee?.map fun index ↦
      ⟨index.toNat, context.entries[index.toNat]?.map UInt32.toNat⟩ := by
  cases callee? with
  | none => exact Line.call?_eq_none (hl ▸ h.not_calls context)
  | some index =>
    obtain ⟨intro, rfl⟩ := h.exists_intro
    exact Line.call?_describeCall context intro index hl

/-- **What is wrong with a description can be told from its line**, and so can what a call in it
goes to. -/
theorem resolves :
    l.outOfRange? context.entries.length = (describe context).problem? ∧
      l.Resolves context.entries := by
  cases callee? with
  | none =>
    have hproblem : (describe context).problem? = none := by cases h <;> rfl
    rw [hproblem]
    exact Line.resolves_of_not_calls (hl ▸ h.not_calls context) context.entries
  | some index =>
    have hcall := h.call?_eq context hl
    obtain ⟨intro, rfl⟩ := h.exists_intro
    refine ⟨?_, fun _ ↦ ⟨_, hcall, rfl⟩⟩
    rw [Line.outOfRange?, hcall, context.problem?_describeCall]
    by_cases hle : context.entries.length ≤ index.toNat <;> simp [Option.filter, hle]

end Wording

/-- The offset of an instruction that calls a function, and the number of the function. -/
def Visit.callPlace? (v : Visit) : Option (Nat × Nat) :=
  (v.language.callee? v.instruction).map (v.offset, ·.toNat)

/-- An instruction that calls a function has one line about the call, its own, and the others have
none. -/
theorem Visit.filterMap_callPlace?_lines (style : ListingStyle) (v : Visit) :
    (v.lines style).filterMap Line.callPlace? = v.callPlace?.toList := by
  have hown : (v.lineAt style.indent (v.text style)).callPlace? = v.callPlace? := by
    rw [Line.callPlace?, (v.language.wording v.instruction).call?_eq style.context
      (v.wording_lineAt style style.indent), Option.map_map]
    rfl
  have hcomments (comments : List String) :
      comments.filterMap (fun comment ↦
        (v.lineAt style.indent s!"# {comment}").callPlace?) = [] := by
    refine List.filterMap_eq_nil_iff.2 fun comment _ ↦ ?_
    rw [Line.callPlace?, Line.call?_eq_none (v.not_calls_comment style.indent comment)]
    rfl
  rw [lines_eq, List.filterMap_cons, List.filterMap_map, hown]
  simp only [Function.comp_def, hcomments]
  cases v.callPlace? <;> rfl

/-- **Calls resolve or are reported**, in the lines of an instruction. -/
theorem Visit.calls_resolve (style : ListingStyle) (v : Visit) :
    let entries := style.context.entries
    (v.lines style).filterMap (Line.outOfRange? entries.length)
        = (v.description style.context).problem?.toList ∧
      ∀ line ∈ v.lines style, line.Resolves entries := by
  intro entries
  obtain ⟨hproblem, hresolves⟩ := (v.language.wording v.instruction).resolves style.context
    (v.wording_lineAt style style.indent)
  have hcomment (comment : String) := Line.resolves_of_not_calls
    (v.not_calls_comment style.indent comment) entries
  have hcomments (comments : List String) :
      comments.filterMap (fun comment ↦
        (v.lineAt style.indent s!"# {comment}").outOfRange? entries.length) = [] :=
    List.filterMap_eq_nil_iff.2 fun comment _ ↦ (hcomment comment).1
  rw [lines_eq, List.filterMap_cons, List.filterMap_map, List.forall_mem_cons,
    List.forall_mem_map]
  refine ⟨?_, hresolves, fun comment _ ↦ (hcomment comment).2⟩
  simp only [Function.comp_def, hcomments, entries, hproblem, description]
  cases (v.language.describe v.instruction style.context).problem? <;> rfl

/-! ## Functions -/

/-- Walks know nothing of calls. -/
theorem Trace.not_isCall_report {limit : Nat} {t : Trace} {problem : Problem}
    (h : problem ∈ (t.report limit).problems.toList) : ¬ problem.IsCall := by
  rintro ⟨index, count, rfl⟩
  rw [report, Array.toList_append, List.mem_append] at h
  rcases h with h | h
  · obtain ⟨v, -, hv⟩ := List.mem_filterMap.1 h
    rw [Visit.truncation?] at hv
    split at hv <;> cases hv
  · split at h <;> simp at h

/-- The lines about calls are those of the instructions that call a function, in the order of the
walk, each with the number that the instruction has. -/
theorem ScriptFunction.filterMap_callPlace?_list (f : ScriptFunction) (settings : Settings)
    (lang : Language) (messages : MessageSource) (file : Bytes) (indent : Nat) :
    (f.list settings lang messages file indent).lines.toList.filterMap Line.callPlace?
      = (f.listTrace settings lang messages file indent).visits.filterMap Visit.callPlace? := by
  rw [f.toList_lines_list, List.filterMap_flatMap, List.filterMap_eq_flatMap_toList]
  exact List.flatMap_congr fun v _ ↦ v.filterMap_callPlace?_lines _

/-- **Calls resolve or are reported**, in the listing of a function. -/
theorem ScriptFunction.calls_resolve (f : ScriptFunction) (settings : Settings) (lang : Language)
    (messages : MessageSource) (file : Bytes) (indent : Nat) :
    let own := f.list settings lang messages file indent
    let walk := f.walkReport settings lang messages file indent
    (own.report.problems.toList = walk.problems.toList
        ++ own.lines.toList.filterMap (Line.outOfRange? f.entries.length)) ∧
      (∀ problem ∈ walk.problems.toList, ¬ problem.IsCall) ∧
        ∀ line ∈ own.lines.toList, line.Resolves f.entries := by
  intro own walk
  let style := f.listingStyle settings messages indent
  have hlines := f.toList_lines_list settings lang messages file indent
  have hreport := f.report_list settings lang messages file indent
  have hthorough := Transcript.thorough_observer style
  refine ⟨?_, fun problem hproblem ↦ ?_, fun line hline ↦ ?_⟩
  · rw [hreport, hlines, List.filterMap_flatMap]
    refine Array.toList_append.trans (congrArg _ ?_)
    exact List.flatMap_congr fun v _ ↦ (v.calls_resolve style).1.symm
  · have hwalk : walk = _ := congrArg Prod.snd (hthorough.walk_eq settings.maxInstructions.toNat)
    rw [hwalk] at hproblem
    exact Trace.not_isCall_report hproblem
  · rw [hlines] at hline
    obtain ⟨v, -, hline⟩ := List.mem_flatMap.1 hline
    exact (v.calls_resolve style).2 line hline

/-! ## Main statement -/

namespace Room

variable {r : Room}

/-- The functions of a section have its table, and start at their entries unless these are past the
end. -/
theorem entries_of_mem (hsize : r.bytes.size < UInt32.size) {index : Nat} {table : EntryTable}
    {f : ScriptFunction} (hf : f ∈ r.functions index table) :
    let F := r.functions index table
    let content := (r.sectionBytes? index).getD #[]
    let entries := table.entries content
    f.entries = entries ∧ F.length = entries.length ∧
      ∀ (i : Nat) (g : ScriptFunction), F[i]? = some g → g.index = i ∧
        ∃ entry, entries[i]? = some entry ∧ g.entryOffset.toNat = min entry.toNat content.size := by
  cases hcontent : r.sectionBytes? index with
  | none =>
    rw [functions_of_sectionBytes?_eq_none hcontent] at hf
    cases hf
  | some content =>
    obtain ⟨offset, -, hoffset, -⟩ := exists_window hcontent
    obtain ⟨hindex, hconfined⟩ := confined_functions hsize hoffset hcontent table
    intro F content' entries
    have hlength : F.length = entries.length := by
      rw [← List.length_map (·.index), hindex, List.length_range]
      rfl
    obtain ⟨i, hi⟩ := List.mem_iff_getElem?.1 hf
    refine ⟨(hconfined i f hi).1, hlength, fun i g hg ↦ ?_⟩
    obtain ⟨-, entry, hentry, hg'⟩ := hconfined i g hg
    refine ⟨?_, entry, hentry, hg'.entryOffset⟩
    have hlt := (List.getElem?_eq_some_iff.1 hentry).1
    have hrange := congrArg (·[i]?) hindex
    have hg : (r.functions index table)[i]? = some g := hg
    simpa [hg, List.getElem?_range hlt] using hrange

/-- **Calls in a listing resolve or are reported.**  In the later generations, each function of an
init or run script has lines of its own between its frame, and problems of its own, in the order of
the table.  The instructions that call a function are those with a line about a call, and the line
has the number that is in the bytes of the instruction.  First come the problems of the walk, none
of which is about a call; then there is one for each line with a call whose number is not below the
number of functions.  A line with any other call has the entry of the called function.  This is the
offset at the head of the function as long as it is not past the end of the section. -/
theorem listSection_calls (hsize : r.bytes.size < UInt32.size) (hg : r.generation ≠ .re1)
    (settings : Settings) {kind : ScriptKind} (hkind : kind ≠ .events) :
    ∃ s listing, r.generation.scriptSection kind = .ok s ∧
      r.listSection settings kind = .ok listing ∧
      let F := r.functions s.index s.table
      let content := (r.sectionBytes? s.index).getD #[]
      let own (f : ScriptFunction) := f.list settings s.language r.messages r.bytes 1
      let walk (f : ScriptFunction) := f.walkReport settings s.language r.messages r.bytes 1
      (listing.lines.toList = F.flatMap fun f ↦
        s.table.opening f :: (own f).lines.toList ++ [s.table.closing f]) ∧
      (listing.report.problems.toList = F.flatMap fun f ↦
        (walk f).problems.toList
          ++ (own f).lines.toList.filterMap (Line.outOfRange? F.length)) ∧
      ∀ f ∈ F, (∀ problem ∈ (walk f).problems.toList, ¬ problem.IsCall) ∧
        ((own f).lines.toList.filterMap Line.callPlace?
          = (f.listTrace settings s.language r.messages r.bytes 1).visits.filterMap
              Visit.callPlace?) ∧
        ∀ line ∈ (own f).lines.toList, Calls line.wording →
          ∃ call, line.call? = some call ∧ (F.length ≤ call.index → call.target? = none) ∧
            ∀ g, F[call.index]? = some g → ∃ entry,
              (s.table.entries content)[call.index]? = some entry ∧
                call.target? = some entry.toNat ∧
                  (s.table.opening g).text = "BEGIN_EVENT event" ++ Numeral.hex 2 call.index ∧
                    (entry.toNat ≤ content.size →
                      (s.table.opening g).offset = entry.toNat) := by
  obtain ⟨s, hs⟩ : ∃ s, r.generation.scriptSection kind = .ok s := by
    cases hgeneration : r.generation with
    | re1 => exact absurd hgeneration hg
    | re2 | re3 => cases kind <;> first | exact ⟨_, rfl⟩ | exact absurd rfl hkind
  obtain ⟨listing, hlisting, hlines, hproblems⟩ := toList_listSection settings hs
  have htable := (Generation.table_of_scriptSection hg hs).1
  refine ⟨s, listing, hs, hlisting, ?_⟩
  intro F content own walk
  refine ⟨hlines, ?_, fun f hf ↦ ?_⟩
  · rw [hproblems]
    refine List.flatMap_congr fun f hf ↦ ?_
    obtain ⟨hentries, hlength, -⟩ := entries_of_mem hsize hf
    rw [(f.calls_resolve settings s.language r.messages r.bytes 1).1, hentries, ← hlength]
  · obtain ⟨-, hwalk, hresolves⟩ := f.calls_resolve settings s.language r.messages r.bytes 1
    obtain ⟨hentries, hlength, hplaces⟩ := entries_of_mem hsize hf
    refine ⟨hwalk, f.filterMap_callPlace?_list settings s.language r.messages r.bytes 1,
      fun line hline hcalls ↦ ?_⟩
    obtain ⟨call, hcall, htarget⟩ := hresolves line hline hcalls
    rw [hentries] at htarget
    refine ⟨call, hcall, fun hle ↦ ?_, fun g hg ↦ ?_⟩
    · rw [htarget, List.getElem?_eq_none (hlength ▸ hle), Option.map_none]
    · obtain ⟨hindex, entry, hentry, hoffset⟩ := hplaces call.index g hg
      refine ⟨entry, hentry, ?_, ?_, fun hle ↦ hoffset.trans (Nat.min_eq_left hle)⟩
      · rw [htarget, hentry, Option.map_some]
      · rw [EntryTable.opening, htable, hindex]
        rfl

/-- Two functions, with calls of the first and of the second one, and of others that are not there.
The last call is cut short, and its number reads as zero. -/
theorem listSection_calls_truncated :
    let settings : Settings := { showBytes := true }
    let content : Bytes :=
      #[0x04, 0x00, 0x08, 0x00, 0x18, 0x01, 0x18, 0x05, 0x04, 0x00, 0x18, 0x09, 0x18]
    let file := Draft.Layout.file .re2 1
      { offsets := (List.replicate 21 0).set 16 92, body := content }
    ∃ r : Room, r.bytes = file ∧ r.bytes.size < UInt32.size ∧ r.generation ≠ .re1 ∧
      ScriptKind.init ≠ .events ∧ ∃ listing, r.listSection settings .init = .ok listing ∧
        listing.lines.toList.filterMap Line.call?
          = [⟨1, some 8⟩, ⟨5, none⟩, ⟨9, none⟩, ⟨0, some 4⟩] ∧
          listing.report.problems.toList
            = [.functionOutOfRange 5 2, .truncated 12 2 1, .functionOutOfRange 9 2] ∧
            let F := r.functions 16 .halfWords
            let own (f : ScriptFunction) := f.list settings .re2 r.messages r.bytes 1
            (listing.report.problems.toList = F.flatMap fun f ↦
              (f.walkReport settings .re2 r.messages r.bytes 1).problems.toList
                ++ (own f).lines.toList.filterMap (Line.outOfRange? F.length)) ∧
              ∀ f ∈ F,
                ((own f).lines.toList.filterMap Line.callPlace?
                  = (f.listTrace settings .re2 r.messages r.bytes 1).visits.filterMap
                      Visit.callPlace?) ∧
                ∀ line ∈ (own f).lines.toList, Calls line.wording →
                  ∃ call, line.call? = some call ∧
                    (F.length ≤ call.index → call.target? = none) := by
  intro settings content file
  let r : Room :=
    { generation := .re2, bytes := file, offsets := Generation.offsetTable .re2 file,
      offsets_eq := rfl, header_le := by decide +kernel, offsets_valid := by decide +kernel }
  have hsize : r.bytes.size < UInt32.size := by decide +kernel
  have hg : r.generation ≠ .re1 := by decide
  have hkind : ScriptKind.init ≠ .events := by decide
  have hread : ((r.listSection settings .init).map fun l ↦
      (l.lines.toList.filterMap Line.call?, l.report.problems.toList)).toOption
        = some ([⟨1, some 8⟩, ⟨5, none⟩, ⟨9, none⟩, ⟨0, some 4⟩],
          [.functionOutOfRange 5 2, .truncated 12 2 1, .functionOutOfRange 9 2]) := by
    decide +kernel
  obtain ⟨s, listing, hs, hlisting, -, hproblems, hcalls⟩ :=
    listSection_calls hsize hg settings hkind
  cases hs
  rw [hlisting] at hread
  obtain ⟨hlines, hreport⟩ := Prod.mk.inj (Option.some.inj hread)
  refine ⟨r, rfl, hsize, hg, hkind, listing, hlisting, hlines, hreport, hproblems,
    fun f hf ↦ ⟨(hcalls f hf).2.1, fun line hline hcall ↦ ?_⟩⟩
  obtain ⟨call, hread, htarget, -⟩ := (hcalls f hf).2.2 line hline hcall
  exact ⟨call, hread, htarget⟩

end Room
end RoomScript
