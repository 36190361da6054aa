import RoomScript.ScriptSection
import RoomScript.Proofs.Gating

/-!
# What a listing is made of

A listing is written by an observer, one instruction after the other.  Here it is taken apart: its
lines are those of the instructions that the walk went through (`ScriptFunction.toList_lines_list`),
each of them with a line for itself and one for every comment below it (`Visit.lines_eq`), and its
problems are those of the walk and then those of the descriptions (`ScriptFunction.report_list`).

What the walk goes through and what it reports does not depend on how the lines are written
(`ScriptFunction.listTrace_congr`).
-/

set_option autoImplicit false

namespace RoomScript

/-! ## The lines of an instruction -/

/-- How a comment is shown. -/
theorem toList_comment (comment : String) :
    (s!"# {comment}").toList = '#' :: ' ' :: comment.toList := String.toList_append

/-- How bytes are shown in front of a text. -/
theorem toList_bracketed (bytes text : String) :
    (s!"[{bytes}] {text}").toList = '[' :: (bytes.toList ++ ']' :: ' ' :: text.toList) := by
  simp [toString]

namespace Visit

/-- How the instruction reads. -/
def description (v : Visit) (context : ListingContext) : Description :=
  v.language.describe v.instruction context

/-- A line at the place of the instruction. -/
def lineAt (v : Visit) (indent : Nat) (text : String) : Line := ⟨v.offset, indent + v.depth, text⟩

/-- The text of the instruction's own line. -/
def text (style : ListingStyle) (v : Visit) : String :=
  let text := (v.description style.context).text
  if style.showBytes then s!"[{v.instruction.hex}] {text}" else text

/-- The lines that an instruction has in a listing. -/
def lines (style : ListingStyle) (v : Visit) : List Line :=
  (({} : Transcript).add style v.language v.instruction v.depth).lines.toList

/-- An instruction has a line for itself, and then one for every comment. -/
theorem lines_eq (style : ListingStyle) (v : Visit) :
    v.lines style = v.lineAt style.indent (v.text style)
      :: (v.description style.context).comments.map
        fun comment ↦ v.lineAt style.indent s!"# {comment}" := by
  simp [lines, Transcript.add, lineAt, text, description, offset]

end Visit

/-! ## Transcripts -/

namespace Transcript

variable (style : ListingStyle)

theorem toList_lines_add (v : Visit) (t : Transcript) :
    (t.add style v.language v.instruction v.depth).lines.toList
      = t.lines.toList ++ v.lines style := by
  simp [add, Visit.lines]

theorem toList_problems_add (v : Visit) (t : Transcript) :
    (t.add style v.language v.instruction v.depth).problems.toList
      = t.problems.toList ++ (v.description style.context).problem?.toList := by
  simp [add, Visit.description]

/-- A transcript has the lines and the problems of the instructions, in the order of the walk. -/
theorem toList_replay (t : Trace) (x : Transcript) :
    let after := (observer style).replay t x
    after.lines.toList = x.lines.toList ++ t.visits.flatMap (·.lines style) ∧
      after.problems.toList = x.problems.toList
        ++ t.visits.flatMap (·.description style.context |>.problem?.toList) := by
  induction t generalizing x with
  | nil => simp [Trace.visits]
  | cons cb t ih =>
    cases cb with
    | visit v goOn =>
      obtain ⟨hlines, hproblems⟩ := ih (x.add style v.language v.instruction v.depth)
      rw [toList_lines_add, List.append_assoc] at hlines
      rw [toList_problems_add, List.append_assoc] at hproblems
      exact ⟨hlines, hproblems⟩
    | enter => exact ih _
    | leave => exact ih _

end Transcript

/-! ## Functions -/

namespace ScriptFunction

variable (f : ScriptFunction) (settings : Settings) (lang : Language) (messages : MessageSource)
  (file : Bytes) (indent : Nat)

/-- What the walk of a listing reports. -/
def walkReport : Report :=
  ((f.listingStyle settings messages indent).transcribe settings.maxInstructions.toNat lang
    f.entryOffset.toNat (f.code file)).2

/-- A listing has the lines of the instructions that it goes through. -/
theorem toList_lines_list :
    (f.list settings lang messages file indent).lines.toList
      = (f.listTrace settings lang messages file indent).visits.flatMap
        (·.lines (f.listingStyle settings messages indent)) := by
  show ((Transcript.observer (f.listingStyle settings messages indent)).walk _ _ _ _
    {}).1.lines.toList = _
  rw [Observer.walk_fst_eq_replay_trace]
  exact (Transcript.toList_replay _ _ {}).1.trans (List.nil_append _)

/-- A listing reports what its walk reports, and then the problems of the descriptions. -/
theorem report_list :
    (f.list settings lang messages file indent).report
      = f.walkReport settings lang messages file indent
        ++ { problems := ((f.listTrace settings lang messages file indent).visits.flatMap
              (·.description (f.listingStyle settings messages indent).context
                |>.problem?.toList)).toArray } := by
  have hproblems : ((Transcript.observer (f.listingStyle settings messages indent)).walk
      settings.maxInstructions.toNat lang f.entryOffset.toNat (f.code file) {}).1.problems
        = ((f.listTrace settings lang messages file indent).visits.flatMap
            (·.description (f.listingStyle settings messages indent).context
              |>.problem?.toList)).toArray := by
    rw [← Array.toList_inj, Observer.walk_fst_eq_replay_trace]
    exact (Transcript.toList_replay _ _ {}).2.trans (List.nil_append _)
  rw [← hproblems]
  rfl

/-- **The ceiling is the only setting that a listing's walk depends on.** -/
theorem listTrace_congr {settings' : Settings}
    (h : settings.maxInstructions = settings'.maxInstructions) (messages' : MessageSource)
    (indent' : Nat) :
    (f.listTrace settings lang messages file indent).visits
        = (f.listTrace settings' lang messages' file indent').visits ∧
      f.walkReport settings lang messages file indent
        = f.walkReport settings' lang messages' file indent' := by
  have hthorough := Transcript.thorough_observer (f.listingStyle settings messages indent)
  have hthorough' := Transcript.thorough_observer (f.listingStyle settings' messages' indent')
  rw [listTrace, listTrace, walkReport, walkReport, ListingStyle.transcribe,
    ListingStyle.transcribe, h]
  exact hthorough.walk_snd_eq _ _ _ _ _ _ hthorough'

end ScriptFunction

/-! ## Sections -/

namespace Listing

@[simp]
theorem toList_lines_append (l l' : Listing) :
    (l ++ l').lines.toList = l.lines.toList ++ l'.lines.toList := Array.toList_append

@[simp]
theorem toList_problems_append (l l' : Listing) :
    (l ++ l').report.problems.toList
      = l.report.problems.toList ++ l'.report.problems.toList := Array.toList_append

end Listing

/-- The line in front of a function. -/
def EntryTable.opening (table : EntryTable) (f : ScriptFunction) : Line :=
  ⟨f.entryOffset.toNat, 0, table.frame.1 ++ Numeral.hex 2 f.index⟩

/-- The line behind a function. -/
def EntryTable.closing (table : EntryTable) (f : ScriptFunction) : Line :=
  ⟨f.entryOffset.toNat + f.byteLength.toNat, 0, table.frame.2⟩

namespace Room

variable (settings : Settings) (s : ScriptSection) (messages : MessageSource) (file : Bytes)

/-- A function of a section is framed by two lines, which have no problems. -/
theorem toList_listFunction (f : ScriptFunction) :
    let own := f.list settings s.language messages file 1
    let framed := listFunction settings s messages file f
    framed.lines.toList = s.table.opening f :: own.lines.toList ++ [s.table.closing f] ∧
      framed.report.problems.toList = own.report.problems.toList := by
  intro own framed
  have hframed : framed = .line (s.table.opening f).offset (s.table.opening f).text ++ own
      ++ .line (s.table.closing f).offset (s.table.closing f).text := rfl
  rw [hframed, Listing.toList_lines_append, Listing.toList_lines_append,
    Listing.toList_problems_append, Listing.toList_problems_append]
  exact ⟨rfl, (List.append_nil _).trans (List.nil_append _)⟩

/-- The functions of a section are listed one below the other. -/
theorem toList_foldl_listFunction (fs : List ScriptFunction) (before : Listing) :
    let all := fs.foldl (fun l f ↦ l ++ listFunction settings s messages file f) before
    all.lines.toList = before.lines.toList
        ++ fs.flatMap (listFunction settings s messages file · |>.lines.toList) ∧
      all.report.problems.toList = before.report.problems.toList
        ++ fs.flatMap (listFunction settings s messages file · |>.report.problems.toList) := by
  induction fs generalizing before with
  | nil => exact ⟨(List.append_nil _).symm, (List.append_nil _).symm⟩
  | cons f fs ih =>
    obtain ⟨hlines, hproblems⟩ := ih (before ++ listFunction settings s messages file f)
    rw [Listing.toList_lines_append, List.append_assoc] at hlines
    rw [Listing.toList_problems_append, List.append_assoc] at hproblems
    exact ⟨hlines, hproblems⟩

/-- A section is listed function by function. -/
theorem toList_listSection {r : Room} {kind : ScriptKind} {s : ScriptSection}
    (hs : r.generation.scriptSection kind = .ok s) :
    ∃ listing, r.listSection settings kind = .ok listing ∧
      (listing.lines.toList = (r.functions s.index s.table).flatMap fun f ↦
        s.table.opening f :: (f.list settings s.language r.messages r.bytes 1).lines.toList
          ++ [s.table.closing f]) ∧
        listing.report.problems.toList = (r.functions s.index s.table).flatMap fun f ↦
          (f.list settings s.language r.messages r.bytes 1).report.problems.toList := by
  obtain ⟨hlines, hproblems⟩ := toList_foldl_listFunction settings s r.messages r.bytes
    (r.functions s.index s.table) {}
  have hfunction := toList_listFunction settings s r.messages r.bytes
  simp only [hfunction] at hlines hproblems
  exact ⟨_, by rw [listSection, hs]; rfl, hlines, hproblems⟩

end Room
end RoomScript
