import Mathlib.Data.List.Basic
import RoomScript.Proofs.Transcription
import RoomScript.Proofs.Wording

/-!
# Display options

Two settings say how much a listing shows: whether it has the bytes of the instructions, and in how
many languages it has the messages.  Neither of them is more than display.

A line that shows a message says which language it is in, and here this is read back from its text
(`Line.language?`); no other line looks like one.  So what one more language adds to a listing is
known line by line: with `m` languages, a listing has the lines that it has with `n` languages, less
those that show a message in one of the languages from `m` to `n - 1`
(`Wording.comments_eq_filter`).  The rest of a description does not depend on the languages at all
(`Wording.text_eq_of_languages`).

`ScriptFunction.list_display_options` has the lines of a function under all options, and how they
compare.
-/

set_option autoImplicit false

namespace RoomScript

/-! ## The language of a message line -/

namespace Line

/-- The language that a line shows a message in. -/
def language? (l : Line) : Option Nat :=
  match l.text.toList with
  | '#' :: ' ' :: 'L' :: rest =>
    let digits := rest.takeWhile Char.isDigit
    if digits ≠ [] ∧ (rest.drop digits.length).head? = some '\t' then
      some (Nat.ofDigitChars 10 digits 0)
    else none
  | _ => none

/-- Whether a line shows a message in one of the languages from `m` to `n - 1`. -/
def ShowsMessage (m n : Nat) (l : Line) : Prop :=
  ∃ language ∈ l.language?, m ≤ language ∧ language < n

instance (m n : Nat) (l : Line) : Decidable (l.ShowsMessage m n) :=
  inferInstanceAs (Decidable (∃ language ∈ l.language?, m ≤ language ∧ language < n))

variable (offset indent : Nat)

/-- The line of a message says which language it is in. -/
theorem language?_message {language : Nat} {message comment : String}
    (h : comment = s!"L{language}\t{message}") :
    language? ⟨offset, indent, s!"# {comment}"⟩ = some language := by
  let digits := Nat.toDigits 10 language
  have htext : (s!"# {comment}").toList
      = '#' :: ' ' :: 'L' :: (digits ++ '\t' :: message.toList) := by
    simp [toString, digits, h]
  have hall : ∀ c ∈ digits, c.isDigit = true := fun c hc ↦
    Nat.isDigit_of_mem_toDigits (by decide) (by decide) hc
  have hdigits := (takeWhile_dropWhile_mark hall '\t' (by decide) message.toList).1
  simp only [language?, htext, hdigits, List.drop_left]
  rw [if_pos ⟨Nat.toDigits_ne_nil, rfl⟩, Nat.ofDigitChars_ten_toDigits]

/-- A note about a flag shows no message. -/
theorem language?_flagNote {text : String} (h : FlagNote text) :
    language? ⟨offset, indent, s!"# {text}"⟩ = none := by
  have hlower := h.lower
  rw [language?, toList_comment]
  split
  · next rest heq =>
    have htail : text.toList = 'L' :: rest := by simpa using heq
    rw [htail] at hlower
    cases hlower
  · rfl

/-- A line that is no comment shows no message. -/
theorem language?_of_head? {text : String} (h : text.toList.head? ≠ some '#') :
    language? ⟨offset, indent, text⟩ = none := by
  rw [language?]
  split
  · next rest heq =>
    have heq : text.toList = _ := heq
    rw [heq] at h
    exact absurd rfl h
  · rfl

variable {m n : Nat}

theorem showsMessage_message {language : Nat} {message comment : String}
    (h : comment = s!"L{language}\t{message}") :
    ShowsMessage m n ⟨offset, indent, s!"# {comment}"⟩ ↔ m ≤ language ∧ language < n := by
  simp only [ShowsMessage, language?_message offset indent h, Option.mem_def, Option.some.injEq,
    exists_eq_left']

theorem not_showsMessage {l : Line} (h : l.language? = none) : ¬ l.ShowsMessage m n := by
  rintro ⟨language, hlanguage, -⟩
  rw [h] at hlanguage
  cases hlanguage

end Line

/-! ## Descriptions in fewer languages -/

namespace ListingContext

/-- The context with messages in `languages` languages. -/
def inLanguages (context : ListingContext) (languages : Nat) : ListingContext :=
  { context with languages }

/-- The comment about message `id` in a language, given with its number. -/
def comment? (id : UInt8) (entry : (Nat → Option String) × Nat) : Option String :=
  (entry.1 id.toNat).map fun message ↦ s!"L{entry.2}\t{message}"

variable {m n : Nat} (offset indent : Nat)

/-- The comment about a message is in the language that it is about. -/
theorem showsMessage_of_mem {languages : List ((Nat → Option String) × Nat)} {id : UInt8}
    {comment : String} (h : comment ∈ languages.filterMap (comment? id)) :
    ∃ entry ∈ languages, Line.ShowsMessage m n ⟨offset, indent, s!"# {comment}"⟩
      ↔ m ≤ entry.2 ∧ entry.2 < n := by
  obtain ⟨entry, hentry, hcomment⟩ := List.mem_filterMap.1 h
  obtain ⟨message, -, hmessage⟩ := Option.map_eq_some_iff.1 hcomment
  exact ⟨entry, hentry, Line.showsMessage_message offset indent hmessage.symm⟩

/-- The messages in fewer languages are the first ones of those in more languages. -/
theorem comments_describeMessage_eq_filter (context : ListingContext) (hle : m ≤ n)
    (text : String) (id : UInt8) :
    ((context.inLanguages m).describeMessage text id).comments
      = ((context.inLanguages n).describeMessage text id).comments.filter
        fun comment ↦ ¬ Line.ShowsMessage m n ⟨offset, indent, s!"# {comment}"⟩ := by
  obtain ⟨k, rfl⟩ := Nat.exists_eq_add_of_le hle
  let fewer := context.messages.take m
  let more := (context.messages.drop m).take k
  have hfewer : fewer.length = min m context.messages.length := List.length_take
  have hmore : more.length = min k (context.messages.length - m) := by
    rw [List.length_take, List.length_drop]
  let keeps (comment : String) : Bool :=
    ¬ Line.ShowsMessage m (m + k) ⟨offset, indent, s!"# {comment}"⟩
  have hkept : ∀ comment ∈ fewer.zipIdx.filterMap (comment? id), keeps comment = true := by
    intro comment hcomment
    obtain ⟨entry, hentry, hshows⟩ := showsMessage_of_mem offset indent hcomment
    have hlt := List.snd_lt_of_mem_zipIdx hentry
    rw [decide_eq_true_eq, hshows]
    omega
  have hdropped : ∀ comment ∈ (more.zipIdx (0 + fewer.length)).filterMap (comment? id),
      ¬ keeps comment = true := by
    intro comment hcomment
    obtain ⟨entry, hentry, hshows⟩ := showsMessage_of_mem offset indent hcomment
    have hge := List.le_snd_of_mem_zipIdx hentry
    have hlt := List.snd_lt_of_mem_zipIdx hentry
    rw [decide_eq_true_eq, hshows]
    omega
  show fewer.zipIdx.filterMap (comment? id)
    = ((context.messages.take (m + k)).zipIdx.filterMap (comment? id)).filter keeps
  rw [List.take_add, List.zipIdx_append, List.filterMap_append, List.filter_append,
    List.filter_eq_self.2 hkept, List.filter_eq_nil_iff.2 hdropped, List.append_nil]

end ListingContext

namespace Wording

variable {callee? : Option UInt8} {describe : ListingContext → Description}
  (h : Wording callee? describe) (context : ListingContext) {m n : Nat}

include h

/-- Messages are all that the number of languages matters for. -/
theorem text_eq_of_languages (m n : Nat) :
    (describe (context.inLanguages m)).text = (describe (context.inLanguages n)).text ∧
      (describe (context.inLanguages m)).problem?
        = (describe (context.inLanguages n)).problem? := by
  cases h <;> exact ⟨rfl, rfl⟩

/-- **In fewer languages, an instruction has the comments that it has in more languages**, less
those that show a message in one of the others. -/
theorem comments_eq_filter (hle : m ≤ n) (offset indent : Nat) :
    (describe (context.inLanguages m)).comments
      = (describe (context.inLanguages n)).comments.filter
        fun comment ↦ ¬ Line.ShowsMessage m n ⟨offset, indent, s!"# {comment}"⟩ := by
  cases h with
  | line => rfl
  | flag array bit _ =>
    refine (List.filter_eq_self.2 fun comment hcomment ↦ ?_).symm
    have hnote := Symbols.flagNote (Option.mem_toList.1 hcomment)
    exact decide_eq_true (Line.not_showsMessage (Line.language?_flagNote offset indent hnote))
  | call intro index =>
    rw [ListingContext.comments_describeCall, ListingContext.comments_describeCall]
    rfl
  | message id _ => exact context.comments_describeMessage_eq_filter offset indent hle _ id

end Wording

/-! ## Listings -/

/-- The line of an instruction does not begin as comments do. -/
theorem Visit.head?_text_ne (style : ListingStyle) (v : Visit) :
    (v.text style).toList.head? ≠ some '#' := by
  have hworded := (v.language.wording v.instruction).worded_text style.context
  rw [text]
  split
  · simp [toString]
  · exact hworded.head?_ne (by decide)

/-- The lines of an instruction in fewer languages. -/
theorem Visit.lines_eq_filter (context : ListingContext) (showBytes : Bool) (indent : Nat)
    {m n : Nat} (hle : m ≤ n) (v : Visit) :
    v.lines ⟨context.inLanguages m, showBytes, indent⟩
      = (v.lines ⟨context.inLanguages n, showBytes, indent⟩).filter
        fun l ↦ ¬ l.ShowsMessage m n := by
  have hwording := v.language.wording v.instruction
  have htext : v.text ⟨context.inLanguages m, showBytes, indent⟩
      = v.text ⟨context.inLanguages n, showBytes, indent⟩ := by
    simp only [text, description, (hwording.text_eq_of_languages context m n).1]
  have hown : ¬ Line.ShowsMessage m n
      (v.lineAt indent (v.text ⟨context.inLanguages n, showBytes, indent⟩)) :=
    Line.not_showsMessage (Line.language?_of_head? _ _ (v.head?_text_ne _))
  have hcomments := hwording.comments_eq_filter context hle v.offset (indent + v.depth)
  rw [lines_eq, lines_eq, List.filter_cons, if_pos (decide_eq_true hown), List.filter_map, htext]
  exact congrArg _ (congrArg _ hcomments)

namespace ScriptFunction

/-- **Display options only change display.**  A listing without bytes has a line for each
instruction that it goes through, in order, at the offset of the instruction and indented by its
depth, and below it its comments at the same place.  With bytes, the line of the instruction has
them in brackets in front, and that is all.  In fewer languages, what is missing are the lines that
show messages in one of the other languages.  What is reported is the same under all options. -/
theorem list_display_options (f : ScriptFunction) (settings : Settings) (lang : Language)
    (messages : MessageSource) (file : Bytes) (indent : Nat) :
    let visits := (f.listTrace settings lang messages file indent).visits
    let shown (showBytes : Bool) (languages : UInt64) :=
      f.list { settings with showBytes, languages } lang messages file indent
    let reads (languages : UInt64) (v : Visit) :=
      v.description { entries := f.entries, messages, languages := languages.toNat }
    let comments (languages : UInt64) (v : Visit) :=
      (reads languages v).comments.map fun comment ↦ v.lineAt indent s!"# {comment}"
    (∀ languages,
      (shown false languages).lines.toList = visits.flatMap fun v ↦
        v.lineAt indent (reads languages v).text :: comments languages v) ∧
      (∀ languages,
        (shown true languages).lines.toList = visits.flatMap fun v ↦
          v.lineAt indent s!"[{v.instruction.hex}] {(reads languages v).text}"
            :: comments languages v) ∧
        (∀ showBytes, ∀ m n : UInt64, m ≤ n →
          (shown showBytes m).lines.toList
            = (shown showBytes n).lines.toList.filter
              fun l ↦ ¬ l.ShowsMessage m.toNat n.toNat) ∧
          ∀ showBytes showBytes' m n,
            (shown showBytes m).report = (shown showBytes' n).report := by
  intro visits shown reads comments
  have hceiling (showBytes : Bool) (languages : UInt64) :
      { settings with showBytes, languages }.maxInstructions = settings.maxInstructions := rfl
  have hvisits (showBytes : Bool) (languages : UInt64) :=
    f.listTrace_congr _ lang messages file indent (hceiling showBytes languages) messages indent
  have hlines (showBytes : Bool) (languages : UInt64) := f.toList_lines_list
    { settings with showBytes, languages } lang messages file indent
  refine ⟨fun languages ↦ ?_, fun languages ↦ ?_, fun showBytes m n hle ↦ ?_,
    fun showBytes showBytes' m n ↦ ?_⟩
  · refine (hlines false languages).trans ?_
    rw [(hvisits false languages).1]
    exact List.flatMap_congr fun v _ ↦ v.lines_eq _
  · refine (hlines true languages).trans ?_
    rw [(hvisits true languages).1]
    exact List.flatMap_congr fun v _ ↦ v.lines_eq _
  · have hle : m.toNat ≤ n.toNat := hle
    rw [hlines, hlines, (hvisits showBytes m).1, (hvisits showBytes n).1, List.filter_flatMap]
    exact List.flatMap_congr fun v _ ↦
      v.lines_eq_filter { entries := f.entries, messages } showBytes indent hle
  · have hproblems : (visits.flatMap fun v ↦ (reads m v).problem?.toList)
        = visits.flatMap fun v ↦ (reads n v).problem?.toList := by
      refine List.flatMap_congr fun v _ ↦ congrArg Option.toList ?_
      exact ((v.language.wording v.instruction).text_eq_of_languages
        { entries := f.entries, messages } m.toNat n.toNat).2
    refine (f.report_list _ lang messages file indent).trans
      (Eq.trans ?_ (f.report_list _ lang messages file indent).symm)
    rw [(hvisits showBytes m).1, (hvisits showBytes' n).1, (hvisits showBytes m).2,
      (hvisits showBytes' n).2]
    exact congrArg (fun problems : List Problem ↦
      f.walkReport settings lang messages file indent
        ++ ({ problems := problems.toArray } : Report)) hproblems

/-- A conditional with a message in it, listed with its bytes in two languages and in one. -/
theorem list_display_options_message :
    let f : ScriptFunction := { baseOffset := 0, byteLength := 12 }
    let script : List UInt8 :=
      [0x06, 0x00, 0x08, 0x00, 0x2b, 0x00, 0x03, 0x00, 0x00, 0x00, 0x08, 0x00]
    let messages : MessageSource :=
      [fun _ ↦ some "Locked.", fun id ↦ if id = 3 then some "Fermé." else none]
    let shown (showBytes : Bool) (languages : UInt64) :=
      f.list { showBytes, languages } .re2 messages script.toArray 1
    (1 : UInt64) ≤ 2 ∧
      (shown true 2).lines.toList =
        [⟨0, 1, "[0x06 0x00 0x08 0x00] BEGIN_IF"⟩,
          ⟨4, 2, "[0x2b 0x00 0x03 0x00 0x00 0x00] MESSAGE_ON 0x03"⟩,
          ⟨4, 2, "# L0\tLocked."⟩,
          ⟨4, 2, "# L1\tFermé."⟩,
          ⟨10, 1, "[0x08 0x00] END_IF"⟩] ∧
        (shown true 1).lines.toList
          = (shown true 2).lines.toList.filter (fun l ↦ ¬ l.ShowsMessage 1 2) ∧
          (shown true 1).lines.size = 4 ∧
            (shown true 1).report = (shown false 2).report := by
  intro f script messages shown
  have hle : (1 : UInt64) ≤ 2 := by decide
  obtain ⟨-, -, hfewer, hreport⟩ :=
    f.list_display_options {} .re2 messages script.toArray 1
  exact ⟨hle, by decide +kernel, hfewer true 1 2 hle, by decide +kernel, hreport true false 1 2⟩

end ScriptFunction
end RoomScript
