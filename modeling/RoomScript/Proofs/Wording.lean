import RoomScript.Language

/-!
# How instructions are worded

Four languages describe their instructions, and what a listing looks like depends on all of the
texts that they can come up with.  This file goes through them once.

There are four kinds of descriptions, and `Wording` has one constructor for each: a plain line, a
line about a flag, a call and a message.  It also says how much a description can depend on: a call
on the table of the section, a message on the messages, and the others on nothing but the
instruction.

* `Worded`: a text that begins with a letter and has no line break in it.  All texts of
  descriptions do (`Wording.worded_text`), so a listing can be taken apart again, line by line.
* `Calls`: a text that begins as a call does.
* `Language.callee?`: the number of the function that an instruction calls, read from its opcode and
  its bytes.  `Wording` has it as an index, so an instruction that calls nothing never reads like a
  call (`Wording.not_calls`), and one that calls a function never like anything else
  (`Wording.exists_intro`).
* `Language.wording`: the descriptions of every instruction are of one of the four kinds, whatever
  its bytes are.

There is one proof for each language, and it goes through the instructions as the language does.
The texts are made of fixed parts, numbers and names from tables.  For the fixed parts it is enough
to look at their characters (`PlainFront`, `Printable`), which is decidable; the numbers have digits
(`exists_digitChar_of_mem_hex`); and for the names there is a lemma about each table.
-/

set_option autoImplicit false

namespace RoomScript

/-! ## Line breaks -/

/-- The characters that end a line. -/
def lineBreaks : List Char := ['\n', '\x0b', '\x0c', '\r', '\u0085', '\u2028', '\u2029']

/-- A text without line breaks. -/
def Unbroken (s : String) : Prop := ∀ c ∈ s.toList, c ∉ lineBreaks

instance (s : String) : Decidable (Unbroken s) := List.decidableBAll _ s.toList

@[simp]
theorem unbroken_append {s t : String} : Unbroken (s ++ t) ↔ Unbroken s ∧ Unbroken t := by
  simp only [Unbroken, String.toList_append, List.mem_append, or_imp, forall_and]

/-- Printable characters of ASCII. -/
def Printable (cs : List Char) : Prop := ∀ c ∈ cs, 32 ≤ c.toNat ∧ c.toNat ≤ 126

instance (cs : List Char) : Decidable (Printable cs) := List.decidableBAll _ cs

/-- Printable characters end no line. -/
theorem unbroken_ofList {cs : List Char} (h : Printable cs) : Unbroken (String.ofList cs) := by
  have hbreaks : lineBreaks.all (fun c ↦ ¬ (32 ≤ c.toNat ∧ c.toNat ≤ 126)) = true := by decide
  intro c hc hmem
  rw [String.toList_ofList] at hc
  exact of_decide_eq_true (List.all_eq_true.1 hbreaks c hmem) (h c hc)

theorem unbroken_singleton {c : Char} (h : c ∉ lineBreaks) : Unbroken (String.singleton c) := by
  simpa [Unbroken] using h

theorem unbroken_join {texts : List String} (h : ∀ s ∈ texts, Unbroken s) :
    Unbroken (String.join texts) := by
  intro c hc
  rw [String.toList_join] at hc
  obtain ⟨s, hs, hc⟩ := List.mem_flatMap.1 hc
  exact h s hs c hc

theorem unbroken_getD {s? : Option String} {s : String} (h : ∀ t ∈ s?, Unbroken t)
    (hs : Unbroken s) : Unbroken (s?.getD s) := by
  cases s? with
  | none => exact hs
  | some t => exact h t rfl

/-- What a table gives is in the table. -/
theorem forall_lookup {α β : Type} [BEq α] [LawfulBEq α] {P : β → Prop} {table : List (α × β)}
    (h : ∀ entry ∈ table, P entry.2) {a : α} {b : β} (hb : table.lookup a = some b) : P b := by
  obtain ⟨before, after, rfl, -⟩ := List.lookup_eq_some_iff.1 hb
  exact h (a, b) (List.mem_append_right _ List.mem_cons_self)

/-! ### Numerals -/

/-- The digits of a number are digits. -/
theorem exists_digitChar_of_mem_toDigits {base n : Nat} (hbase : 1 < base) {c : Char}
    (hc : c ∈ Nat.toDigits base n) : ∃ d < base, c = Nat.digitChar d := by
  induction n using Nat.strongRecOn with
  | ind n ih =>
    by_cases hlt : n < base
    · rw [Nat.toDigits_of_lt_base hlt, List.mem_singleton] at hc
      exact ⟨n, hlt, hc⟩
    · rw [Nat.toDigits_of_base_le hbase (Nat.le_of_not_lt hlt), List.mem_append,
        List.mem_singleton] at hc
      rcases hc with hc | hc
      · exact ih (n / base) (Nat.div_lt_self (by omega) hbase) hc
      · exact ⟨n % base, Nat.mod_lt _ (by omega), hc⟩

/-- The characters of a hexadecimal number are digits, zeros in front included. -/
theorem exists_digitChar_of_mem_hex {width n : Nat} {c : Char}
    (hc : c ∈ (Numeral.hex width n).toList) : ∃ d < 16, c = Nat.digitChar d := by
  rw [Numeral.hex, String.toList_ofList, List.leftpad, List.mem_append, List.mem_replicate] at hc
  rcases hc with ⟨-, rfl⟩ | hc
  · exact ⟨0, by decide, rfl⟩
  · exact exists_digitChar_of_mem_toDigits (by decide) hc

theorem digitChar_notMem_lineBreaks : ∀ d < 16, Nat.digitChar d ∉ lineBreaks := by decide

@[simp]
theorem unbroken_repr (n : Nat) : Unbroken n.repr := by
  intro c hc
  rw [Nat.toList_repr] at hc
  obtain ⟨d, hd, rfl⟩ := exists_digitChar_of_mem_toDigits (by decide) hc
  exact digitChar_notMem_lineBreaks d (by omega)

@[simp]
theorem unbroken_intRepr (n : Int) : Unbroken n.repr := by
  rw [Int.repr_eq_if]
  split
  · exact unbroken_repr _
  · exact unbroken_append.2 ⟨by decide, unbroken_repr _⟩

@[simp]
theorem unbroken_hex (width n : Nat) : Unbroken (Numeral.hex width n) := by
  intro c hc
  obtain ⟨d, hd, rfl⟩ := exists_digitChar_of_mem_hex hc
  exact digitChar_notMem_lineBreaks d hd

@[simp]
theorem unbroken_offset (n : Nat) : Unbroken (Numeral.offset n) :=
  unbroken_append.2 ⟨by decide, unbroken_hex _ _⟩

@[simp]
theorem unbroken_word (n : Nat) : Unbroken (Numeral.word n) :=
  unbroken_append.2 ⟨by decide, unbroken_hex _ _⟩

@[simp]
theorem unbroken_byte (b : UInt8) : Unbroken (Numeral.byte b) :=
  unbroken_append.2 ⟨by decide, unbroken_hex _ _⟩

@[simp]
theorem unbroken_hex2 (b : UInt8) : Unbroken (hex2 b) := unbroken_hex _ _

/-- A text is read up to the first mark behind it. -/
theorem takeWhile_dropWhile_mark {p : Char → Bool} {cs : List Char} (h : ∀ c ∈ cs, p c = true)
    (mark : Char) (hmark : ¬ p mark = true) (rest : List Char) :
    (cs ++ mark :: rest).takeWhile p = cs ∧ (cs ++ mark :: rest).dropWhile p = mark :: rest := by
  rw [List.takeWhile_append_of_pos h, List.dropWhile_append_of_pos h,
    List.takeWhile_cons_of_neg hmark, List.dropWhile_cons_of_neg hmark, List.append_nil]
  exact ⟨rfl, rfl⟩

/-! ## Texts of descriptions -/

/-- What calls of functions begin with. -/
def callHeads : List (List Char) :=
  [['G', 'O', 'S', 'U', 'B', ' '], ['E', 'V', 'T', '_', 'E', 'X', 'E', 'C', ' ']]

/-- A text that begins as calls of functions do. -/
def Calls (text : String) : Prop := ∃ head ∈ callHeads, head <+: text.toList

instance (text : String) : Decidable (Calls text) :=
  inferInstanceAs (Decidable (∃ head ∈ callHeads, head <+: text.toList))

/-- A text that begins with a letter and has no line breaks. -/
def Worded (text : String) : Prop := text.toList.head?.any Char.isAlpha = true ∧ Unbroken text

instance (text : String) : Decidable (Worded text) := inferInstanceAs (Decidable (_ ∧ _))

/-- A text that begins with a letter begins with nothing else. -/
theorem Worded.head?_ne {text : String} (h : Worded text) {c : Char} (hc : c.isAlpha = false) :
    text.toList.head? ≠ some c := by
  intro hhead
  have hletter := h.1
  rw [hhead, Option.any_some, hc] at hletter
  cases hletter

/-- The text of a line that is not about a call. -/
structure Plain (text : String) : Prop where
  worded : Worded text
  not_calls : ¬ Calls text

/-- The characters of a plain text in printable ASCII. -/
def PlainText (cs : List Char) : Prop :=
  cs.head?.any Char.isAlpha = true ∧ Printable cs ∧ ∀ head ∈ callHeads, ¬ head <+: cs

instance (cs : List Char) : Decidable (PlainText cs) := inferInstanceAs (Decidable (_ ∧ _ ∧ _))

/-- The characters of a text that stays plain whatever follows. -/
def PlainFront (cs : List Char) : Prop := PlainText cs ∧ ∀ head ∈ callHeads, ¬ cs <+: head

instance (cs : List Char) : Decidable (PlainFront cs) := inferInstanceAs (Decidable (_ ∧ _))

theorem worded_ofList_append {cs : List Char} {s : String}
    (hletter : cs.head?.any Char.isAlpha = true) (hcs : Printable cs) (hs : Unbroken s) :
    Worded (String.ofList cs ++ s) := by
  refine ⟨?_, unbroken_append.2 ⟨unbroken_ofList hcs, hs⟩⟩
  rw [String.toList_append, String.toList_ofList]
  cases cs with
  | nil => simp at hletter
  | cons c cs => exact hletter

theorem plain_ofList {cs : List Char} (h : PlainText cs) : Plain (String.ofList cs) := by
  obtain ⟨hletter, hcs, hheads⟩ := h
  refine ⟨⟨by rwa [String.toList_ofList], unbroken_ofList hcs⟩, ?_⟩
  rintro ⟨head, hhead, hprefix⟩
  rw [String.toList_ofList] at hprefix
  exact hheads head hhead hprefix

theorem plain_ofList_append {cs : List Char} {s : String} (h : PlainFront cs) (hs : Unbroken s) :
    Plain (String.ofList cs ++ s) := by
  obtain ⟨⟨hletter, hcs, hheads⟩, hends⟩ := h
  refine ⟨worded_ofList_append hletter hcs hs, ?_⟩
  rintro ⟨head, hhead, hprefix⟩
  rw [String.toList_append, String.toList_ofList] at hprefix
  obtain hle | hle := List.prefix_or_prefix_of_prefix hprefix (List.prefix_append cs s.toList)
  · exact hheads head hhead hle
  · exact hends head hhead hle

/-- What stands in front of the function in a call. -/
inductive CallIntro where
  | gosub
  /-- Starts the function as an event, in the given slot. -/
  | execute (slot : UInt8)
  deriving DecidableEq, Repr

/-- The wording of an introduction. -/
def CallIntro.text : CallIntro → String
  | gosub => "GOSUB "
  | execute slot => s!"EVT_EXEC {Numeral.byte slot} "

theorem CallIntro.worded_text_append (intro : CallIntro) {s : String} (h : Unbroken s) :
    Worded (intro.text ++ s) := by
  cases intro with
  | gosub => exact worded_ofList_append (by decide) (by decide) h
  | execute slot =>
    simp only [text, toString, String.append_assoc]
    refine worded_ofList_append (by decide) (by decide) ?_
    simp only [unbroken_append, unbroken_byte, h, true_and, and_true]
    exact unbroken_ofList (by decide)

/-- The descriptions of an instruction, by what they can refer to, and the function that the
instruction calls. -/
inductive Wording : Option UInt8 → (ListingContext → Description) → Prop
  /-- A line and nothing else. -/
  | line {text : String} (h : Plain text) : Wording none fun _ ↦ .line text
  /-- A line about a flag, with what the flag stands for. -/
  | flag {text : String} (array bit : UInt8) (h : Plain text) :
      Wording none fun _ ↦ Re2.describeFlag text array bit
  /-- A call of a function. -/
  | call (intro : CallIntro) (index : UInt8) :
      Wording (some index) fun context ↦ context.describeCall intro.text index
  /-- A line about a message, with the message. -/
  | message {text : String} (id : UInt8) (h : Plain text) :
      Wording none fun context ↦ context.describeMessage text id

/-- There is nothing to say about a call. -/
theorem ListingContext.comments_describeCall (context : ListingContext) (intro : String)
    (index : UInt8) : (context.describeCall intro index).comments = [] := by
  rw [describeCall]
  split <;> rfl

namespace Wording

/-- **All descriptions are worded**: they begin with a letter and have no line breaks. -/
theorem worded_text {callee? : Option UInt8} {describe : ListingContext → Description}
    (h : Wording callee? describe) (context : ListingContext) :
    Worded (describe context).text := by
  cases h with
  | line h => exact h.worded
  | flag array bit h => exact h.worded
  | message id h => exact h.worded
  | call intro index =>
    simp only [ListingContext.describeCall]
    split
    all_goals
      simp only [toString, String.append_assoc]
      refine intro.worded_text_append ?_
      simp only [unbroken_append, unbroken_hex2, unbroken_offset, true_and]
      and_intros <;> exact unbroken_ofList (by decide)

/-- **An instruction that calls nothing does not read like a call.** -/
theorem not_calls {describe : ListingContext → Description} (h : Wording none describe)
    (context : ListingContext) : ¬ Calls (describe context).text := by
  cases h with
  | line h | flag _ _ h | message _ h => exact h.not_calls

/-- **An instruction that calls a function reads like a call of it.** -/
theorem exists_intro {index : UInt8} {describe : ListingContext → Description}
    (h : Wording (some index) describe) :
    ∃ intro : CallIntro, describe = fun context ↦ context.describeCall intro.text index := by
  cases h with
  | call intro _ => exact ⟨intro, rfl⟩

/-! ### Descriptions that languages share -/

theorem door (d : Door) {name : String} (h : Unbroken name) :
    Wording none fun _ ↦ .line (d.describe name) := by
  refine .line ?_
  unfold Door.describe
  simp only [toString, String.append_assoc]
  refine plain_ofList_append (by decide) ?_
  simp [h]
  and_intros <;> exact unbroken_ofList (by decide)

theorem item (t : Item) {name : String} (h : Unbroken name) :
    Wording none fun _ ↦ .line (t.describe name) := by
  refine .line ?_
  unfold Item.describe
  simp only [toString, String.append_assoc]
  refine plain_ofList_append (by decide) ?_
  simp [h]
  and_intros <;> exact unbroken_ofList (by decide)

theorem jump (i : Instruction) (distance : Int16) :
    Wording none fun _ ↦ i.describeJump distance := by
  rw [Instruction.describeJump]
  split
  all_goals
    refine .line ?_
    simp only [toString, String.append_assoc]
    refine plain_ofList_append (by decide) ?_
    simp
    exact unbroken_ofList (by decide)

/-- An opcode without a name is shown by its number. -/
theorem plain_unknown (opcode : UInt8) : Plain s!"Unknown opcode {Numeral.byte opcode}" := by
  simp only [toString]
  exact plain_ofList_append (by decide) (by simp)

@[simp]
theorem unbroken_onOff (value : UInt8) : Unbroken (onOff value) := by
  rw [onOff]
  split <;> exact unbroken_ofList (by decide)

end Wording

/-! ## Notes about flags -/

/-- A note that begins with a lower case letter and has no line breaks. -/
structure FlagNote (text : String) : Prop where
  lower : text.toList.head?.any Char.isLower = true
  unbroken : Unbroken text

theorem flagNote_ofList {cs : List Char} (hlower : cs.head?.any Char.isLower = true)
    (hcs : Printable cs) : FlagNote (String.ofList cs) :=
  ⟨by rwa [String.toList_ofList], unbroken_ofList hcs⟩

theorem Symbols.flagNote {array bit : UInt8} {text : String} (h : flag? array bit = some text) :
    FlagNote text := by
  have hflags : ∀ entry ∈ flags, FlagNote entry.2 := by
    simp only [flags, List.forall_mem_cons, List.not_mem_nil, false_implies, implies_true,
      and_true]
    and_intros <;> exact flagNote_ofList (by decide +kernel) (by decide +kernel)
  rw [flag?] at h
  split at h
  · cases h
    constructor
    · simp [toString]
    · simp [toString]
      and_intros <;> exact unbroken_ofList (by decide)
  · exact forall_lookup hflags h

/-! ## The languages -/

namespace Re1Event

theorem wording (i : Instruction) : Wording none fun _ ↦ describe i := by
  have hmode : Unbroken (if i.mode = .m0 then "" else s!" [{i.mode.name}]") := by
    cases i.mode <;> decide
  have hmeaning : Unbroken
      (if i.mode = .m0 ∧ i.opcode = execScd then " EXEC_SCD"
        else if i.mode = .m0 ∧ i.opcode = scdBlock then " SCD_BLOCK"
        else if i.opcode = skip then s!" SKIP {i.u8 1}"
        else "") := by
    split
    · exact unbroken_ofList (by decide)
    split
    · exact unbroken_ofList (by decide)
    split
    · simp only [toString]
      exact unbroken_append.2 ⟨unbroken_ofList (by decide), unbroken_repr _⟩
    · exact unbroken_ofList (by decide)
  have hall {mode meaning : String} (hmode : Unbroken mode) (hmeaning : Unbroken meaning) :
      Plain (s!"INST_{hex2 i.opcode}" ++ mode ++ meaning) := by
    simp only [toString, String.append_assoc]
    exact plain_ofList_append (by decide) (by simp [hmode, hmeaning])
  exact .line (hall hmode hmeaning)

end Re1Event

namespace Re1Scd

theorem plain_other (opcode : UInt8) : Plain (describeOther opcode) := by
  rw [describeOther]
  split
  · exact Wording.plain_unknown opcode
  · exact Wording.plain_unknown opcode
  · simp only [toString]
    exact plain_ofList_append (by decide) (by simp)

theorem unbroken_stageLabel (packed : UInt8) : Unbroken (stageLabel packed) := by
  rw [stageLabel]
  split <;> exact unbroken_ofList (by decide)

theorem unbroken_placeLabel (place : UInt8) : Unbroken (placeLabel place) := by
  rw [placeLabel]
  repeat' split
  all_goals exact unbroken_ofList (by decide)

theorem unbroken_flagAction (code : UInt8) : Unbroken (flagAction code).name := by
  cases flagAction code <;> exact unbroken_ofList (by decide)

theorem unbroken_model (id : UInt8) : Unbroken ((Symbols.model? id).getD "???") := by
  have hmodels : ∀ entry ∈ Symbols.models, Unbroken entry.2 := by
    simp only [Symbols.models, List.forall_mem_cons, List.not_mem_nil, false_implies, implies_true,
      and_true]
    and_intros <;> exact unbroken_ofList (by decide +kernel)
  exact unbroken_getD (fun _ hname ↦ forall_lookup hmodels hname) (unbroken_ofList (by decide))

theorem plain_describeOp (i : Instruction) (op : Op) : Plain (describeOp i op) := by
  have hstage := unbroken_stageLabel (i.u8 15)
  have hplace := unbroken_placeLabel (i.u8 1)
  have haction := unbroken_flagAction (i.u8 3)
  have hmodel := unbroken_model (i.u8 1)
  unfold describeOp
  cases op with
  | nop | ifBegin | elseBegin | ifEnd | object06Test | object07Test | object10Test
  | object11Test => exact plain_ofList (by decide)
  | _ =>
    simp only [toString, String.append_assoc]
    refine plain_ofList_append (by decide) ?_
    simp [hstage, hplace, haction, hmodel] <;> and_intros <;> exact unbroken_ofList (by decide)

theorem wording (i : Instruction) : Wording none (describe i) := by
  unfold describe
  split
  · exact .message (i.u8 1) (plain_describeOp i .printMessage)
  · next op _ _ => exact .line (plain_describeOp i op)
  · exact .line (plain_other i.opcode)

end Re1Scd

namespace Re2

theorem plain_other (opcode : UInt8) : Plain (describeOther opcode) := by
  have hnames : ∀ entry ∈ opcodes.toList, Plain entry.1 := by
    simp only [opcodes, List.forall_mem_cons, List.not_mem_nil, false_implies, implies_true,
      and_true]
    and_intros <;> exact plain_ofList (by decide +kernel)
  rw [describeOther, name?]
  cases hentry : opcodes[opcode.toNat]? with
  | none => exact Wording.plain_unknown opcode
  | some entry =>
    exact hnames entry (Array.mem_toList_iff.2 (Array.mem_of_getElem? hentry))

theorem unbroken_symbol (action : VarAction) : Unbroken action.symbol := by
  cases action with
  | compare comparison => cases comparison <;> exact unbroken_ofList (by decide)
  | _ => exact unbroken_ofList (by decide)

theorem unbroken_operand (operand : Operand) :
    Unbroken
      (match operand with
        | .immediate value => s!"{value}"
        | .var id => s!"var{hex2 id}.W") := by
  cases operand with
  | immediate value => simp [toString]
  | var id =>
    simp only [toString, unbroken_append, unbroken_hex2, and_true]
    exact ⟨unbroken_ofList (by decide), unbroken_ofList (by decide)⟩

theorem plain_describeVarOp (op : VarOp) : Plain (describeVarOp op) := by
  have hsymbol := unbroken_symbol op.action
  fun_cases describeVarOp op with
  | case1 target operand comparison _ =>
    have hoperand : Unbroken operand := unbroken_operand op.operand
    have hmnemonic : Unbroken comparison.mnemonic := unbroken_symbol (.compare comparison)
    simp only [target, toString, String.append_assoc]
    refine plain_ofList_append (by decide) ?_
    simp only [unbroken_append, unbroken_hex2, hmnemonic, hoperand, true_and, and_true]
    and_intros <;> exact unbroken_ofList (by decide)
  | case2 target _ =>
    simp only [target, toString, String.append_assoc]
    refine plain_ofList_append (by decide) ?_
    simp only [unbroken_append, unbroken_hex2, true_and]
    and_intros <;> exact unbroken_ofList (by decide)
  | case3 target operand _ _ =>
    have hoperand : Unbroken operand := unbroken_operand op.operand
    simp only [target, toString, String.append_assoc]
    refine plain_ofList_append (by decide) ?_
    simp only [unbroken_append, unbroken_hex2, hsymbol, hoperand, true_and, and_true]
    and_intros <;> exact unbroken_ofList (by decide)

/-- An instruction on a variable has a name. -/
theorem plain_unknownOp {opcode : UInt8} {op : Op} (h : Op.ofByte? opcode = some op)
    (hop : op ∈ [.compare, .save, .copy, .arithmetic, .arithmeticVar]) :
    Plain ((name? opcode).getD "" ++ " ???") := by
  unfold Op.ofByte? at h
  split at h <;> cases h <;>
    first
    | exact absurd hop (by decide)
    | exact ⟨by decide +kernel, by decide +kernel⟩

theorem plain_describeVariable {i : Instruction} {op : Op} (h : Op.ofByte? i.opcode = some op)
    (hop : op ∈ [.compare, .save, .copy, .arithmetic, .arithmeticVar]) :
    Plain (describeVariable i op) := by
  rw [describeVariable]
  split
  · exact plain_describeVarOp _
  · exact plain_unknownOp h hop

/-- The number of the function that an instruction calls.  An event calls one if it starts with a
call, whose bytes are in the instruction that starts the event. -/
def callee? (i : Instruction) : Option UInt8 :=
  if i.opcode = 0x18 then some (i.u8 1)
  else if i.opcode = 0x04 ∧ i.u8 2 = 0x18 then some (i.u8 3)
  else none

theorem callee?_eq (i : Instruction) :
    callee? i =
      match Op.ofByte? i.opcode with
      | some .gosub => some (i.u8 1)
      | some .eventExec => if i.u8 2 = gosubCode then some (i.u8 3) else none
      | _ => none := by
  generalize hop : Op.ofByte? i.opcode = op?
  unfold Op.ofByte? at hop
  split at hop <;> subst hop <;> simp_all [callee?]
  rfl

theorem wording (i : Instruction) : Wording (callee? i) (describe i) := by
  rw [callee?_eq]
  unfold describe
  cases hop : Op.ofByte? i.opcode with
  | none => exact .line (plain_other i.opcode)
  | some op =>
    cases op with
    | goto => exact .jump i _
    | gosub => exact .call .gosub (i.u8 1)
    | eventExec =>
      by_cases hcode : i.u8 2 = gosubCode
      · simp only [if_pos hcode]
        exact .call (.execute (i.u8 1)) (i.u8 3)
      · simp only [if_neg hcode]
        exact .line (plain_other i.opcode)
    | check =>
      refine .flag (i.u8 1) (i.u8 2) ?_
      simp only [toString, String.append_assoc]
      refine plain_ofList_append (by decide) ?_
      simp
      and_intros <;> exact unbroken_ofList (by decide)
    | set =>
      have hlabel : Unbroken (flagActionLabel (flagAction? (i.u8 3))) := by
        match flagAction? (i.u8 3) with
        | some .clear | some .set | some .toggle | some .test | none =>
          exact unbroken_ofList (by decide)
      refine .flag (i.u8 1) (i.u8 2) ?_
      simp only [toString, String.append_assoc]
      refine plain_ofList_append (by decide) ?_
      simp [hlabel]
      and_intros <;> exact unbroken_ofList (by decide)
    | messageOn =>
      refine .message (i.u8 2) ?_
      simp only [toString]
      exact plain_ofList_append (by decide) (by simp)
    | doorSet => exact .door _ (unbroken_ofList (by decide))
    | itemSet => exact .item _ (unbroken_ofList (by decide))
    | compare | save | copy | arithmetic | arithmeticVar =>
      exact .line (plain_describeVariable hop (by decide))
    | forBegin | switchBegin | caseBegin | sleeping | workCopy | cameraChange =>
      refine .line ?_
      simp only [toString, String.append_assoc]
      refine plain_ofList_append (by decide) ?_
      simp <;> and_intros <;> exact unbroken_ofList (by decide)
    | _ => exact .line (plain_ofList (by decide))

end Re2

namespace Re3

theorem plain_other (opcode : UInt8) : Plain (describeOther opcode) := by
  have hnames : ∀ name? ∈ names.toList, ∀ name ∈ name?, Plain name := by
    simp only [names, List.forall_mem_cons, List.not_mem_nil, false_implies, implies_true,
      and_true, true_and, Option.mem_def, Option.some.injEq, forall_eq', reduceCtorEq]
    and_intros <;> exact plain_ofList (by decide +kernel)
  rw [describeOther, name?]
  cases hentry : names[opcode.toNat]? with
  | none => exact Wording.plain_unknown opcode
  | some entry =>
    cases entry with
    | none => exact Wording.plain_unknown opcode
    | some name =>
      have hmem := Array.mem_toList_iff.2 (Array.mem_of_getElem? hentry)
      exact hnames (some name) hmem name rfl

theorem flagLine (i : Instruction) {cs : List Char} (h : PlainFront cs) :
    Wording none fun _ ↦ describeFlag i (String.ofList cs) := by
  refine .line ?_
  simp only [toString, String.append_assoc]
  refine plain_ofList_append h ?_
  simp
  and_intros <;> exact unbroken_ofList (by decide)

theorem unbroken_workArea (id : UInt8) :
    Unbroken ((Symbols.workArea? id).getD describe.unknown) := by
  have hareas : ∀ entry ∈ Symbols.workAreas, Unbroken entry.2 := by
    simp only [Symbols.workAreas, List.forall_mem_cons, List.not_mem_nil, false_implies,
      implies_true, and_true]
    and_intros <;> exact unbroken_ofList (by decide +kernel)
  exact unbroken_getD (fun _ hname ↦ forall_lookup hareas hname) (unbroken_ofList (by decide))

/-- The number of the function that an instruction calls. -/
def callee? (i : Instruction) : Option UInt8 :=
  if i.opcode = 0x19 then some (i.u8 1)
  else if i.opcode = 0x04 then some (i.u8 3)
  else none

theorem callee?_eq (i : Instruction) :
    callee? i =
      match Op.ofByte? i.opcode with
      | some .gosub => some (i.u8 1)
      | some .eventExec => some (i.u8 3)
      | _ => none := by
  generalize hop : Op.ofByte? i.opcode = op?
  unfold Op.ofByte? at hop
  split at hop <;> subst hop <;> simp_all [callee?]

theorem wording (i : Instruction) : Wording (callee? i) (describe i) := by
  rw [callee?_eq]
  have harea := unbroken_workArea (i.u8 1)
  have hsymbol : Unbroken (((varOp? i).map (·.action.symbol)).getD "???") := by
    refine unbroken_getD (fun text htext ↦ ?_) (unbroken_ofList (by decide))
    obtain ⟨op, -, rfl⟩ := Option.map_eq_some_iff.1 htext
    exact Re2.unbroken_symbol op.action
  unfold describe
  cases hop : Op.ofByte? i.opcode with
  | none => exact .line (plain_other i.opcode)
  | some op =>
    cases op with
    | check | set => exact flagLine i (by decide)
    | goto => exact .jump i _
    | gosub => exact .call .gosub (i.u8 1)
    | eventExec => exact .call (.execute (i.u8 1)) (i.u8 3)
    | messageOn =>
      refine .message (i.u8 2) ?_
      simp only [toString]
      exact plain_ofList_append (by decide) (by simp)
    | doorSet => exact .door _ (unbroken_ofList (by decide))
    | itemSet => exact .item _ (unbroken_ofList (by decide))
    | memberSet | arithmetic | workSet | aheadRoomSet | sleeping | forBegin | caseBegin
    | cameraChange =>
      refine .line ?_
      simp only [toString, String.append_assoc]
      refine plain_ofList_append (by decide) ?_
      simp [harea, hsymbol] <;> exact unbroken_ofList (by decide)
    | _ => exact .line (plain_other i.opcode)

end Re3

/-- The number of the function that an instruction calls.  In the first generation there are no
calls by number. -/
def Language.callee? : Language → Instruction → Option UInt8
  | re1Scd, _ | re1Event, _ => none
  | re2, i => Re2.callee? i
  | re3, i => Re3.callee? i

/-- **How instructions are worded**: the descriptions of every instruction are a line, a line about
a flag, a call of the function that the instruction calls, or a message. -/
theorem Language.wording (lang : Language) (i : Instruction) :
    Wording (lang.callee? i) (lang.describe i) := by
  cases lang with
  | re1Scd => exact Re1Scd.wording i
  | re1Event => exact Re1Event.wording i
  | re2 => exact Re2.wording i
  | re3 => exact Re3.wording i

end RoomScript
