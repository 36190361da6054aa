import RoomScript.Language
import RoomScript.Proofs.Captions

/-!
# Lines show what instructions do

An instruction is decoded twice, once to carry it out and once to describe it.  So the numbers in
its line need not be the numbers that the game gets.  This file compares them.

## What is here

* `Effect.number?` — the numbers of an effect, by the fields that it has.
* `Language.caption` — for each language and each kind of effect, what the words of the line are and
  where the fields of the effect are among them.  The numbers themselves are not in it.
* `Language.text_describe` — the lines of all instructions that have an effect are written by these
  captions.  There is a lemma for each language, and the parts that languages share have lemmas of
  their own (`Door.describe_eq`, `Item.describe_eq`, `VarOp.describe_eq`).
* `Language.readable_caption` — in a line that was written by a caption, the numbers can be told
  from the words around them, whatever they are.
* `Language.recorded`, `Language.Narrows` — what becomes of a number between the line and the game.
  It is kept, with one exception: a script of the first generation sets a camera with a word, and
  while the line has the word, the game gets the low byte of it.
* `Language.recorded_of_shown` — the numbers in a line can be read, what is recorded comes from
  them, and it is the same numbers but for the exception.

The exception is why numbers are written from `Language.written` and not from the effect.  For all
other fields the two are the same (`Language.value_eq_recorded`).
-/

set_option autoImplicit false

namespace RoomScript

/-! ## What effects say -/

namespace Effect

/-- The number of a field in what is handed to the game. -/
def number? : Effect → Field → Option Int
  | .door d, field =>
    match field with
    | .id => some d.id.toNat
    | .x => some d.x.toInt
    | .y => some d.y.toInt
    | .w => some d.w.toInt
    | .h => some d.h.toInt
    | .stage => some d.nextStage.toNat
    | .room => some d.nextRoom.toNat
    | .camera => some d.nextCamera.toNat
    | .toX => some d.nextPos.x.toInt
    | .toY => some d.nextPos.y.toInt
    | .toZ => some d.nextPos.z.toInt
    | .toDir => some d.nextPos.dir.toInt
    | _ => none
  | .item t, field =>
    match field with
    | .id => some t.id.toNat
    | .x => some t.x.toInt
    | .y => some t.y.toInt
    | .w => some t.w.toInt
    | .h => some t.h.toInt
    | .kind => some t.kind.toNat
    | .amount => some t.amount.toNat
    | _ => none
  | .flag op, field =>
    match field with
    | .array => some op.array.toNat
    | .bit => some op.bit.toNat
    | _ => none
  | .var op, field =>
    match field, op.operand with
    | .target, _ => some op.id.toNat
    | .value, .immediate value => some value.toInt
    | .source, .var id => some id.toNat
    | _, _ => none
  | .camera id, .camera => some id.toNat
  | .message id, .message => some id.toNat
  | _, _ => none

/-- Fields without a sign are not negative. -/
theorem number?_nonneg {e : Effect} {field : Field} (h : field.signed = false) {n : Int}
    (hn : e.number? field = some n) : 0 ≤ n := by
  cases e with
  | var op =>
    obtain ⟨id, action, operand⟩ := op
    cases operand <;> cases field <;> simp_all [number?, Field.signed] <;> omega
  | _ => cases field <;> simp_all [number?, Field.signed] <;> omega

/-- The number of a field, where it has one. -/
def value (e : Effect) (field : Field) : Int := (e.number? field).getD 0

variable {e : Effect} {field : Field}

theorem number?_eq_some_value (h : (e.number? field).isSome = true) :
    e.number? field = some (e.value field) := by
  rw [value]
  obtain ⟨n, hn⟩ := Option.isSome_iff_exists.1 h
  rw [hn, Option.getD_some]

theorem value_nonneg (h : field.signed = false) : 0 ≤ e.value field := by
  rw [value]
  cases hn : e.number? field with
  | none => exact Int.le_refl 0
  | some n => exact number?_nonneg h hn

end Effect

/-! ## The captions of the languages -/

/-- The caption of a door of the later generations. -/
def Door.caption (name : String) : Caption :=
  [.words "OBJECT #", .number .id (.marked 2), .words " = ", .words name, .words " stage ",
    .number .stage .decimal, .words " room ", .number .room (.marked 2), .words " ",
    .words "camera ", .number .camera .decimal, .words " pos (", .number .toX .decimal,
    .words ",", .number .toY .decimal, .words ",", .number .toZ .decimal, .words ") ",
    .words "dir ", .number .toDir .decimal]

/-- The caption of an item of the later generations. -/
def Item.caption (name : String) : Caption :=
  [.words "OBJECT #", .number .id (.marked 2), .words " = ", .words name, .words " type ",
    .number .kind (.marked 4), .words " amount ", .number .amount .decimal, .words " ",
    .words "at (", .number .x .decimal, .words ",", .number .y .decimal, .words ") size ",
    .number .w .decimal, .words "x", .number .h .decimal]

/-- A line about a flag: its array and its number, with words around and between them. -/
def flagCaption (front : List String) (between : String) (behind : List String) : Caption :=
  front.map .words ++ [.number .array (.marked 2), .words between, .number .bit (.marked 2)]
    ++ behind.map .words

/-- The caption of an operand. -/
def Operand.caption : Operand → Caption
  | .immediate _ => [.number .value .decimal]
  | .var _ => [.words "var", .number .source (.hex 2), .words ".W"]

/-- The caption of an operation on a variable in scripts of the second generation. -/
def VarOp.caption (op : VarOp) : Caption :=
  let target : Caption := [.words "var", .number .target (.hex 2), .words ".W"]
  match op.action with
  | .compare comparison =>
    .words "CMP " :: target ++ [.words " ", .words comparison.mnemonic, .words " "]
      ++ op.operand.caption
  | .not => target ++ .words " = !" :: target
  | action => target ++ [.words " ", .words action.symbol, .words " "] ++ op.operand.caption

/-- How the line of an instruction tells its effect. -/
def Language.caption (lang : Language) (i : Instruction) (e : Effect) : Caption :=
  match lang, e with
  | .re1Scd, .door _ =>
    [.words "OBJECT #", .number .id (.marked 2), .words " = DOOR_SET stage ",
      .words (Re1Scd.stageLabel (i.u8 15)), .words " ", .words "room ",
      .number .room (.marked 2), .words " ", .words "pos (", .number .toX .decimal, .words ",",
      .number .toY .decimal, .words ",", .number .toZ .decimal, .words ") dir ",
      .number .toDir .decimal]
  | .re1Scd, .item _ =>
    [.words "OBJECT #", .number .id (.marked 2), .words " = ITEM_SET type ",
      .number .kind (.marked 2)]
  | .re1Scd, .flag ⟨_, _, .test⟩ =>
    flagCaption ["BIT_TEST flag "] " object " [" ", onOff (i.u8 3)]
  | .re1Scd, .flag op => flagCaption ["BIT_OP flag "] " object " [" ", op.action.name]
  | .re1Scd, .camera _ =>
    [.words "STAGEROOMCAM_SET 0x02 (Camera) = ", .number .camera (.marked 2), .words " (",
      .number .camera .decimal, .words ")"]
  | .re1Scd, .message _ => [.words "PRINT_MSG ", .number .message (.marked 2)]
  | .re2, .door _ => Door.caption "DOOR_AOT_SET"
  | .re2, .item _ => Item.caption "ITEM_AOT_SET"
  | .re2, .flag ⟨_, _, .test⟩ => flagCaption ["CK array "] " bit " [" ", onOff (i.u8 3)]
  | .re2, .flag op =>
    flagCaption ["BIT_CHG ", Re2.flagActionLabel op.action, " array "] " bit " []
  | .re2, .var op => op.caption
  | .re3, .door _ => Door.caption "DOOR_AOT_SET"
  | .re3, .item _ => Item.caption "ITEM_AOT_SET"
  | .re3, .flag ⟨_, _, .test⟩ => flagCaption ["CK", " "] " object " [" ", onOff (i.u8 3)]
  | .re3, .flag _ => flagCaption ["SET", " "] " object " [" ", onOff (i.u8 3)]
  | .re3, .var ⟨_, .set, operand⟩ =>
    [.words "MEMB_SET var", .number .target (.hex 2), .words " = "] ++ operand.caption
  | .re3, .var op =>
    [.words "CALC_OP var", .number .target (.hex 2), .words " ", .words op.action.symbol,
      .words " "] ++ op.operand.caption
  | .re2, .camera _ | .re3, .camera _ => [.words "CUT_CHG ", .number .camera .decimal]
  | .re2, .message _ | .re3, .message _ => [.words "MESSAGE_ON ", .number .message (.marked 2)]
  | .re1Scd, .var _ | .re1Event, _ => []

/-- The numbers in every caption can be read, whatever its words are. -/
theorem Language.readable_caption (lang : Language) (i : Instruction) (e : Effect) :
    (lang.caption i e).readable = true := by
  cases e with
  | flag op =>
    obtain ⟨array, bit, action⟩ := op
    cases lang <;> cases action <;> rfl
  | var op =>
    obtain ⟨id, action, operand⟩ := op
    cases lang <;> cases action <;> cases operand <;> rfl
  | _ => cases lang <;> rfl

/-- A caption has numbers for fields of its effect only. -/
theorem Language.isSome_number?_fields (lang : Language) (i : Instruction) (e : Effect) :
    (lang.caption i e).fields.all (fun field ↦ (e.number? field).isSome) = true := by
  cases e with
  | flag op =>
    obtain ⟨array, bit, action⟩ := op
    cases lang <;> cases action <;> rfl
  | var op =>
    obtain ⟨id, action, operand⟩ := op
    cases lang <;> cases action <;> cases operand <;> rfl
  | _ => cases lang <;> rfl

theorem onOff_eq (b : UInt8) : onOff b = "on" ∨ onOff b = "off" := by
  rw [onOff]
  split
  · exact .inl rfl
  · exact .inr rfl

theorem Re1Scd.stageLabel_eq (packed : UInt8) :
    stageLabel packed = "-1" ∨ stageLabel packed = "+1" ∨ stageLabel packed = "+0" := by
  rw [stageLabel]
  split <;> simp

/-- No caption says that something is unknown. -/
theorem Language.plain_caption (lang : Language) (i : Instruction) (e : Effect) :
    (lang.caption i e).plain = true := by
  cases e with
  | flag op =>
    obtain ⟨array, bit, action⟩ := op
    rcases onOff_eq (i.u8 3) with h | h <;> cases lang <;> cases action <;>
      simp only [caption, h] <;> decide
  | var op =>
    obtain ⟨id, action, operand⟩ := op
    cases action with
    | compare comparison =>
      cases comparison <;> cases lang <;> cases operand <;>
        simp only [caption, VarOp.caption, Operand.caption] <;> decide
    | _ =>
      cases lang <;> cases operand <;>
        simp only [caption, VarOp.caption, Operand.caption] <;> decide
  | door d =>
    cases lang with
    | re1Scd =>
      rcases Re1Scd.stageLabel_eq (i.u8 15) with h | h | h <;> simp only [caption, h] <;> rfl
    | _ => rfl
  | _ => cases lang <;> rfl

/-- The numbers in the line of an instruction.  The first generation sets a camera with a word, and
its line has all of it. -/
def Language.written (lang : Language) (i : Instruction) (e : Effect) : Field → Int :=
  match lang, e with
  | .re1Scd, .camera _ => fun _ ↦ (i.u16 2).toNat
  | _, _ => e.value

theorem Language.written_nonneg (lang : Language) (i : Instruction) (e : Effect) {field : Field}
    (h : field.signed = false) : 0 ≤ lang.written i e field := by
  unfold written
  split
  · exact Int.natCast_nonneg _
  · exact Effect.value_nonneg h

/-! ## The lines of the languages -/

section Lines

variable {i : Instruction} {e : Effect} {context : ListingContext} {stage : UInt8}

theorem Door.describe_eq (d : Door) (name : String) :
    d.describe name = (caption name).write (Effect.door d).value := by
  unfold Door.describe
  simp only [toString, String.append_assoc, caption, Caption.write_cons, CaptionPart.write,
    Caption.write_nil, String.append_empty]
  rfl

theorem Item.describe_eq (t : Item) (name : String) :
    t.describe name = (caption name).write (Effect.item t).value := by
  unfold Item.describe
  simp only [toString, String.append_assoc, caption, Caption.write_cons, CaptionPart.write,
    Caption.write_nil, String.append_empty]
  rfl

theorem write_flagCaption (front : List String) (between : String) (behind : List String)
    (op : FlagOp) :
    (flagCaption front between behind).write (Effect.flag op).value
      = String.join front ++ (Numeral.byte op.array ++ (between ++
          (Numeral.byte op.bit ++ String.join behind))) := by
  rw [flagCaption, Caption.write_append, Caption.write_append, Caption.write_words,
    Caption.write_words]
  simp only [Caption.write_cons, CaptionPart.write, Caption.write_nil, String.append_empty,
    String.append_assoc]
  rfl

/-- The caption of a flag that is changed, and not only looked at. -/
theorem Re1Scd.caption_flag {array bit : UInt8} {action : FlagAction} (h : action ≠ .test) :
    Language.re1Scd.caption i (.flag ⟨array, bit, action⟩)
      = flagCaption ["BIT_OP flag "] " object " [" ", action.name] := by
  cases action with
  | test => exact absurd rfl h
  | _ => rfl

theorem Re2.caption_flag {array bit : UInt8} {action : FlagAction} (h : action ≠ .test) :
    Language.re2.caption i (.flag ⟨array, bit, action⟩)
      = flagCaption ["BIT_CHG ", flagActionLabel action, " array "] " bit " [] := by
  cases action with
  | test => exact absurd rfl h
  | _ => rfl

/-- The caption of a calculation. -/
theorem Re3.caption_var {id : UInt8} {action : VarAction} {operand : Operand}
    (h : action ≠ .set) :
    Language.re3.caption i (.var ⟨id, action, operand⟩)
      = [.words "CALC_OP var", .number .target (.hex 2), .words " ", .words action.symbol,
          .words " "] ++ operand.caption := by
  cases action with
  | set => exact absurd rfl h
  | _ => rfl

theorem VarOp.describe_eq (op : VarOp) :
    Re2.describeVarOp op = op.caption.write (Effect.var op).value := by
  obtain ⟨id, action, operand⟩ := op
  unfold Re2.describeVarOp
  cases action <;> cases operand <;>
    simp only [toString, String.append_assoc, caption, Operand.caption, Caption.write_cons,
      CaptionPart.write, Caption.write_nil, String.append_empty, List.cons_append,
      List.nil_append] <;>
    rfl

/-- An operation that is carried out is one that the line knows. -/
theorem exists_of_ofEffect? {α : Type} {op? : Option α} {f : α → Effect}
    (h : (Action.ofEffect? (op?.map f)).effect? = some e) : ∃ op, op? = some op ∧ f op = e := by
  cases op? with
  | none => cases h
  | some op => exact ⟨op, rfl, Option.some.inj h⟩

theorem Re2.flagAction?_ne_test (code : UInt8) : flagAction? code ≠ some .test := by
  unfold flagAction?
  split_ifs <;> simp

theorem Re2.text_describe (h : (Re2.action i).effect? = some e) :
    (Re2.describe i context).text = (Language.re2.caption i e).write e.value := by
  rw [action] at h
  rw [describe]
  cases hop : Op.ofByte? i.opcode with
  | none =>
    rw [hop] at h
    cases h
  | some op =>
    rw [hop] at h
    cases op with
    | check =>
      cases h
      simp only [toString, String.append_assoc, describeFlag, Language.caption,
        write_flagCaption, String.join_cons, String.join_nil, String.append_empty]
    | set =>
      obtain ⟨action, haction, rfl⟩ := exists_of_ofEffect? h
      rw [caption_flag fun htest ↦ flagAction?_ne_test _ (htest ▸ haction)]
      simp only [toString, String.append_assoc, describeFlag, haction, write_flagCaption,
        String.join_cons, String.join_nil, String.append_empty]
    | cameraChange =>
      cases h
      rfl
    | messageOn =>
      cases h
      rfl
    | doorSet =>
      cases h
      exact Door.describe_eq _ _
    | itemSet =>
      cases h
      exact Item.describe_eq _ _
    | compare | save | copy | arithmetic | arithmeticVar =>
      obtain ⟨operation, hoperation, rfl⟩ := exists_of_ofEffect? h
      simp only [Description.line, describeVariable, hoperation]
      exact VarOp.describe_eq operation
    | _ => cases h

theorem Re1Scd.text_eq_describeOp {op : Op} (h : Op.ofByte? i.opcode = some op) :
    (describe i context).text = describeOp i op := by
  rw [describe, h]
  cases op <;> rfl

theorem Re1Scd.flagAction_ne_test (code : UInt8) : flagAction code ≠ .test := by
  unfold flagAction
  split_ifs <;> simp

theorem Re1Scd.text_describe (h : (Re1Scd.action i stage).effect? = some e) :
    (Re1Scd.describe i context).text
      = (Language.re1Scd.caption i e).write (Language.re1Scd.written i e) := by
  rw [action] at h
  cases hop : Op.ofByte? i.opcode with
  | none =>
    rw [hop] at h
    cases h
  | some op =>
    rw [hop] at h
    rw [text_eq_describeOp hop]
    -- opened once, before the cases: there it would need its equations, one for each instruction
    unfold describeOp
    cases op with
    | bitTest =>
      cases h
      simp only [toString, String.append_assoc, Language.caption, Language.written,
        write_flagCaption, String.join_cons, String.join_nil, String.append_empty]
    | bitOp =>
      cases h
      rw [caption_flag (flagAction_ne_test (i.u8 3))]
      simp only [toString, String.append_assoc, Language.written, write_flagCaption,
        String.join_cons, String.join_nil, String.append_empty]
    | placeSet =>
      have h : (if i.u8 1 = cameraPlace then Action.perform (.camera (i.u16 2).toUInt8)
        else .nothing).effect? = some e := h
      split_ifs at h with hplace
      · cases h
        have hwords (s : String) : "STAGEROOMCAM_SET " ++ (Numeral.byte cameraPlace ++
            (" (" ++ (placeLabel cameraPlace ++ (") = " ++ s))))
              = "STAGEROOMCAM_SET 0x02 (Camera) = " ++ s := by
          simp only [← String.append_assoc]
          rfl
        simp only [hplace, toString, String.append_assoc, hwords, Language.written,
          Language.caption, Caption.write_cons, Caption.write_nil, CaptionPart.write,
          String.append_empty]
        rfl
      · cases h
    | printMessage =>
      cases h
      rfl
    | doorSet =>
      cases h
      simp only [toString, String.append_assoc, Language.written, Language.caption,
        Caption.write_cons, Caption.write_nil, CaptionPart.write, String.append_empty]
      rfl
    | itemSet =>
      cases h
      have hkind : (Style.marked 2).write ((Effect.item (item i)).value .kind)
          = Numeral.byte (i.u8 10) := by
        simp only [Effect.value, Effect.number?, item, Option.getD_some, UInt8.toNat_toUInt16]
        rfl
      simp only [toString, String.append_assoc, Language.written, Language.caption,
        Caption.write_cons, Caption.write_nil, CaptionPart.write, String.append_empty, hkind]
      rfl
    | _ => cases h

theorem VarAction.ofCode?_ne_set (code : UInt8) : ofCode? code ≠ some set := by
  unfold ofCode?
  split <;> simp

theorem Re3.text_describe (h : (Re3.action i).effect? = some e) :
    (Re3.describe i context).text = (Language.re3.caption i e).write e.value := by
  rw [action] at h
  rw [describe]
  cases hop : Op.ofByte? i.opcode with
  | none =>
    rw [hop] at h
    cases h
  | some op =>
    rw [hop] at h
    cases op with
    | check =>
      cases h
      simp only [Description.line, toString, String.append_assoc, describeFlag, Language.caption,
        write_flagCaption, String.join_cons, String.join_nil, String.append_empty]
    | set =>
      cases h
      rw [show Language.re3.caption i (.flag ⟨i.u8 1, i.u8 2, if i.u8 3 = 0 then .clear else .set⟩)
          = flagCaption ["SET", " "] " object " [" ", onOff (i.u8 3)] by split_ifs <;> rfl]
      simp only [Description.line, toString, String.append_assoc, describeFlag,
        write_flagCaption, String.join_cons, String.join_nil, String.append_empty]
    | memberSet =>
      cases h
      simp only [Description.line, toString, String.append_assoc, Language.caption,
        Operand.caption, List.cons_append, List.nil_append, Caption.write_cons,
        Caption.write_nil, CaptionPart.write, String.append_empty]
      rfl
    | arithmetic =>
      obtain ⟨operation, hoperation, rfl⟩ := exists_of_ofEffect? h
      obtain ⟨action, haction, rfl⟩ := Option.map_eq_some_iff.1 hoperation
      rw [caption_var fun hset ↦ VarAction.ofCode?_ne_set _ (hset ▸ haction)]
      simp only [Description.line, toString, String.append_assoc, hoperation, Option.map_some,
        Option.getD_some, Operand.caption, List.cons_append, List.nil_append, Caption.write_cons,
        Caption.write_nil, CaptionPart.write, String.append_empty]
      rfl
    | cameraChange =>
      cases h
      rfl
    | messageOn =>
      cases h
      rfl
    | doorSet =>
      cases h
      exact Door.describe_eq _ _
    | itemSet =>
      cases h
      exact Item.describe_eq _ _
    | _ => cases h

/-- **Lines are written by captions**: the line of an instruction that has an effect is the caption
of the effect. -/
theorem Language.text_describe {lang : Language} (h : (lang.action i stage).effect? = some e) :
    (lang.describe i context).text = (lang.caption i e).write (lang.written i e) := by
  cases lang with
  | re1Scd => exact Re1Scd.text_describe h
  | re1Event => cases h
  | re2 =>
    rw [show Language.re2.written i e = e.value by cases e <;> rfl]
    exact Re2.text_describe h
  | re3 =>
    rw [show Language.re3.written i e = e.value by cases e <;> rfl]
    exact Re3.text_describe h

end Lines

/-! ## Reading the lines -/

/-- The numbers that the line of an instruction has for the fields of an effect. -/
def Language.shown? (lang : Language) (i : Instruction) (context : ListingContext) (e : Effect) :
    Option (List (Field × Int)) :=
  (lang.caption i e).read (lang.describe i context).text.toList

/-- What is recorded of a number that a line shows: of a camera, scripts of the first generation
keep the low byte. -/
def Language.recorded (lang : Language) (field : Field) (n : Int) : Int :=
  if lang = .re1Scd ∧ field = .camera then n % 256 else n

/-- Whether the line of an instruction has a word where its effect has a byte that is less. -/
def Language.Narrows (lang : Language) (i : Instruction) (e : Effect) : Prop :=
  lang = .re1Scd ∧ (∃ id, e = .camera id) ∧ 256 ≤ (i.u16 2).toNat

section Reading

variable {lang : Language} {i : Instruction} {e : Effect} {stage : UInt8}

theorem Re1Scd.camera_eq {id : UInt8} (h : (action i stage).effect? = some (.camera id)) :
    id = (i.u16 2).toUInt8 := by
  rw [action] at h
  cases hop : Op.ofByte? i.opcode with
  | none =>
    rw [hop] at h
    cases h
  | some op =>
    rw [hop] at h
    cases op with
    | placeSet =>
      have h : (if i.u8 1 = cameraPlace then Action.perform (.camera (i.u16 2).toUInt8)
        else .nothing).effect? = some (.camera id) := h
      split_ifs at h
      · cases h
        rfl
      · cases h
    | _ => cases h

theorem Re1Scd.camera_notMem_fields (h : ∀ id, e ≠ .camera id) :
    (Language.re1Scd.caption i e).fields.all (· ≠ .camera) = true := by
  cases e with
  | camera id => exact absurd rfl (h id)
  | flag op =>
    obtain ⟨array, bit, action⟩ := op
    cases action <;> rfl
  | _ => rfl

/-- The numbers in the effect come from those in the line. -/
theorem Language.value_eq_recorded (h : (lang.action i stage).effect? = some e) :
    ∀ field ∈ (lang.caption i e).fields,
      e.value field = lang.recorded field (lang.written i e field) := by
  intro field hfield
  unfold written
  split
  · next id =>
    obtain rfl := Re1Scd.camera_eq h
    have hfield : .camera = field := by
      simpa [Language.caption, Caption.fields, CaptionPart.field?] using hfield
    rw [recorded, ← hfield, if_pos ⟨rfl, rfl⟩]
    simp [Effect.value, Effect.number?]
  · next hcamera =>
    rw [recorded, if_neg]
    rintro ⟨rfl, rfl⟩
    have hall := Re1Scd.camera_notMem_fields (i := i) fun id he ↦ hcamera id rfl he
    simpa using List.all_eq_true.1 hall _ hfield

/-- They are the same numbers, unless a word is cut to a byte. -/
theorem Language.forall_value_eq_written_iff (h : (lang.action i stage).effect? = some e) :
    (∀ field ∈ (lang.caption i e).fields, e.value field = lang.written i e field)
      ↔ ¬ lang.Narrows i e := by
  constructor
  · rintro hall ⟨rfl, ⟨id, rfl⟩, hword⟩
    have hvalue : (id.toNat : Int) = (i.u16 2).toNat := hall .camera List.mem_cons_self
    have hlt : id.toNat < 256 := id.toNat_lt
    omega
  · intro hbyte field hfield
    rw [value_eq_recorded h field hfield, recorded]
    split
    · next hcamera =>
      obtain ⟨rfl, rfl⟩ := hcamera
      obtain ⟨id, rfl⟩ : ∃ id, e = .camera id := by
        by_contra hne
        have hall := Re1Scd.camera_notMem_fields (i := i) fun id he ↦ hne ⟨id, he⟩
        simpa using List.all_eq_true.1 hall _ hfield
      have hlt : (i.u16 2).toNat < 256 := Nat.lt_of_not_le fun hword ↦ hbyte ⟨rfl, ⟨id, rfl⟩, hword⟩
      simp only [written]
      omega
    · rfl

end Reading

/-- **A line shows what is recorded.**  The numbers in the line of an instruction that has an effect
can be read, one for each field of its caption.  What is recorded comes from them, and it is the
same numbers, unless a script of the first generation sets a camera with a word that is no byte.
And such a line never says that something is unknown: an instruction whose operator is shown as
`???` has no effect. -/
theorem Language.recorded_of_shown {lang : Language} {i : Instruction} {stage : UInt8} {e : Effect}
    (h : (lang.action i stage).effect? = some e) (context : ListingContext) :
    ∃ shown, lang.shown? i context e = some shown ∧
      shown.map Prod.fst = (lang.caption i e).fields ∧
      (∀ number ∈ shown, e.number? number.1 = some (lang.recorded number.1 number.2)) ∧
      ((∀ number ∈ shown, e.number? number.1 = some number.2) ↔ ¬ lang.Narrows i e) ∧
      '?' ∉ (lang.describe i context).text.toList := by
  have hnumber : ∀ field ∈ (lang.caption i e).fields, e.number? field = some (e.value field) :=
    fun field hfield ↦ Effect.number?_eq_some_value
      (List.all_eq_true.1 (lang.isSome_number?_fields i e) field hfield)
  refine ⟨(lang.caption i e).fields.map fun field ↦ (field, lang.written i e field),
    ?_, ?_, ?_, ?_, ?_⟩
  · rw [shown?, text_describe h]
    exact Caption.read_write (lang.readable_caption i e) fun _ ↦ lang.written_nonneg i e
  · rw [List.map_map]
    exact List.map_id _
  · rw [List.forall_mem_map]
    intro field hfield
    rw [hnumber field hfield, value_eq_recorded h field hfield]
  · rw [List.forall_mem_map, ← forall_value_eq_written_iff h]
    refine forall₂_congr fun field hfield ↦ ?_
    rw [hnumber field hfield, Option.some_inj]
  · rw [text_describe h]
    exact Caption.notMem_write (lang.plain_caption i e)

/-- A shift of a variable that is cut short in its operand. -/
theorem Language.recorded_of_shown_shift :
    let i : Instruction := { bytes := #[0x26, 0x00, 0x0b, 0x03, 0xfc] }
    let e : Effect := .var ⟨3, .sar, .immediate 0⟩
    (Language.re2.action i 0).effect? = some e ∧
      ∃ shown, Language.re2.shown? i {} e = some shown ∧
        shown.map Prod.fst = (Language.re2.caption i e).fields ∧
        (∀ number ∈ shown,
          e.number? number.1 = some (Language.re2.recorded number.1 number.2)) ∧
        ((∀ number ∈ shown, e.number? number.1 = some number.2) ↔ ¬ Language.re2.Narrows i e) ∧
        '?' ∉ (Language.re2.describe i {}).text.toList :=
  have heffect : (Language.re2.action { bytes := #[0x26, 0x00, 0x0b, 0x03, 0xfc] } 0).effect?
      = some (.var ⟨3, .sar, .immediate 0⟩) := by decide +kernel
  ⟨heffect, Language.recorded_of_shown heffect {}⟩

/-- A word that sets a camera, and is more than a byte, is not what the line shows. -/
theorem Language.not_forall_shown_recorded :
    ¬ ∀ (lang : Language) (i : Instruction) (stage : UInt8) (context : ListingContext) (e : Effect),
      (lang.action i stage).effect? = some e →
        ∃ shown, lang.shown? i context e = some shown ∧
          ∀ number ∈ shown, e.number? number.1 = some number.2 := by
  intro hall
  let i : Instruction := { bytes := #[0x08, 0x02, 0x03, 0x01] }
  have hshown : Language.re1Scd.shown? i {} (.camera 3)
      = some [(.camera, 0x103), (.camera, 0x103)] := by decide +kernel
  obtain ⟨shown, hshown', heq⟩ := hall .re1Scd i 0 {} (.camera 3) (by decide +kernel)
  cases hshown.symm.trans hshown'
  exact absurd (heq _ List.mem_cons_self) (by decide)

end RoomScript
