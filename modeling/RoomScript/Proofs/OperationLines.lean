import RoomScript.Proofs.CaptionedLines
import RoomScript.Proofs.Calls
import RoomScript.Proofs.Effects

/-!
# What an operation on a variable reads like

Scripts of the later generations have several instructions that write to a variable, with the
fields at different places.  Their lines have the same form: the variable, a sign such as `+=`, and
what is on the right of it.  So a line tells which variable is written to, and from the sign and the
right hand side one gets the action and the operand.

There is one thing that a line does not tell.  The two shifts to the right have the same sign, so
operations with the same line are the same up to these.

## What is here

* `Language.operation?` — the operation of an instruction that writes to a variable.
* `Language.operationLine` — how such an operation reads, and `Language.text_of_operation`: the line
  of every instruction that has one.
* `Language.parts_of_operationLine` — the parts of a line are determined by it, because the sign has
  no blank in it and stands between two blanks.
* `VarOp.Alike`, `VarOp.alike_of_operationLine_eq` — operations with the same line have the same
  variable and the same operand, and the same action unless both are shifts to the right.
* `VarAction.update_shr_eq_sar_iff` — the two shifts leave the same value if the variable is not
  negative or is not shifted at all, and different values otherwise.
* `Language.after_of_text_eq` — both together.

Negating a variable is written with no operand, but the instruction has one, which is not looked at;
so two of these can read alike and differ in their bytes.
-/

set_option autoImplicit false

namespace RoomScript

/-! ## The two shifts to the right -/

namespace VarAction

/-- The number of places that an operand shifts by. -/
def shiftCount (operand : Int16) : Nat := (operand &&& 15).toBitVec.toNat

variable (current operand : Int16)

theorem shiftCount_lt : shiftCount operand < 16 := by
  have h : operand.toBitVec.toNat &&& 15 ≤ 15 := Nat.and_le_right
  simpa [shiftCount] using Nat.lt_succ_of_le h

theorem shiftCount_eq_zero_iff : shiftCount operand = 0 ↔ operand &&& 15 = 0 := by
  rw [shiftCount, ← Int16.toBitVec_inj, ← BitVec.toNat_inj]
  simp

/-- A logical shift, on bits. -/
theorem toBitVec_shr :
    ((current.toUInt16 >>> (operand.toUInt16 &&& 15)).toInt16).toBitVec
      = current.toBitVec >>> shiftCount operand := by
  have hmod : (operand.toUInt16 &&& 15).toBitVec % 16 = (operand &&& 15).toBitVec := by
    rw [← BitVec.toNat_inj, BitVec.toNat_umod]
    exact Nat.mod_eq_of_lt (shiftCount_lt operand)
  show (current.toUInt16 >>> (operand.toUInt16 &&& 15)).toBitVec = _
  rw [UInt16.toBitVec_shiftRight, hmod]
  rfl

/-- What the words of the processor shift by is the number of places. -/
theorem toNat_smod_sixteen : ((operand &&& 15).toBitVec.smod 16).toNat = shiftCount operand := by
  have hlt := shiftCount_lt operand
  have hmsb : (operand &&& 15).toBitVec.msb = false := by
    rw [BitVec.msb_eq_false_iff_two_mul_lt]
    unfold shiftCount at hlt
    omega
  unfold BitVec.smod
  rw [hmsb]
  simp only [BitVec.umod_eq, shiftCount]
  exact Nat.mod_eq_of_lt hlt

/-- An arithmetic shift, on bits. -/
theorem toBitVec_sar :
    (current >>> (operand &&& 15)).toBitVec
      = current.toBitVec.sshiftRight (shiftCount operand) := by
  rw [Int16.toBitVec_shiftRight, BitVec.sshiftRight', toNat_smod_sixteen]

/-- The two shifts to the right agree where there is no sign to keep, and where nothing is
shifted. -/
theorem update_shr_eq_sar_iff :
    shr.update current operand = sar.update current operand
      ↔ 0 ≤ current ∨ operand &&& 15 = 0 := by
  have hsign : 0 ≤ current ↔ current.toBitVec.msb = false := by
    simp [Int16.le_iff_toBitVec_sle, BitVec.sle_eq_decide, BitVec.msb_eq_toInt]
  rw [update, update, Option.some_inj, ← Int16.toBitVec_inj, toBitVec_shr, toBitVec_sar, hsign,
    ← shiftCount_eq_zero_iff]
  constructor
  · intro h
    have hmsb := congrArg BitVec.msb h
    rw [BitVec.msb_ushiftRight, BitVec.msb_sshiftRight] at hmsb
    cases hc : current.toBitVec.msb with
    | false => exact .inl rfl
    | true => simpa [hc] using hmsb
  · rintro (h | h)
    · exact (BitVec.sshiftRight_eq_of_msb_false h).symm
    · rw [h, BitVec.sshiftRight_zero, BitVec.ushiftRight_zero]

/-- Whether the action is one of the two shifts to the right. -/
def IsRightShift (action : VarAction) : Prop := action = shr ∨ action = sar

/-- The sign between a variable and what is on the right. -/
def sign : VarAction → String
  | not => "="
  | action => action.symbol

/-- Signs have no blanks. -/
theorem ne_blank_of_mem_sign (action : VarAction) :
    ∀ c ∈ action.sign.toList, decide (c ≠ ' ') = true := by
  have hall : action.sign.toList.all (· ≠ ' ') = true := by
    cases action with
    | compare comparison => cases comparison <;> decide
    | _ => decide
  exact List.all_eq_true.1 hall

/-- What a sign tells of the action. -/
theorem eq_of_sign_eq {a b : VarAction} (h : a.sign = b.sign) :
    a = b ∨ (a.IsRightShift ∧ b.IsRightShift) ∨ (a = set ∧ b = not) ∨ (a = not ∧ b = set) := by
  cases a with
  | compare c => cases b with
    | compare c' => cases c <;> cases c' <;> simp_all [sign, symbol, Comparison.mnemonic]
    | _ => cases c <;> simp_all [sign, symbol, Comparison.mnemonic]
  | _ => cases b with
    | compare c' => cases c' <;> simp_all [sign, symbol, Comparison.mnemonic]
    | _ => simp_all [sign, symbol, IsRightShift]

end VarAction

/-! ## Numbers and operands -/

theorem hex2_injective {a b : UInt8} (h : hex2 a = hex2 b) : a = b := by
  have hread := Numeral.readHex_hex 2 a.toNat
  rw [show Numeral.hex 2 a.toNat = Numeral.hex 2 b.toNat from h, Numeral.readHex_hex] at hread
  exact UInt8.toNat_inj.1 (Option.some.inj hread).symm

namespace Operand

/-- An operand as lines show it. -/
def text : Operand → String
  | immediate value => value.toInt.repr
  | var id => "var" ++ (hex2 id ++ ".W")

theorem toList_text_var (id : UInt8) :
    (var id).text.toList = 'v' :: 'a' :: 'r' :: ((hex2 id).toList ++ ['.', 'W']) := by
  simp [text]

/-- Numbers are made of digits. -/
theorem isDigit_of_mem_text {value : Int16} {c : Char} (h : c ∈ (immediate value).text.toList) :
    Style.decimal.isDigit c = true :=
  @Style.isDigit_of_mem_write .decimal value.toInt c h

/-- The text of an operand tells which one it is. -/
theorem text_injective {operand operand' : Operand} (h : operand.text = operand'.text) :
    operand = operand' := by
  have hvar (value : Int16) (id : UInt8) : (immediate value).text ≠ (var id).text := by
    intro heq
    have hmem : 'v' ∈ (immediate value).text.toList := by
      rw [heq, toList_text_var]
      exact List.mem_cons_self
    exact absurd (isDigit_of_mem_text hmem) (by decide)
  match operand, operand' with
  | immediate value, immediate value' =>
    have hread (value : Int16) :
        Style.decimal.read (immediate value).text.toList = some value.toInt :=
      @Style.read_write .decimal value.toInt trivial
    have hvalues := hread value
    rw [h, hread] at hvalues
    rw [Int16.toInt_inj.1 (Option.some.inj hvalues)]
  | var id, var id' =>
    rw [text, text, String.append_right_inj, String.append_left_inj] at h
    rw [hex2_injective h]
  | immediate value, var id => exact absurd h (hvar value id)
  | var id, immediate value => exact absurd h.symm (hvar value id)

/-- No operand begins like a negation. -/
theorem head?_text_ne (operand : Operand) : operand.text.toList.head? ≠ some '!' := by
  cases operand with
  | immediate value =>
    intro hhead
    exact absurd (isDigit_of_mem_text (List.mem_of_head? hhead)) (by decide)
  | var id => simp [toList_text_var]

end Operand

/-! ## Lines of operations -/

/-- The operation of an instruction that writes to a variable by a calculation or a plain
assignment. -/
def Language.operation? : Language → Instruction → Option VarOp
  | .re2, i =>
    ((Re2.Op.ofByte? i.opcode).filter
      (· ∈ [Re2.Op.save, .copy, .arithmetic, .arithmeticVar])).bind (Re2.varOp? i)
  | .re3, i => if Re3.Op.ofByte? i.opcode = some .arithmetic then Re3.varOp? i else none
  | _, _ => none

/-- What a line has in front of the number of the variable. -/
def Language.operationFront : Language → String
  | .re3 => "CALC_OP var"
  | _ => "var"

/-- What a line has between the number of the variable and the sign. -/
def Language.operationBehind : Language → String
  | .re3 => " "
  | _ => ".W "

/-- What a line has on the right of the sign.  A negation in the second generation has the variable
there; in the third, it has the operand although it is not used. -/
def Language.operationRight : Language → VarOp → String
  | .re3, ⟨_, .not, operand⟩ => "! " ++ operand.text
  | _, ⟨id, .not, _⟩ => "!" ++ (Operand.var id).text
  | _, op => op.operand.text

/-- The line of an operation. -/
def Language.operationLine (lang : Language) (op : VarOp) : String :=
  lang.operationFront ++ (hex2 op.id ++ (lang.operationBehind ++ (op.action.sign ++
    (" " ++ lang.operationRight op))))

variable {lang : Language} {i j : Instruction} {op op' : VarOp}

theorem VarAction.ofCode?_ne_compare (code : UInt8) (c : Comparison) :
    ofCode? code ≠ some (compare c) := by
  unfold ofCode?
  split <;> simp

/-- What the second generation has for an operation: one of four instructions, none of which
compares. -/
theorem Re2.action_of_operation (h : Language.re2.operation? i = some op) :
    action i = .perform (.var op) ∧ ∀ c, op.action ≠ .compare c := by
  obtain ⟨o, hop, hvar⟩ := Option.bind_eq_some_iff.1 h
  obtain ⟨hop, hmem⟩ := Option.filter_eq_some_iff.1 hop
  have hmem : o ∈ [Op.save, .copy, .arithmetic, .arithmeticVar] := of_decide_eq_true hmem
  simp only [List.mem_cons, List.not_mem_nil, or_false] at hmem
  rw [action, hop]
  refine ⟨?_, fun c hc ↦ ?_⟩
  · rcases hmem with rfl | rfl | rfl | rfl <;> simp only [hvar] <;> rfl
  · rcases hmem with rfl | rfl | rfl | rfl
    · cases hvar
      cases hc
    · cases hvar
      cases hc
    · obtain ⟨a, ha, rfl⟩ := Option.map_eq_some_iff.1 hvar
      exact VarAction.ofCode?_ne_compare _ c (ha.trans (congrArg some hc))
    · obtain ⟨a, ha, rfl⟩ := Option.map_eq_some_iff.1 hvar
      exact VarAction.ofCode?_ne_compare _ c (ha.trans (congrArg some hc))

theorem Re3.action_of_operation (h : Language.re3.operation? i = some op) :
    action i = .perform (.var op) ∧ (∀ c, op.action ≠ .compare c) ∧ op.action ≠ .set := by
  have h : (if Op.ofByte? i.opcode = some .arithmetic then varOp? i else none) = some op := h
  split_ifs at h with hop
  obtain ⟨a, ha, rfl⟩ := Option.map_eq_some_iff.1 h
  refine ⟨?_, fun c hc ↦ ?_, fun hset ↦ ?_⟩
  · rw [action, hop]
    simp only [h]
    rfl
  · exact VarAction.ofCode?_ne_compare _ c (ha.trans (congrArg some hc))
  · exact VarAction.ofCode?_ne_set _ (ha.trans (congrArg some hset))

theorem Operand.write_caption (id : UInt8) (action : VarAction) (operand : Operand) :
    operand.caption.write (Effect.var ⟨id, action, operand⟩).value = operand.text := by
  cases operand <;> rfl

/-- The line of an operation in the second generation. -/
theorem Re2.describeVarOp_eq (h : ∀ c, op.action ≠ .compare c) :
    describeVarOp op = Language.re2.operationLine op := by
  obtain ⟨id, action, operand⟩ := op
  rw [← String.toList_inj]
  cases action with
  | compare c => exact absurd rfl (h c)
  | _ =>
    cases operand <;>
      simp [describeVarOp, Language.operationLine, Language.operationFront, VarAction.sign,
        Language.operationBehind, Language.operationRight, Operand.text, VarAction.symbol, toString]

/-- The line of an operation in the third generation. -/
theorem Re3.write_caption_eq (hcompare : ∀ c, op.action ≠ .compare c) (hset : op.action ≠ .set) :
    (Language.re3.caption i (.var op)).write (Effect.var op).value
      = Language.re3.operationLine op := by
  obtain ⟨id, action, operand⟩ := op
  have hwrite : (Language.re3.caption i (.var ⟨id, action, operand⟩)).write
      (Effect.var ⟨id, action, operand⟩).value
        = "CALC_OP var" ++ (hex2 id ++ (" " ++ (action.symbol ++ (" " ++ operand.text)))) := by
    rw [caption_var hset, Caption.write_append, Operand.write_caption]
    simp only [Caption.write_cons, CaptionPart.write, Caption.write_nil, String.append_empty,
      String.append_assoc]
    rfl
  rw [hwrite]
  cases action with
  | not =>
    rw [← String.toList_inj]
    simp [Language.operationLine, Language.operationFront, Language.operationBehind,
      Language.operationRight, VarAction.sign, VarAction.symbol]
  | _ => rfl

/-- The line of an instruction with an operation. -/
theorem Language.text_of_operation (h : lang.operation? i = some op) (context : ListingContext) :
    (lang.describe i context).text = lang.operationLine op := by
  cases lang with
  | re1Scd | re1Event => cases h
  | re2 =>
    obtain ⟨haction, hcompare⟩ := Re2.action_of_operation h
    rw [show Language.re2.describe i context = Re2.describe i context from rfl,
      Re2.text_describe (congrArg Action.effect? haction), ← Re2.describeVarOp_eq hcompare]
    exact (VarOp.describe_eq op).symm
  | re3 =>
    obtain ⟨haction, hcompare, hset⟩ := Re3.action_of_operation h
    rw [show Language.re3.describe i context = Re3.describe i context from rfl,
      Re3.text_describe (congrArg Action.effect? haction), Re3.write_caption_eq hcompare hset]

/-! ## Reading the lines -/

/-- Two operations that no line tells apart: they are the same up to the two shifts to the right,
and up to the operand of a negation, which is not used. -/
structure VarOp.Alike (op op' : VarOp) : Prop where
  id : op.id = op'.id
  action : op.action = op'.action ∨ (op.action.IsRightShift ∧ op'.action.IsRightShift)
  operand : op.action = .not ∨ op.operand = op'.operand

theorem Language.operationRight_eq (h : op.action ≠ .not) :
    lang.operationRight op = op.operand.text := by
  obtain ⟨id, action, operand⟩ := op
  cases action with
  | not => exact absurd rfl h
  | _ => cases lang <;> rfl

/-- What is on the right of the sign begins with a mark exactly in a negation. -/
theorem Language.head?_operationRight :
    (lang.operationRight op).toList.head? = some '!' ↔ op.action = .not := by
  by_cases hnot : op.action = .not
  · obtain ⟨id, action, operand⟩ := op
    cases hnot
    cases lang <;> simp [operationRight]
  · rw [operationRight_eq hnot]
    exact iff_of_false op.operand.head?_text_ne hnot

/-- The parts of a line can be told apart. -/
theorem Language.parts_of_operationLine (h : lang.operationLine op = lang.operationLine op') :
    op.id = op'.id ∧ op.action.sign = op'.action.sign ∧
      lang.operationRight op = lang.operationRight op' := by
  have h := congrArg String.toList h
  simp only [operationLine, String.toList_append] at h
  obtain ⟨c, d, hid⟩ := exists_toList_hex2 op.id
  obtain ⟨c', d', hid'⟩ := exists_toList_hex2 op'.id
  -- numbers of variables have two digits, so the lines go on at the same place behind them
  have hlength : (hex2 op.id).toList.length = (hex2 op'.id).toList.length := by
    rw [hid, hid']
    rfl
  obtain ⟨hnumber, hrest⟩ := List.append_inj (List.append_cancel_left h) hlength
  have hrest := List.append_cancel_left hrest
  obtain ⟨htake, hdrop⟩ := takeWhile_dropWhile_mark op.action.ne_blank_of_mem_sign ' ' (by simp)
    (lang.operationRight op).toList
  obtain ⟨htake', hdrop'⟩ := takeWhile_dropWhile_mark op'.action.ne_blank_of_mem_sign ' ' (by simp)
    (lang.operationRight op').toList
  have hrest : op.action.sign.toList ++ ' ' :: (lang.operationRight op).toList
      = op'.action.sign.toList ++ ' ' :: (lang.operationRight op').toList := hrest
  rw [hrest] at htake hdrop
  refine ⟨hex2_injective (String.toList_inj.1 hnumber), ?_, ?_⟩
  · exact String.toList_inj.1 (htake.symm.trans htake')
  · exact String.toList_inj.1 (List.cons.inj (hdrop.symm.trans hdrop')).2

/-- Operations with the same line are alike. -/
theorem VarOp.alike_of_operationLine_eq (h : lang.operationLine op = lang.operationLine op') :
    op.Alike op' := by
  obtain ⟨hid, hsign, hright⟩ := Language.parts_of_operationLine h
  -- an assignment and a negation have the same sign, and differ on the right of it
  have hnot : op.action = .not ↔ op'.action = .not := by
    rw [← Language.head?_operationRight, hright, Language.head?_operationRight]
  have haction : op.action = op'.action ∨ (op.action.IsRightShift ∧ op'.action.IsRightShift) := by
    rcases VarAction.eq_of_sign_eq hsign with heq | hshift | ⟨hset, hnot'⟩ | ⟨hnot', hset⟩
    · exact .inl heq
    · exact .inr hshift
    · rw [hnot.2 hnot'] at hset
      cases hset
    · rw [hnot.1 hnot'] at hset
      cases hset
  refine ⟨hid, haction, ?_⟩
  by_cases hop : op.action = .not
  · exact .inl hop
  · rw [Language.operationRight_eq hop, Language.operationRight_eq (hnot.not.1 hop)] at hright
    exact .inr (Operand.text_injective hright)

/-! ## What alike operations do -/

/-- Alike operations leave the same values, unless one of them keeps the sign in a shift and the
other does not. -/
theorem VarOp.Alike.var_performVar_iff (h : op.Alike op') (s : RoomState) :
    (∀ id, (s.performVar op).var id = (s.performVar op').var id)
      ↔ op.action = op'.action ∨ 0 ≤ s.var op.id ∨ s.operand op.operand &&& 15 = 0 := by
  obtain ⟨id, action, operand⟩ := op
  obtain ⟨id', action', operand'⟩ := op'
  obtain ⟨hid, haction, hoperand⟩ := h
  cases hid
  have hvar : (∀ other, (s.performVar ⟨id, action, operand⟩).var other
        = (s.performVar ⟨id, action', operand'⟩).var other)
      ↔ (action.update (s.var id) (s.operand operand)).getD (s.var id)
        = (action'.update (s.var id) (s.operand operand')).getD (s.var id) := by
    simp only [RoomState.var_performVar]
    constructor
    · intro hall
      simpa using hall id
    · intro heq other
      rw [heq]
  rw [hvar]
  by_cases heq : action = action'
  · refine iff_of_true ?_ (.inl heq)
    cases heq
    rcases hoperand with hnot | heq
    · cases hnot
      rfl
    · cases heq
      rfl
  · obtain ⟨hshift, hshift'⟩ := haction.resolve_left heq
    have hoperand : operand = operand' := by
      refine hoperand.resolve_left ?_
      rintro rfl
      rcases hshift with h | h <;> cases h
    cases hoperand
    have hiff := VarAction.update_shr_eq_sar_iff (s.var id) (s.operand operand)
    rw [or_iff_right heq, ← hiff]
    rcases hshift with rfl | rfl <;> rcases hshift' with rfl | rfl
    · exact absurd rfl heq
    · exact Option.some_inj.symm
    · exact eq_comm.trans Option.some_inj.symm
    · exact absurd rfl heq

/-! ## Instructions with the same line -/

/-- The game after an instruction. -/
def RoomState.after (s : RoomState) (lang : Language) (i : Instruction) : RoomState :=
  (Runner.act { room := s } (lang.action i s.stage)).room

theorem RoomState.after_of_operation (s : RoomState) (h : lang.operation? i = some op) :
    s.after lang i = s.performVar op := by
  have haction : lang.action i s.stage = .perform (.var op) := by
    cases lang with
    | re1Scd | re1Event => cases h
    | re2 => exact (Re2.action_of_operation h).1
    | re3 => exact (Re3.action_of_operation h).1
  rw [after, haction]
  rfl

/-- **Operations that read alike act alike**, but for the two shifts to the right.  If two
operations on variables have the same line, they work on the same variable, with the same action and
the same operand, or are two shifts to the right with the same operand.  They leave the same values
in all variables, unless they are different shifts, the variable is negative, and it is shifted at
all. -/
theorem Language.after_of_text_eq {lang : Language} {i j : Instruction} {op op' : VarOp}
    (hi : lang.operation? i = some op) (hj : lang.operation? j = some op')
    {context context' : ListingContext}
    (htext : (lang.describe i context).text = (lang.describe j context').text) :
    op.Alike op' ∧ ∀ s : RoomState,
      (∀ id, (s.after lang i).var id = (s.after lang j).var id)
        ↔ op.action = op'.action ∨ 0 ≤ s.var op.id ∨ s.operand op.operand &&& 15 = 0 := by
  rw [text_of_operation hi, text_of_operation hj] at htext
  have halike := VarOp.alike_of_operationLine_eq htext
  refine ⟨halike, fun s ↦ ?_⟩
  rw [s.after_of_operation hi, s.after_of_operation hj]
  exact halike.var_performVar_iff s

/-- The shifts of a variable to the right by one place. -/
theorem Language.after_of_text_eq_shifts :
    let i : Instruction := { bytes := #[0x26, 0x00, 0x09, 0x03, 0x01, 0x00] }
    let j : Instruction := { bytes := #[0x26, 0x00, 0x0b, 0x03, 0x01, 0x00] }
    let op : VarOp := ⟨3, .shr, .immediate 1⟩
    let op' : VarOp := ⟨3, .sar, .immediate 1⟩
    (Language.re2.operation? i = some op ∧ Language.re2.operation? j = some op' ∧
      (Language.re2.describe i {}).text = (Language.re2.describe j {}).text) ∧
    op.Alike op' ∧ ∀ s : RoomState,
      (∀ id, (s.after .re2 i).var id = (s.after .re2 j).var id)
        ↔ op.action = op'.action ∨ 0 ≤ s.var op.id ∨ s.operand op.operand &&& 15 = 0 :=
  ⟨⟨by decide +kernel, by decide +kernel, by decide +kernel⟩,
    Language.after_of_text_eq (by decide +kernel) (by decide +kernel)
      (by decide +kernel : (Language.re2.describe _ {}).text = (Language.re2.describe _ {}).text)⟩

/-- The two shifts of a negative variable have one line, and leave different values. -/
theorem Language.not_forall_after_eq :
    ¬ ∀ (lang : Language) (i j : Instruction) (op op' : VarOp) (context : ListingContext),
      lang.operation? i = some op → lang.operation? j = some op' →
      lang.length i.bytes.whole .m0 = i.length → lang.length j.bytes.whole .m0 = j.length →
      (lang.describe i context).text = (lang.describe j context).text →
        ∀ (s : RoomState) (id : UInt8), (s.after lang i).var id = (s.after lang j).var id := by
  intro hall
  let i : Instruction := { bytes := #[0x26, 0x00, 0x09, 0x03, 0x01, 0x00] }
  let j : Instruction := { bytes := #[0x26, 0x00, 0x0b, 0x03, 0x01, 0x00] }
  have heq := hall .re2 i j ⟨3, .shr, .immediate 1⟩ ⟨3, .sar, .immediate 1⟩ {} (by decide +kernel)
    (by decide +kernel) (by decide +kernel) (by decide +kernel) (by decide +kernel)
    { vars := [(3, -4)] } 3
  exact absurd heq (by decide +kernel)

end RoomScript
