import RoomScript.Proofs.Decoding

/-!
# Structured scripts and their bytes

The languages that have bodies write a structured script down in a row.  An instruction that opens
a body stores a length, the body comes right behind it, and so does the rest of the script behind
the body.  This file has structured scripts (`ScriptTree`) and how they are written
(`ScriptTree.assemble`).

What the stored length counts beside the body is different in each language and for each opener:
nothing, two bytes or four.  All of that is in one table (`Language.form?`).  The table was written
down from what the languages say about themselves and not from how a walk finds the end of a body,
and that the two agree is the point of `Language.body?_header`.

An `if` of the later generations is the difficult case.  Its stored length takes in a closing
instruction or not, and a walk has to look at one byte behind the body to find out.  Where that byte
is depends on the stored length.  With `Language.Closes` it is the right one:

* behind a body that is closed, it is the opcode of the closing instruction;
* in front of an `else`, it is the low byte of the length that the `else` stores, and it must not
  look like the closing instruction.
-/

set_option autoImplicit false

namespace RoomScript

/-! ## Instructions that open a body -/

/-- What opens a body in a structured script. -/
inductive Opener where
  /-- An `if` that is closed behind its body. -/
  | closedIf
  /-- An `if` that has an `else` behind its body. -/
  | ifWithElse
  | elseBranch
  | forLoop
  | whileLoop
  | doLoop
  | switch
  | case
  deriving DecidableEq, Repr

/-- The kind of body that is opened. -/
def Opener.kind : Opener → BodyKind
  | closedIf | ifWithElse => .thenBody
  | elseBranch => .elseBody
  | forLoop | whileLoop | doLoop => .loopBody
  | switch => .switchBody
  | case => .caseBody

/-- How an opener is written. -/
structure Form where
  opcode : UInt8
  /-- How many bytes there are behind the stored length. -/
  extra : Nat
  /-- What the stored length counts beside the body. -/
  surplus : Nat
  deriving DecidableEq, Repr

namespace Language

/-- How a language writes an opener, if it has it. -/
def form? : Language → Opener → Option Form
  | re1Scd, .closedIf | re1Scd, .ifWithElse => some ⟨0x01, 0, 2⟩
  | re1Scd, .elseBranch => some ⟨0x02, 0, 2⟩
  | re2, .closedIf | re3, .closedIf => some ⟨0x06, 0, 2⟩
  | re2, .ifWithElse | re3, .ifWithElse => some ⟨0x06, 0, 4⟩
  | re2, .elseBranch | re3, .elseBranch => some ⟨0x07, 0, 4⟩
  | re2, .forLoop | re3, .forLoop => some ⟨0x0d, 2, 2⟩
  | re2, .whileLoop => some ⟨0x0f, 0, 2⟩
  | re3, .whileLoop => some ⟨0x10, 0, 2⟩
  | re2, .doLoop => some ⟨0x11, 0, 2⟩
  | re3, .doLoop => some ⟨0x12, 0, 4⟩
  | re2, .switch => some ⟨0x13, 0, 2⟩
  | re3, .switch => some ⟨0x14, 0, 2⟩
  | re2, .case => some ⟨0x14, 2, 0⟩
  | re3, .case => some ⟨0x15, 2, 0⟩
  | _, _ => none

/-- What a stored length has to be less than. -/
def lengthBound : Language → Nat
  | re1Scd => 0x100
  | _ => 0x10000

end Language

/-- The bytes of an opener that have nothing to do with its body. -/
structure Filler where
  /-- The byte behind the opcode, where the stored length is not there already. -/
  second : UInt8 := 0
  /-- The bytes behind the stored length. -/
  extra : List UInt8 := []
  deriving DecidableEq, Repr

/-- The bytes of an opener in front of a body of `n` bytes. -/
def Form.header (f : Form) (lang : Language) (filler : Filler) (n : Nat) : List UInt8 :=
  match lang with
  | .re1Scd => [f.opcode, UInt8.ofNat (n + f.surplus)]
  | _ => f.opcode :: filler.second :: (Bytes.littleEndian 2 (n + f.surplus) ++ filler.extra)

namespace Language

variable (lang : Language) (opener : Opener) (filler : Filler) (n : Nat)

/-- The bytes of an opener in front of a body of `n` bytes; none if the language does not have
it. -/
def header : List UInt8 :=
  match lang.form? opener with
  | none => []
  | some f => f.header lang filler n

/-- Whether a language has the opener, and the length that is stored fits. -/
def Writes : Prop :=
  match lang.form? opener with
  | none => False
  | some f => filler.extra.length = f.extra ∧ n + f.surplus < lang.lengthBound

instance : Decidable (lang.Writes opener filler n) := by
  unfold Writes
  split <;> infer_instance

/-- Whether a body ends where it should, with the bytes `behind` behind it. -/
def Closes (behind : List UInt8) : Prop :=
  match lang, opener with
  | re2, .closedIf | re3, .closedIf => behind[0]? = some 0x08
  | re2, .ifWithElse | re3, .ifWithElse => behind[2]? ≠ some 0x08
  | _, _ => True

end Language

/-! ## Reading an opener -/

section

variable {i : Instruction} {opcode second lo hi : UInt8} {extra : List UInt8} {n : Nat}

/-- The word at byte 2. -/
theorem Instruction.u16_two_of_toList
    (h : i.bytes.toList = opcode :: second :: (Bytes.littleEndian 2 n ++ extra))
    (hn : n < 0x10000) : (i.u16 2).toNat = n := by
  have hsize : 2 + 2 ≤ i.bytes.size := by
    rw [← Array.length_toList, h]
    simp
  have hwindow : (i.bytes.window 2 2).toList = Bytes.littleEndian 2 n := by
    rw [Bytes.toList_window, h]
    exact List.take_left' (Bytes.length_littleEndian 2 n)
  have hword : Bytes.ofLittleEndian (Bytes.littleEndian 2 n) = n := by
    rw [Bytes.ofLittleEndian_littleEndian]
    exact Nat.mod_eq_of_lt hn
  rw [u16, Bytes.u16?, Bytes.field?_eq_some_window hsize, Option.map_some, hwindow, hword,
    Option.getD_some]
  exact UInt16.toNat_ofNat_of_lt' hn

theorem Instruction.u8_one_of_toList {rest : List UInt8}
    (h : i.bytes.toList = opcode :: UInt8.ofNat n :: rest) (hn : n < 0x100) :
    (i.u8 1).toNat = n := by
  rw [u8, Bytes.u8?, ← Array.getElem?_toList, h]
  simpa using hn

end

section

variable {following : Stretch} {body behind : List UInt8} {endIf : UInt8}
  (hfollowing : following.toList = body ++ behind)
include hfollowing

/-- The closing instruction behind a body is found, and its bytes are not a part of the body. -/
theorem effectiveIfLength_of_closed (hbehind : behind[0]? = some endIf) :
    effectiveIfLength (body.length + 2) following endIf = body.length + 4 := by
  have hmarker : following[body.length + 2 - 2]? = some endIf := by
    rw [Stretch.getElem?_eq, hfollowing, List.getElem?_append_right (by omega), ← hbehind]
    simp
  rw [effectiveIfLength, if_pos ⟨by omega, hmarker⟩]

/-- Behind the body of an `if` that has an `else`, nothing is taken for a closing instruction. -/
theorem effectiveIfLength_of_else (hbehind : behind[2]? ≠ some endIf) :
    effectiveIfLength (body.length + 4) following endIf = body.length + 4 := by
  have hmarker : following[body.length + 4 - 2]? ≠ some endIf := by
    rw [Stretch.getElem?_eq, hfollowing, List.getElem?_append_right (by omega)]
    simpa using hbehind
  rw [effectiveIfLength, if_neg fun h ↦ hmarker h.2]

end

namespace Language

variable {lang : Language} {opener : Opener} {filler : Filler} {n : Nat}

/-- The length of the header of a form. -/
def headerLength (lang : Language) (f : Form) : Nat :=
  match lang with
  | re1Scd => 2
  | _ => 4 + f.extra

theorem length_formHeader {f : Form} (h : filler.extra.length = f.extra) :
    (f.header lang filler n).length = lang.headerLength f := by
  cases lang <;> simp [Form.header, headerLength, ← h] <;> omega

/-- The opcode of an opener says how long the opener is. -/
theorem length_of_form {f : Form} (hf : lang.form? opener = some f) {code : Stretch}
    (hcode : code[0]? = some f.opcode) (mode : Mode) :
    lang.length code mode = lang.headerLength f := by
  cases lang with
  | re1Event => cases hf
  | re1Scd =>
    have hone : tableLength Re1Scd.lengths 0x01 = 2 := by decide +kernel
    have htwo : tableLength Re1Scd.lengths 0x02 = 2 := by decide +kernel
    cases opener <;> cases hf
    · rw [length, Re1Scd.length, hcode]
      exact hone
    · rw [length, Re1Scd.length, hcode]
      exact hone
    · rw [length, Re1Scd.length, hcode]
      exact htwo
  | re2 =>
    rw [length, Re2.length, hcode]
    cases opener <;> cases hf <;> decide +kernel
  | re3 =>
    rw [length, Re3.length, hcode]
    cases opener <;> cases hf <;> decide +kernel

/-- What a walk makes of the length that an opener stores. -/
theorem body?_of_stored {f : Form} (hf : lang.form? opener = some f) {i : Instruction}
    (hopcode : i.opcode = f.opcode) (hlength : i.length = lang.headerLength f)
    {body behind : List UInt8} {following : Stretch}
    (hstored : (if lang = .re1Scd then (i.u8 1).toNat else (i.u16 2).toNat)
      = body.length + f.surplus)
    (hcloses : lang.Closes opener behind) (hfollowing : following.toList = body ++ behind) :
    lang.body? i following = some ⟨opener.kind, body.length⟩ := by
  cases lang with
  | re1Event => cases hf
  | re1Scd =>
    rw [if_pos rfl] at hstored
    cases opener <;> cases hf <;>
      simp [body?, Re1Scd.body?, Re1Scd.Op.ofByte?, hopcode, hstored, hlength, headerLength,
        Opener.kind]
  | re2 =>
    rw [if_neg (by decide)] at hstored
    cases opener with
    | closedIf =>
      cases hf
      have heffective := effectiveIfLength_of_closed hfollowing hcloses
      simp [body?, Re2.body?, Re2.Op.ofByte?, Re2.endIf, hopcode, hstored, hlength, headerLength,
        Opener.kind, heffective]
    | ifWithElse =>
      cases hf
      have heffective := effectiveIfLength_of_else hfollowing hcloses
      simp [body?, Re2.body?, Re2.Op.ofByte?, Re2.endIf, hopcode, hstored, hlength, headerLength,
        Opener.kind, heffective]
    | _ =>
      cases hf
      simp [body?, Re2.body?, Re2.Op.ofByte?, hopcode, hstored, hlength, headerLength, Opener.kind]
  | re3 =>
    rw [if_neg (by decide)] at hstored
    cases opener with
    | closedIf =>
      cases hf
      have heffective := effectiveIfLength_of_closed hfollowing hcloses
      simp [body?, Re3.body?, Re3.Op.ofByte?, Re3.endIf, hopcode, hstored, hlength, headerLength,
        Opener.kind, heffective]
    | ifWithElse =>
      cases hf
      have heffective := effectiveIfLength_of_else hfollowing hcloses
      simp [body?, Re3.body?, Re3.Op.ofByte?, Re3.endIf, hopcode, hstored, hlength, headerLength,
        Opener.kind, heffective]
    | _ =>
      cases hf
      simp [body?, Re3.body?, Re3.Op.ofByte?, hopcode, hstored, hlength, headerLength, Opener.kind]

theorem Writes.exists_form (h : lang.Writes opener filler n) :
    ∃ f, lang.form? opener = some f ∧ lang.header opener filler n = f.header lang filler n ∧
      filler.extra.length = f.extra ∧ n + f.surplus < lang.lengthBound := by
  rw [Writes] at h
  split at h
  · cases h
  · next f hf =>
    refine ⟨f, hf, ?_, h⟩
    rw [header, hf]

/-- An opener begins with its opcode. -/
theorem head?_formHeader (f : Form) (filler : Filler) (n : Nat) :
    (f.header lang filler n)[0]? = some f.opcode := by
  cases lang <;> rfl

/-- An opener is complete. -/
theorem length_header (h : lang.Writes opener filler n) (mode : Mode) :
    0 < (lang.header opener filler n).length ∧
      lang.length (Bytes.whole (lang.header opener filler n).toArray) mode
        = (lang.header opener filler n).length := by
  obtain ⟨f, hf, heq, hextra, -⟩ := h.exists_form
  have hcode : (Bytes.whole (f.header lang filler n).toArray)[0]? = some f.opcode := by
    rw [Stretch.getElem?_eq, Bytes.toList_whole]
    exact head?_formHeader f filler n
  rw [heq, length_of_form hf hcode, length_formHeader hextra]
  refine ⟨?_, rfl⟩
  rw [headerLength.eq_def]
  split <;> omega

/-- **The body of an opener is what was put behind it.** -/
theorem body?_header {body behind : List UInt8} {i : Instruction} {following : Stretch}
    (hwrites : lang.Writes opener filler body.length) (hcloses : lang.Closes opener behind)
    (hi : i.bytes.toList = lang.header opener filler body.length)
    (hfollowing : following.toList = body ++ behind) :
    lang.body? i following = some ⟨opener.kind, body.length⟩ := by
  obtain ⟨f, hf, heq, hextra, hbound⟩ := hwrites.exists_form
  rw [heq] at hi
  have hlength : i.length = lang.headerLength f := by
    rw [Instruction.length, ← Array.length_toList, hi, length_formHeader hextra]
  cases lang with
  | re1Event => cases hf
  | re1Scd =>
    refine body?_of_stored hf (Instruction.opcode_eq hi) hlength ?_ hcloses hfollowing
    exact Instruction.u8_one_of_toList hi hbound
  | re2 =>
    refine body?_of_stored hf (Instruction.opcode_eq hi) hlength ?_ hcloses hfollowing
    exact Instruction.u16_two_of_toList hi hbound
  | re3 =>
    refine body?_of_stored hf (Instruction.opcode_eq hi) hlength ?_ hcloses hfollowing
    exact Instruction.u16_two_of_toList hi hbound

/-! ## Plain instructions -/

/-- Whether `bytes` is a complete instruction that opens no body. -/
def Plain (lang : Language) (bytes : List UInt8) : Prop :=
  bytes ≠ [] ∧ lang.length (Bytes.whole bytes.toArray) .m0 = bytes.length ∧
    lang.body? { bytes := bytes.toArray } (Bytes.whole #[]) = none

instance (lang : Language) (bytes : List UInt8) : Decidable (lang.Plain bytes) :=
  inferInstanceAs (Decidable (_ ∧ _ ∧ _))

/-- Whether an instruction opens a body is a matter of its opcode. -/
theorem body?_eq_none_of_opcode {i i' : Instruction} {following following' : Stretch}
    (hopcode : i.opcode = i'.opcode) (h : lang.body? i following = none) :
    lang.body? i' following' = none := by
  cases lang with
  | re1Event => rfl
  | re1Scd =>
    rw [body?, Re1Scd.body?] at h ⊢
    rw [← hopcode]
    split <;> simp_all
  | re2 =>
    rw [body?, Re2.body?] at h ⊢
    rw [← hopcode]
    split <;> simp_all
  | re3 =>
    rw [body?, Re3.body?] at h ⊢
    rw [← hopcode]
    split <;> simp_all

theorem Plain.body? {bytes : List UInt8} (h : lang.Plain bytes) {i : Instruction}
    (hi : i.bytes = bytes.toArray) (following : Stretch) : lang.body? i following = none := by
  refine body?_eq_none_of_opcode ?_ h.2.2
  rw [Instruction.opcode, Instruction.opcode, Instruction.u8, Instruction.u8, hi]

end Language

/-! ## Structured scripts -/

/-- A structured script.  An instruction that closes a body is a plain instruction behind it. -/
inductive ScriptTree where
  | nil
  | plain (bytes : List UInt8) (rest : ScriptTree)
  | block (opener : Opener) (filler : Filler) (body rest : ScriptTree)
  | ifElse (filler : Filler) (thenBody : ScriptTree) (filler' : Filler) (elseBody rest : ScriptTree)
  deriving DecidableEq, Repr

namespace ScriptTree

variable (lang : Language)

/-- The bytes of a structured script. -/
def assemble : ScriptTree → List UInt8
  | nil => []
  | plain bytes rest => bytes ++ rest.assemble
  | block opener filler body rest =>
    lang.header opener filler body.assemble.length ++ (body.assemble ++ rest.assemble)
  | ifElse filler thenBody filler' elseBody rest =>
    lang.header .ifWithElse filler thenBody.assemble.length ++ (thenBody.assemble
      ++ (lang.header .elseBranch filler' elseBody.assemble.length
        ++ (elseBody.assemble ++ rest.assemble)))

/-- Whether a structured script can be written down in a language and be read back.

* Plain instructions are complete, and open no body.
* The language has the openers, and the lengths that are stored fit.
* In the later generations, an `if` without an `else` is closed, and no `else` stores a length whose
  low byte is the opcode of what closes an `if`. -/
def WellFormed : ScriptTree → Prop
  | nil => True
  | plain bytes rest => lang.Plain bytes ∧ rest.WellFormed
  | block opener filler body rest =>
    opener ≠ .ifWithElse ∧ opener ≠ .elseBranch ∧
      lang.Writes opener filler (body.assemble lang).length ∧
        (opener = .closedIf → lang ≠ .re1Scd → (rest.assemble lang)[0]? = some 0x08) ∧
          body.WellFormed ∧ rest.WellFormed
  | ifElse filler thenBody filler' elseBody rest =>
    lang.Writes .ifWithElse filler (thenBody.assemble lang).length ∧
      lang.Writes .elseBranch filler' (elseBody.assemble lang).length ∧
        (lang ≠ .re1Scd → ((elseBody.assemble lang).length + 4) % 0x100 ≠ 0x08) ∧
          thenBody.WellFormed ∧ elseBody.WellFormed ∧ rest.WellFormed

/-- Structured scripts can be checked. -/
def decideWellFormed : (t : ScriptTree) → Decidable (t.WellFormed lang)
  | nil => .isTrue trivial
  | plain _ rest =>
    have := decideWellFormed rest
    inferInstanceAs (Decidable (_ ∧ _))
  | block _ _ body rest =>
    have := decideWellFormed body
    have := decideWellFormed rest
    inferInstanceAs (Decidable (_ ∧ _ ∧ _ ∧ (_ → _ → _) ∧ _ ∧ _))
  | ifElse _ thenBody _ elseBody rest =>
    have := decideWellFormed thenBody
    have := decideWellFormed elseBody
    have := decideWellFormed rest
    inferInstanceAs (Decidable (_ ∧ _ ∧ (_ → _) ∧ _ ∧ _ ∧ _))

instance (t : ScriptTree) : Decidable (t.WellFormed lang) := decideWellFormed lang t

end ScriptTree
end RoomScript
