import RoomScript.Cursor

/-!
# Instructions mark their own end

The length of an instruction is read off its first bytes, and a language that has to look behind
the opcode for it only ever looks at bytes that the instruction itself has.  So an instruction,
once it has a length, keeps that length whatever comes behind it: `Language.length_of_isPrefixOf`.

This has two uses.  An instruction that is complete can be put in front of any other code and is
read back.  And the instruction alone tells whether it was cut short (`Cursor.truncated_iff`):
what is missing is what its bytes ask for and do not have.

The languages of the later generations give every code that has a byte left a length
(`Language.length_pos_of_size_pos`); in the first generation a code can end early.
-/

set_option autoImplicit false

namespace RoomScript

/-- What a stretch has, a longer one has at the same place. -/
theorem Stretch.getElem?_of_isPrefixOf {s t : Stretch} (h : s.toList <+: t.toList) {pos : Nat}
    {b : UInt8} (hb : s[pos]? = some b) : t[pos]? = some b := by
  obtain ⟨rest, hrest⟩ := h
  rw [Stretch.getElem?_eq] at hb ⊢
  obtain ⟨hlt, -⟩ := List.getElem?_eq_some_iff.1 hb
  rw [← hrest, List.getElem?_append_left hlt, hb]

/-! ## Lengths -/

/-- An opcode that has a length without its second byte has that length with any. -/
theorem Re1Event.sharedLength?_eq {opcode : UInt8} {next : Option UInt8}
    (h : sharedLength? opcode none ≠ some 0) :
    sharedLength? opcode next = sharedLength? opcode none := by
  rw [sharedLength?.eq_def] at h ⊢
  rw [sharedLength?.eq_def]
  split <;> simp_all

theorem Re1Event.length0_eq {opcode : UInt8} {next : Option UInt8}
    (h : length0 opcode none ≠ 0) : length0 opcode next = length0 opcode none := by
  rw [length0.eq_def] at h ⊢
  rw [length0.eq_def]
  split <;> simp_all

section

variable {own code : Stretch} (h : own.toList <+: code.toList)
include h

theorem Re1Scd.length_of_isPrefixOf (hpos : 0 < Re1Scd.length own) :
    Re1Scd.length code = Re1Scd.length own := by
  rw [Re1Scd.length] at hpos ⊢
  rw [Re1Scd.length]
  cases h0 : own[0]? with
  | none => simp [h0] at hpos
  | some opcode =>
    rw [Stretch.getElem?_of_isPrefixOf h h0]
    simp only [h0] at hpos ⊢
    split
    · next hop =>
      simp only [hop] at hpos
      cases h2 : own[2]? with
      | none => simp [h2, length28] at hpos
      | some b => rw [Stretch.getElem?_of_isPrefixOf h h2]
    · next hop =>
      simp only [hop] at hpos
      cases h1 : own[1]? with
      | none => simp [h1, length33] at hpos
      | some b => rw [Stretch.getElem?_of_isPrefixOf h h1]
    · rfl

theorem Re1Event.length_of_isPrefixOf {mode : Mode} (hpos : 0 < Re1Event.length own mode) :
    Re1Event.length code mode = Re1Event.length own mode := by
  rw [Re1Event.length] at hpos ⊢
  rw [Re1Event.length]
  cases h0 : own[0]? with
  | none => simp [h0] at hpos
  | some opcode =>
    rw [Stretch.getElem?_of_isPrefixOf h h0]
    simp only [h0] at hpos ⊢
    cases h1 : own[1]? with
    | some b => rw [Stretch.getElem?_of_isPrefixOf h h1]
    | none =>
      rw [h1] at hpos
      cases hs : sharedLength? opcode none with
      | some length =>
        rw [hs] at hpos
        rw [sharedLength?_eq (by rw [hs]; simpa using Nat.ne_of_gt hpos), hs]
      | none =>
        rw [hs] at hpos
        rw [sharedLength?_eq (by simp [hs]), hs]
        cases mode with
        | m0 => exact length0_eq (Nat.ne_of_gt hpos)
        | m1 => rfl
        | m2 => rfl
        | m3 => rfl

/-- **The length of an instruction does not depend on what comes behind it.** -/
theorem Language.length_of_isPrefixOf {lang : Language} {mode : Mode}
    (hpos : 0 < lang.length own mode) : lang.length code mode = lang.length own mode := by
  cases lang with
  | re1Scd => exact Re1Scd.length_of_isPrefixOf h hpos
  | re1Event => exact Re1Event.length_of_isPrefixOf h hpos
  | re2 =>
    rw [Language.length, Re2.length] at hpos ⊢
    rw [Language.length, Re2.length]
    cases h0 : own[0]? with
    | none => simp [h0] at hpos
    | some opcode => rw [Stretch.getElem?_of_isPrefixOf h h0]
  | re3 =>
    rw [Language.length, Re3.length] at hpos ⊢
    rw [Language.length, Re3.length]
    cases h0 : own[0]? with
    | none => simp [h0] at hpos
    | some opcode => rw [Stretch.getElem?_of_isPrefixOf h h0]

end

theorem tableLength_pos (table : Array Nat) (opcode : UInt8) : 0 < tableLength table opcode := by
  rw [tableLength]
  split
  · exact Nat.one_pos
  · exact Nat.one_pos
  · next hne _ => exact Nat.pos_of_ne_zero hne

theorem Re2.opcodes_pos : ∀ entry ∈ opcodes, 0 < entry.2 := by
  decide +kernel

theorem Re2.length_opcode_pos (opcode : UInt8) :
    0 < (opcodes[opcode.toNat]?.map (·.2)).getD unknownLength := by
  cases h : opcodes[opcode.toNat]? with
  | none => exact Nat.one_pos
  | some entry => exact opcodes_pos entry (Array.mem_of_getElem? h)

/-- The later generations read their code to the end. -/
theorem Language.length_pos_of_size_pos {lang : Language} (hlang : lang = .re2 ∨ lang = .re3)
    {code : Stretch} (hcode : 0 < code.size) (mode : Mode) : 0 < lang.length code mode := by
  have h0 : code[0]? = some code[0] := getElem?_pos code 0 hcode
  rcases hlang with rfl | rfl
  · rw [length, Re2.length, h0]
    exact Re2.length_opcode_pos _
  · rw [length, Re3.length, h0]
    exact tableLength_pos _ _

/-! ## Instructions that were cut short -/

namespace Cursor

variable {c : Cursor} {lang : Language} {s : Step}

/-- Reading ends where the bytes to come have no length. -/
theorem step?_eq_none_iff : c.step? lang = none ↔ lang.length c.rest c.mode = 0 := by
  rw [step?]
  split
  · next h => simp [h]
  · next h => simp [h]

theorem exists_step_of_pos (h : 0 < lang.length c.rest c.mode) : ∃ s, c.step? lang = some s := by
  refine Option.ne_none_iff_exists'.1 fun hnone ↦ ?_
  rw [step?_eq_none_iff] at hnone
  omega

/-- **An instruction is read if all of it is there**, whatever is behind it. -/
theorem exists_step_of_append {bytes behind : List UInt8} (hpos : 0 < bytes.length)
    (hlength : lang.length c.rest c.mode = bytes.length)
    (hrest : c.rest.toList = bytes ++ behind) :
    ∃ s, c.step? lang = some s ∧ s.instruction = ⟨c.offset, bytes.toArray, c.mode⟩ ∧
      s.wanted = bytes.length ∧ s.next.offset = c.offset + bytes.length ∧
        s.next.rest.toList = behind ∧
          s.next.mode = lang.nextMode s.instruction.opcode c.mode := by
  have hlength_pos : 0 < lang.length c.rest c.mode := hlength ▸ hpos
  obtain ⟨s, hs⟩ := exists_step_of_pos hlength_pos
  obtain ⟨-, hw, hi, hn⟩ := step?_eq_some hs
  rw [hlength] at hw
  have hbytes : s.instruction.bytes = bytes.toArray := by
    rw [hi, ← Array.toList_inj, Stretch.toList_bytes, Subarray.toList_take, hw, hrest]
    exact List.take_left
  have hsize : s.instruction.length = bytes.length := by
    rw [Instruction.length, hbytes, List.size_toArray]
  refine ⟨s, hs, by rw [← hbytes, hi], hw, ?_, ?_, ?_⟩
  · rw [hn, hsize]
  · rw [hn, hw]
    dsimp only
    rw [Subarray.toList_drop, hrest]
    exact List.drop_left
  · rw [hn]

theorem bytes_isPrefixOf (h : c.step? lang = some s) :
    s.instruction.bytes.toList <+: c.rest.toList :=
  ⟨_, bytes_append_rest h⟩

/-- If the bytes of an instruction ask for anything, then they ask for what its opcode did. -/
theorem length_bytes_of_pos (h : c.step? lang = some s)
    (hpos : 0 < lang.length s.instruction.bytes.whole s.instruction.mode) :
    lang.length s.instruction.bytes.whole s.instruction.mode = s.wanted := by
  obtain ⟨-, hw, hi, -⟩ := step?_eq_some h
  have hmode : s.instruction.mode = c.mode := by rw [hi]
  have hpre : s.instruction.bytes.whole.toList <+: c.rest.toList := by
    rw [Bytes.toList_whole]
    exact bytes_isPrefixOf h
  rw [hmode] at hpos ⊢
  rw [hw]
  exact (Language.length_of_isPrefixOf hpre hpos).symm

/-- The bytes of an instruction ask for no more than its opcode did. -/
theorem length_bytes_le (h : c.step? lang = some s) :
    lang.length s.instruction.bytes.whole s.instruction.mode ≤ s.wanted := by
  rcases Nat.eq_zero_or_pos (lang.length s.instruction.bytes.whole s.instruction.mode)
    with h0 | hpos
  · rw [h0]
    exact Nat.zero_le _
  · exact Nat.le_of_eq (length_bytes_of_pos h hpos)

/-- An instruction that was cut short still asks for all that its opcode did. -/
theorem length_bytes_of_truncated (h : c.step? lang = some s) (hs : s.isTruncated = true) :
    lang.length s.instruction.bytes.whole s.instruction.mode = s.wanted := by
  obtain ⟨-, hw, hi, -⟩ := step?_eq_some h
  have hmode : s.instruction.mode = c.mode := by rw [hi]
  have hlt : s.instruction.length < s.wanted := by simpa [Step.isTruncated] using hs
  have hbytes : s.instruction.bytes.toList = c.rest.toList := by
    have hlen := length_instruction h
    rw [hi, Stretch.toList_bytes, Subarray.toList_take, List.take_of_length_le]
    rw [Subarray.length_toList]
    omega
  rw [hmode, hw]
  exact Language.length_congr (by simpa using hbytes) _

/-- **The bytes of an instruction tell whether it was cut short.** -/
theorem truncated_iff (h : c.step? lang = some s) :
    s.isTruncated = true ↔
      s.instruction.length < lang.length s.instruction.bytes.whole s.instruction.mode := by
  constructor
  · intro hs
    rw [length_bytes_of_truncated h hs]
    simpa [Step.isTruncated] using hs
  · intro hlt
    have hle := length_bytes_le h
    simpa [Step.isTruncated] using Nat.lt_of_lt_of_le hlt hle

end Cursor
end RoomScript
