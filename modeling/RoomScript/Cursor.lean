import RoomScript.Language

/-!
# Decoding, one instruction at a time

A cursor is a place in a script: the offset reached, the bytes still to come, and the decode table
in force.  A step reads the instruction at the head of the rest.  An opcode decides how many bytes
it wants; at the end of a script there may be fewer, and the instruction is what there is.

A step is `none` where the language gives the head of the rest no length, which includes the end of
the script.  Every other step leaves a strictly shorter rest (`size_rest_lt`), which is why
reading a script ends.

Offsets are relative to the script section.  They are natural numbers here and can be added without
end, whereas a machine adds them in words of 64 bits and does not check the sums.  The two agree as
long as offsets stay below `2 ^ 64`, and this is assumed: an offset is at most the size of a file,
and whoever starts a script at an offset of their own has to leave room for its bytes.

What is read depends on nothing but the bytes to come (`Agrees.step?_eq_some`), not on where in a
file they are.
-/

set_option autoImplicit false

namespace RoomScript

/-- A place in a script. -/
structure Cursor where
  /-- The place of the next byte, relative to the script section. -/
  offset : Nat
  /-- The bytes from there on. -/
  rest : Stretch
  mode : Mode := .m0

/-- What a step reads. -/
structure Step where
  instruction : Instruction
  /-- How many bytes the opcode asks for. -/
  wanted : Nat
  /-- The place behind the instruction. -/
  next : Cursor

/-- Whether the script ended before the instruction did. -/
def Step.isTruncated (s : Step) : Bool := s.instruction.length < s.wanted

namespace Cursor

/-- The start of a script. -/
def start (origin : Nat) (code : Stretch) : Cursor := { offset := origin, rest := code }

/-- Reads the instruction at the head of the rest. -/
def step? (c : Cursor) (lang : Language) : Option Step :=
  let wanted := lang.length c.rest c.mode
  if wanted = 0 then none
  else
    let i : Instruction :=
      { offset := c.offset, bytes := Stretch.bytes (c.rest.take wanted), mode := c.mode }
    some
      { instruction := i
        wanted
        next :=
          { offset := c.offset + i.length
            rest := c.rest.drop wanted
            mode := lang.nextMode i.opcode c.mode } }

/-- Passes over `count` bytes, or all that there are.  The mode stays. -/
def skip (c : Cursor) (count : Nat) : Cursor :=
  { c with offset := c.offset + min count c.rest.size, rest := c.rest.drop count }

/-- The script that consists of the next `count` bytes.  It starts in the first mode. -/
def body (c : Cursor) (count : Nat) : Cursor :=
  { offset := c.offset, rest := c.rest.take count }

end Cursor

/-- The script that a fragment consists of. -/
def Fragment.cursor (f : Fragment) (i : Instruction) : Cursor :=
  { offset := i.offset + f.startIn i, rest := f.code i }

/-! ## Steps and lengths -/

/-- Where there is no byte, there is no instruction. -/
theorem Language.length_eq_zero {lang : Language} {code : Stretch} {mode : Mode}
    (h : code.size = 0) : lang.length code mode = 0 := by
  have hnone : code[0]? = none := getElem?_neg code 0 (by omega)
  cases lang <;>
    simp [length, Re1Scd.length, Re1Event.length, Re2.length, Re3.length, hnone]

namespace Cursor

variable {c : Cursor} {lang : Language} {s : Step}

/-- What a step reads, spelled out. -/
theorem step?_eq_some (h : c.step? lang = some s) :
    0 < s.wanted ∧ s.wanted = lang.length c.rest c.mode ∧
      s.instruction = ⟨c.offset, Stretch.bytes (c.rest.take s.wanted), c.mode⟩ ∧
      s.next = ⟨c.offset + s.instruction.length, c.rest.drop s.wanted,
        lang.nextMode s.instruction.opcode c.mode⟩ := by
  unfold step? at h
  dsimp only at h
  split at h
  · cases h
  · next hne =>
    cases h
    exact ⟨Nat.pos_of_ne_zero hne, rfl, rfl, rfl⟩

/-- There is a next instruction only where there are bytes. -/
theorem size_rest_pos (h : c.step? lang = some s) : 0 < c.rest.size := by
  obtain ⟨hpos, hw, -⟩ := step?_eq_some h
  rcases Nat.eq_zero_or_pos c.rest.size with h0 | h0
  · rw [hw, Language.length_eq_zero h0] at hpos
    exact absurd hpos (Nat.lt_irrefl 0)
  · exact h0

/-- The bytes of an instruction and what follows are the bytes there were. -/
theorem bytes_append_rest (h : c.step? lang = some s) :
    s.instruction.bytes.toList ++ s.next.rest.toList = c.rest.toList := by
  obtain ⟨-, -, hi, hn⟩ := step?_eq_some h
  rw [hi, hn, Stretch.toList_bytes, Subarray.toList_take, Subarray.toList_drop]
  exact List.take_append_drop _ _

/-- An instruction has as many bytes as it asks for, or all that there are. -/
theorem length_instruction (h : c.step? lang = some s) :
    s.instruction.length = min s.wanted c.rest.size := by
  obtain ⟨-, -, hi, -⟩ := step?_eq_some h
  rw [hi, Instruction.length, ← Array.length_toList, Stretch.toList_bytes, Subarray.length_toList,
    Subarray.size_take]

/-- An instruction has at least its opcode. -/
theorem length_pos (h : c.step? lang = some s) : 0 < s.instruction.length := by
  have hpos := (step?_eq_some h).1
  have hrest := size_rest_pos h
  rw [length_instruction h]
  omega

/-- An instruction is no longer than the rest that it was read from. -/
theorem length_le (h : c.step? lang = some s) : s.instruction.length ≤ c.rest.size := by
  rw [length_instruction h]
  exact Nat.min_le_right _ _

/-- A step leaves a shorter rest. -/
theorem size_rest_lt (h : c.step? lang = some s) : s.next.rest.size < c.rest.size := by
  obtain ⟨hpos, -, -, hn⟩ := step?_eq_some h
  have hrest := size_rest_pos h
  rw [hn, Subarray.size_drop]
  omega

theorem size_skip_le (c : Cursor) (count : Nat) : (c.skip count).rest.size ≤ c.rest.size := by
  simp only [skip, Subarray.size_drop]
  omega

theorem size_body_le (c : Cursor) (count : Nat) : (c.body count).rest.size ≤ c.rest.size := by
  simp only [body, Subarray.size_take]
  omega

/-- A fragment is shorter than the rest that its instruction was read from. -/
theorem size_fragment_lt {f : Fragment} (h : c.step? lang = some s)
    (hf : lang.fragment? s.instruction = some f) :
    (f.cursor s.instruction).rest.size < c.rest.size :=
  Nat.lt_of_lt_of_le (Language.size_fragment_lt hf (length_pos h)) (length_le h)

/-! ## Places that agree -/

/-- The bytes to come are the same, and so is everything else that matters for reading them. -/
structure Agrees (c c' : Cursor) : Prop where
  offset : c.offset = c'.offset
  toList : c.rest.toList = c'.rest.toList
  mode : c.mode = c'.mode

namespace Agrees

variable {c c' : Cursor} {lang : Language}

theorem size (h : c.Agrees c') : c.rest.size = c'.rest.size := by
  rw [← Subarray.length_toList, h.toList, Subarray.length_toList]

theorem skip (h : c.Agrees c') (count : Nat) : (c.skip count).Agrees (c'.skip count) where
  offset := by simp only [Cursor.skip, h.offset, h.size]
  toList := by simp only [Cursor.skip, Subarray.toList_drop, h.toList]
  mode := h.mode

theorem body (h : c.Agrees c') (count : Nat) : (c.body count).Agrees (c'.body count) where
  offset := h.offset
  toList := by simp only [Cursor.body, Subarray.toList_take, h.toList]
  mode := rfl

theorem step?_eq_none (h : c.Agrees c') (hs : c.step? lang = none) : c'.step? lang = none := by
  simp only [step?, ← Language.length_congr h.toList, ← h.mode] at hs ⊢
  simpa using hs

/-- Reading at places that agree gives the same instruction, and leads to places that agree. -/
theorem step?_eq_some (h : c.Agrees c') {s : Step} (hs : c.step? lang = some s) :
    ∃ next, s.next.Agrees next ∧ c'.step? lang = some { s with next } := by
  have hbytes : ∀ n, Stretch.bytes (c.rest.take n) = Stretch.bytes (c'.rest.take n) := by
    intro n
    rw [← Array.toList_inj, Stretch.toList_bytes, Stretch.toList_bytes, Subarray.toList_take,
      Subarray.toList_take, h.toList]
  simp only [step?, ← Language.length_congr h.toList, ← h.mode, ← h.offset, ← hbytes] at hs ⊢
  split at hs
  · cases hs
  · next hne =>
    cases hs
    refine ⟨_, ?_, by rw [if_neg hne]⟩
    exact ⟨rfl, by rw [Subarray.toList_drop, Subarray.toList_drop, h.toList], rfl⟩

end Agrees
end Cursor
end RoomScript
