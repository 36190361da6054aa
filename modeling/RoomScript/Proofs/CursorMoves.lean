import RoomScript.Proofs.EventFrame

/-!
# Where a cursor gets to

A cursor is moved by steps, which read an instruction, and by skips, which pass over bytes unread.
However it is moved, it stays on its script (`Cursor.On`): what is to come is the end of the script,
the offset says how much of the script is behind, and neither a truncated instruction nor a skip
that is too long gets past the end.  The fourth mode has a table of lengths, but no cursor comes to
it.

`Cursor.moves_sound` has this for any sequence of moves, together with what the next move does.
-/

set_option autoImplicit false

namespace RoomScript

theorem Stretch.drop_drop (s : Stretch) (a b : Nat) : (s.drop a).drop b = s.drop (a + b) := by
  obtain ⟨⟨array, start, stop, hstart, hstop⟩⟩ := s
  have hmin : min (min (start + a) stop + b) stop = min (start + (a + b)) stop := by omega
  simp only [Subarray.drop, Subarray.start, Subarray.stop, Subarray.array, hmin]

theorem Language.nextMode_ne_m3 (lang : Language) {mode : Mode} (h : mode ≠ .m3) (opcode : UInt8) :
    lang.nextMode opcode mode ≠ .m3 := by
  by_cases hlang : lang = .re1Event
  · rw [hlang]
    exact Re1Event.nextMode_ne_m3 h opcode
  · rwa [nextMode_eq hlang]

namespace Cursor

/-- The ways to move a cursor. -/
inductive Move where
  | step
  | skip (count : Nat)

/-- Moves a cursor.  Where no instruction is read, a step leaves it as it is. -/
def move (lang : Language) (c : Cursor) : Move → Cursor
  | .step => ((c.step? lang).map Step.next).getD c
  | .skip count => c.skip count

variable {lang : Language} {c : Cursor} {s : Step} {code : Stretch} {origin : Nat}

theorem move_step_of_some (h : c.step? lang = some s) : c.move lang .step = s.next := by
  rw [move, h, Option.map_some, Option.getD_some]

theorem move_step_of_none (h : c.step? lang = none) : c.move lang .step = c := by
  rw [move, h, Option.map_none, Option.getD_none]

/-- Skipping twice is skipping all at once. -/
theorem skip_skip (c : Cursor) (a b : Nat) : (c.skip a).skip b = c.skip (a + b) := by
  have hoffset : c.offset + min a c.rest.size + min b (c.rest.size - a)
      = c.offset + min (a + b) c.rest.size := by omega
  simp only [skip, Stretch.drop_drop, Subarray.size_drop, hoffset]

/-! ## What a step does -/

/-- What a step that reads something reads, and where it leads. -/
structure Reads (lang : Language) (c : Cursor) (s : Step) : Prop where
  /-- The instruction is what the rest starts with. -/
  bytes : s.instruction.bytes.toList <+: c.rest.toList
  offset : s.instruction.offset = c.offset
  mode : s.instruction.mode = c.mode
  wanted : s.wanted = lang.length c.rest c.mode
  /-- An instruction has as many bytes as are wanted and there. -/
  length : s.instruction.length = min s.wanted c.rest.size
  length_pos : 1 ≤ s.instruction.length
  next_offset : s.next.offset = c.offset + s.instruction.length
  next_rest : s.next.rest.toList = c.rest.toList.drop s.instruction.length
  next_mode : s.next.mode = lang.nextMode s.instruction.opcode c.mode

theorem reads_of_step (h : c.step? lang = some s) : Reads lang c s := by
  obtain ⟨-, hwanted, hi, hn⟩ := step?_eq_some h
  have happend := bytes_append_rest h
  have hlength : s.instruction.bytes.toList.length = s.instruction.length := Array.length_toList
  refine ⟨⟨_, happend⟩, ?_, ?_, hwanted, length_instruction h, length_pos h, ?_, ?_, ?_⟩
  · rw [hi]
  · rw [hi]
  · rw [hn]
  · rw [← happend, ← hlength, List.drop_left]
  · rw [hn]

/-! ## Staying on a script -/

/-- The cursor is somewhere on the script that starts at `origin`. -/
structure On (code : Stretch) (origin : Nat) (c : Cursor) : Prop where
  origin_le : origin ≤ c.offset
  /-- What is behind and what is to come make up the script. -/
  size : c.offset - origin + c.rest.size = code.size
  /-- What is to come is the end of the script. -/
  rest : c.rest.toList <:+ code.toList
  mode : c.mode ≠ .m3

theorem on_start (origin : Nat) (code : Stretch) : (start origin code).On code origin where
  origin_le := Nat.le_refl origin
  size := by
    show origin - origin + code.size = code.size
    omega
  rest := List.suffix_refl _
  mode := by
    show Mode.m0 ≠ .m3
    decide

theorem On.skip (h : c.On code origin) (count : Nat) : (c.skip count).On code origin where
  origin_le := Nat.le_add_right_of_le h.origin_le
  size := by
    have horigin := h.origin_le
    have hsize := h.size
    simp only [Cursor.skip, Subarray.size_drop]
    omega
  rest := by
    rw [Cursor.skip, Subarray.toList_drop]
    exact (List.drop_suffix _ _).trans h.rest
  mode := h.mode

theorem On.next (h : c.On code origin) (hs : c.step? lang = some s) : s.next.On code origin := by
  have hreads := reads_of_step hs
  have hrest : s.next.rest.size = c.rest.size - s.instruction.length := by
    rw [← Subarray.length_toList, hreads.next_rest, List.length_drop, Subarray.length_toList]
  refine ⟨?_, ?_, ?_, ?_⟩
  · rw [hreads.next_offset]
    exact Nat.le_add_right_of_le h.origin_le
  · have horigin := h.origin_le
    have hsize := h.size
    have hle := length_le hs
    rw [hreads.next_offset, hrest]
    omega
  · rw [hreads.next_rest]
    exact (List.drop_suffix _ _).trans h.rest
  · rw [hreads.next_mode]
    exact lang.nextMode_ne_m3 h.mode _

/-- A move keeps a cursor on its script. -/
theorem On.move (h : c.On code origin) (lang : Language) (m : Move) :
    (c.move lang m).On code origin := by
  match m with
  | .skip count => exact h.skip count
  | .step =>
    cases hs : c.step? lang with
    | none => rwa [move_step_of_none hs]
    | some s =>
      rw [move_step_of_some hs]
      exact h.next hs

/-- **However a cursor is moved, it stays on its script.** -/
theorem On.foldl_move (h : c.On code origin) (lang : Language) (moves : List Move) :
    (moves.foldl (Cursor.move lang) c).On code origin := by
  induction moves generalizing c with
  | nil => exact h
  | cons m moves ih => exact ih (h.move lang m)

/-- **A cursor after any moves.**  Take a script in any language, anywhere in a section, and any
steps and skips from its start.  The cursor is on the script, and not in the fourth mode.  If the
next step reads an instruction, the instruction is what the rest starts with, as long as wanted or
as the rest if that is shorter, and read in the mode that the cursor was in; the step goes on behind
it, in the mode that comes after its opcode.  A step reads nothing exactly where the language has no
length for the rest, and leaves the cursor as it is then.  A skip stays in the mode and passes over
the bytes asked for, or all there are; skipping in two goes is skipping at once. -/
theorem moves_sound (lang : Language) (code : Stretch) (origin : Nat) (moves : List Move) :
    let c := moves.foldl (move lang) (start origin code)
    c.On code origin ∧
      (∀ s, c.step? lang = some s → Reads lang c s ∧ c.move lang .step = s.next) ∧
      (c.step? lang = none ↔ lang.length c.rest c.mode = 0) ∧
      (c.step? lang = none → c.move lang .step = c) ∧
      (∀ count, (c.skip count).mode = c.mode ∧ (c.skip count).rest.size = c.rest.size - count) ∧
      ∀ a b, (c.skip a).skip b = c.skip (a + b) := by
  intro c
  refine ⟨(on_start origin code).foldl_move lang moves,
    fun s hs ↦ ⟨reads_of_step hs, move_step_of_some hs⟩, step?_eq_none_iff, move_step_of_none,
    fun count ↦ ⟨rfl, ?_⟩, c.skip_skip⟩
  rw [skip, Subarray.size_drop]

/-- An event enters the second mode, two bytes are skipped, and an instruction that wants ten bytes
is cut short; a skip past the end of the script follows. -/
theorem moves_sound_event :
    let code : Bytes := #[0x01, 0xaa, 0xbb, 0x81, 0x00, 0x00]
    let moves : List Move := [.step, .skip 2]
    let c := moves.foldl (move .re1Event) (start 0x20 code.whole)
    c.On code.whole 0x20 ∧ c.offset = 0x23 ∧ c.mode = .m1 ∧
      (∃ s, c.step? .re1Event = some s ∧ Reads .re1Event c s ∧ s.wanted = 10 ∧
        s.instruction.length = 3) ∧
      (c.skip 7).skip 9 = c.skip 16 ∧
      (((c.skip 7).step? .re1Event = none) ∧ (c.skip 7).move .re1Event .step = c.skip 7) := by
  intro code moves c
  obtain ⟨hon, hsome, -, -, -, hskip⟩ := moves_sound .re1Event code.whole 0x20 moves
  obtain ⟨-, -, -, hnone, -, -⟩ := moves_sound .re1Event code.whole 0x20 (moves ++ [.skip 7])
  have hstep : (c.step? .re1Event).map (fun s ↦ (s.wanted, s.instruction.length)) = some (10, 3) :=
    by decide +kernel
  obtain ⟨s, hs, hnumbers⟩ := Option.map_eq_some_iff.1 hstep
  obtain ⟨hwanted, hlength⟩ := Prod.mk.inj hnumbers
  have hend : (c.skip 7).step? .re1Event = none :=
    step?_eq_none_iff.2 (by decide +kernel)
  exact ⟨hon, by decide +kernel, by decide +kernel, ⟨s, hs, (hsome s hs).1, hwanted, hlength⟩,
    hskip 7 9, hend, hnone hend⟩

end Cursor
end RoomScript
