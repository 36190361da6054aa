import RoomScript.Proofs.Outline

/-!
# Where the instructions of a script are

An outline lies over the bytes it was read from (`Decodes`), and this file says what that means for
the places of its instructions.

* Every instruction, every body and every fragment is a `Piece` of the code, at its own offset.
* An instruction that is seen after another one is behind it, or it is inside its fragment
  (`Visit.Before`).  This is one relation for all languages, and what a walk never does is all in
  it: nothing is read twice, nothing is skipped back to, and nothing sticks out of the instruction
  that carries it.

That offsets grow along a walk follows (`pairwise_offset`).  It means that an offset names an
instruction.
-/

set_option autoImplicit false

namespace RoomScript

/-! ## Pieces of code -/

/-- The bytes `part`, which are at place `start`, are a part of the bytes `code`, which are at place
`offset`. -/
def Piece (offset : Nat) (code : List UInt8) (start : Nat) (part : List UInt8) : Prop :=
  ∃ before after, code = before ++ (part ++ after) ∧ start = offset + before.length

namespace Piece

variable {offset start start' : Nat} {code part part' : List UInt8}

theorem refl (offset : Nat) (code : List UInt8) : Piece offset code offset code :=
  ⟨[], [], by simp, rfl⟩

theorem trans (h : Piece offset code start part) (h' : Piece start part start' part') :
    Piece offset code start' part' := by
  obtain ⟨before, after, rfl, rfl⟩ := h
  obtain ⟨before', after', rfl, rfl⟩ := h'
  refine ⟨before ++ before', after' ++ after, by simp, ?_⟩
  rw [List.length_append, Nat.add_assoc]

theorem left (offset : Nat) (a b : List UInt8) : Piece offset (a ++ b) offset a :=
  ⟨[], b, rfl, rfl⟩

theorem right (offset : Nat) (a b : List UInt8) : Piece offset (a ++ b) (offset + a.length) b :=
  ⟨a, [], by simp, rfl⟩

theorem le_start (h : Piece offset code start part) : offset ≤ start := by
  obtain ⟨before, after, -, rfl⟩ := h
  exact Nat.le_add_right _ _

theorem stop_le (h : Piece offset code start part) :
    start + part.length ≤ offset + code.length := by
  obtain ⟨before, after, rfl, rfl⟩ := h
  simp only [List.length_append]
  omega

/-- A piece is what is cut out of the code at its place. -/
theorem eq_take_drop (h : Piece offset code start part) :
    part = (code.drop (start - offset)).take part.length := by
  obtain ⟨before, after, rfl, rfl⟩ := h
  rw [Nat.add_sub_cancel_left, List.drop_left, List.take_left]

end Piece

/-! ## Instructions -/

namespace Visit

variable {v w : Visit}

/-- Where `w`, which is seen after `v`, has to be: behind it, or in the fragment that it carries,
which begins with its third byte. -/
def Before (v w : Visit) : Prop :=
  v.stop ≤ w.offset ∨
    v.language = .re1Event ∧ v.depth < w.depth ∧ v.offset + 2 ≤ w.offset ∧ w.stop ≤ v.stop

theorem Before.offset_lt (h : v.Before w) (hv : 0 < v.instruction.length) :
    v.offset < w.offset := by
  rcases h with h | ⟨-, -, h, -⟩
  · exact Nat.lt_of_lt_of_le (Nat.lt_add_of_pos_right hv) h
  · omega

/-- Only an event has anything inside. -/
theorem Before.stop_le (h : v.Before w) (hv : v.language ≠ .re1Event) : v.stop ≤ w.offset := by
  rcases h with h | ⟨hlang, -⟩
  · exact h
  · exact absurd hlang hv

/-- What is inside an instruction is deeper. -/
theorem Before.stop_le_of_depth (h : v.Before w) (hdepth : w.depth ≤ v.depth) :
    v.stop ≤ w.offset := by
  rcases h with h | ⟨-, hlt, -⟩
  · exact h
  · exact absurd hlt (Nat.not_lt.2 hdepth)

end Visit

namespace Decodes

variable {lang : Language} {mode : Mode} {offset depth : Nat} {code : List UInt8} {O : Outline}
  {v : Visit}

/-- **Every instruction is a piece of the code.** -/
theorem piece_of_mem_visits (h : Decodes lang mode offset code O) (hv : v ∈ O.visits depth) :
    0 < v.instruction.length ∧ Piece offset code v.offset v.bytes := by
  induction h generalizing depth with
  | done => simp [Outline.visits] at hv
  | @step _ _ _ _ offset i _ _ _ _ header fragment behind bodyCode nextCode hoffset _ hpos hbytes
      _ _ _ _ _ _ ihinner ihbody ihnext =>
    have hown : Piece offset (i.bytes.toList ++ (bodyCode ++ nextCode)) offset i.bytes.toList :=
      .left _ _ _
    have hbehind : Piece offset (i.bytes.toList ++ (bodyCode ++ nextCode)) (offset + i.length)
        (bodyCode ++ nextCode) := .right _ _ _
    simp only [Outline.visits, List.mem_cons, List.mem_append] at hv
    rcases hv with rfl | hv | hv | hv
    · rw [← hoffset]
      exact ⟨hpos, .left _ _ _⟩
    · obtain ⟨hlength, hpiece⟩ := ihinner hv
      refine ⟨hlength, hown.trans (.trans ?_ hpiece)⟩
      exact ⟨header, behind, hbytes, rfl⟩
    · obtain ⟨hlength, hpiece⟩ := ihbody hv
      exact ⟨hlength, hbehind.trans (.trans (.left _ _ _) hpiece)⟩
    · obtain ⟨hlength, hpiece⟩ := ihnext hv
      exact ⟨hlength, hbehind.trans (.trans (.right _ _ _) hpiece)⟩

theorem length_pos_of_mem (h : Decodes lang mode offset code O) (hv : v ∈ O.visits depth) :
    0 < v.instruction.length :=
  (h.piece_of_mem_visits hv).1

theorem offset_le_of_mem (h : Decodes lang mode offset code O) (hv : v ∈ O.visits depth) :
    offset ≤ v.offset :=
  (h.piece_of_mem_visits hv).2.le_start

theorem stop_le_of_mem (h : Decodes lang mode offset code O) (hv : v ∈ O.visits depth) :
    v.stop ≤ offset + code.length :=
  (h.piece_of_mem_visits hv).2.stop_le

/-- There are no instructions in no bytes. -/
theorem eq_done (h : Decodes lang mode offset code O) (hcode : code = []) :
    O = .done offset [] := by
  cases h with
  | done => rw [hcode]
  | step _ _ hpos =>
    obtain ⟨hbytes, -⟩ := List.append_eq_nil_iff.1 hcode
    rw [Instruction.length, ← Array.length_toList, hbytes] at hpos
    exact absurd hpos (Nat.lt_irrefl 0)

section

variable {innerLang : Language} {header fragment : List UInt8} {start : Nat} {inner : Outline}
  (hfragment : fragment ≠ [] → lang = .re1Event ∧ innerLang = .re1Scd ∧ header.length = 2)
  (hlang : lang ≠ .re1Event)
include hfragment hlang

/-- Outside of events, there is nothing inside an instruction. -/
theorem fragment_eq_nil : fragment = [] := by
  by_cases hne : fragment = []
  · exact hne
  · exact absurd (hfragment hne).1 hlang

theorem visits_inner_eq_nil (hinner : Decodes innerLang .m0 start fragment inner) (depth : Nat) :
    inner.visits depth = [] := by
  rw [hinner.eq_done (fragment_eq_nil hfragment hlang)]
  rfl

end

/-- **What is seen later is behind, or inside.** -/
theorem pairwise_before (h : Decodes lang mode offset code O) (depth : Nat) :
    (O.visits depth).Pairwise Visit.Before := by
  induction h generalizing depth with
  | done => exact .nil
  | @step _ _ _ _ offset i inner body next _ header fragment behind bodyCode nextCode hoffset _ hpos
      hbytes hfragment _ _ hinner hbody hnext ihinner ihbody ihnext =>
    have hlength := Instruction.length_parts hbytes
    -- where the three parts are, relative to the instruction in front of them
    have hinside : ∀ w ∈ inner.visits (depth + 1),
        w.stop ≤ offset + header.length + fragment.length :=
      fun w hw ↦ hinner.stop_le_of_mem hw
    have hbehind : ∀ w ∈ body.visits (depth + 1) ++ next.visits depth,
        offset + i.length ≤ w.offset := by
      intro w hw
      rcases List.mem_append.1 hw with hw | hw
      · exact hbody.offset_le_of_mem hw
      · exact Nat.le_trans (Nat.le_add_right _ _) (hnext.offset_le_of_mem hw)
    refine List.pairwise_cons.2 ⟨fun w hw ↦ ?_, List.pairwise_append.2 ⟨ihinner _, ?_, ?_⟩⟩
    · rcases List.mem_append.1 hw with hw | hw
      · have hne : fragment ≠ [] := by
          intro hnil
          rw [hinner.eq_done hnil] at hw
          cases hw
        obtain ⟨hlang, -, hheader⟩ := hfragment hne
        have hle := hinner.offset_le_of_mem hw
        have hstop := hinside w hw
        refine .inr ⟨hlang, Outline.depth_le hw, ?_, ?_⟩ <;>
          simp only [Visit.stop, Visit.offset] at * <;> omega
      · refine .inl ?_
        rw [Visit.stop, Visit.offset, hoffset]
        exact hbehind w hw
    · refine List.pairwise_append.2 ⟨ihbody _, ihnext _, fun v hv w hw ↦ .inl ?_⟩
      exact Nat.le_trans (hbody.stop_le_of_mem hv) (hnext.offset_le_of_mem hw)
    · intro v hv w hw
      have hstop := hinside v hv
      have hle := hbehind w hw
      exact .inl (by omega)

/-- Offsets grow along a walk. -/
theorem pairwise_offset (h : Decodes lang mode offset code O) (depth : Nat) :
    (O.visits depth).Pairwise (·.offset < ·.offset) :=
  (h.pairwise_before depth).imp_of_mem fun hv _ hbefore ↦
    hbefore.offset_lt (h.length_pos_of_mem hv)

/-- A language that is not the language of events does not change on the way. -/
theorem language_eq (h : Decodes lang mode offset code O) (hlang : lang ≠ .re1Event)
    (hv : v ∈ O.visits depth) : v.language = lang := by
  induction h generalizing depth with
  | done => simp [Outline.visits] at hv
  | step _ _ _ _ hfragment _ _ hinner _ _ _ ihbody ihnext =>
    simp only [Outline.visits, List.mem_cons, List.mem_append] at hv
    rcases hv with rfl | hv | hv | hv
    · rfl
    · rw [visits_inner_eq_nil hfragment hlang hinner] at hv
      cases hv
    · exact ihbody hlang hv
    · exact ihnext hlang hv

end Decodes
end RoomScript
