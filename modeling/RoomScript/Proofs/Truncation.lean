import RoomScript.Proofs.Bounds
import RoomScript.Proofs.Coverage
import RoomScript.Proofs.Nesting

/-!
# Instructions that are cut short

An instruction may ask for more bytes than there are.  What counts is the level that it is directly
in: a body may end where its opener says, where the body around it ends, or where the code ends, and
a fragment ends with the instruction that carries it.  `Observer.truncations_exact` says for every
walk which instructions are reported for this, in which order, and where the walk goes on.

## What is here

* `Outline.parts` — the levels right below an outline, a fragment and a body for each of its
  instructions.  So `b ∈ p.parts` says that `p` is the level around `b`, and not some level that is
  further out.
* `Outline.pairwise_direct` — no instruction is directly in two levels.  Offsets grow along a walk,
  so the parts of a script have no instruction in common (`Outline.parts_disjoint`).
* `Level.rest`, `Level.wanted`, `Level.Short` — the bytes that a level has left, the length of an
  instruction as read off all of these, and whether it is too much.  They are about the code and not
  about a walk, which takes an instruction out before it compares; `Level.shortage?_eq_truncation?`
  says that it comes to the same.
* `Level.Short.spec` — an instruction that is short has all the bytes up to the border of its level,
  and at least one.
* `Language.exists_direct_at_border` — a script goes on right behind the border of a level in it, be
  it a body or a fragment, if it goes on at all.
* `Outline.Runs.mem_visits_of_mem_direct` — of each level, an observer sees a first part.
* `Language.exists_home?_eq` — every instruction is directly in one level (`Language.home?`).
* `Outline.Runs.cutShort` — an instruction that is short is the last one of its level, and the level
  around goes on behind it (`Level.CutShort`).

That nothing else of the level is seen afterwards is clear from the offsets, as all of the level is
in front of its border.  What is seen next in the level around takes more, since an observer may
leave things out there, too.  Some instruction starts at the border.  If any instruction behind it
is seen then so is this one, because what is seen is a first part; and it is seen before the others,
because offsets grow.
-/

set_option autoImplicit false

namespace RoomScript

/-! ## Levels in levels -/

/-- The fragments and bodies that belong to the instructions directly in an outline. -/
def Outline.parts : Outline → Nat → List Level
  | done .., _ => []
  | step _ i inner kind? body next, depth =>
    ⟨none, depth + 1, inner⟩ :: ⟨kind?.map (i, ·), depth + 1, body⟩ :: next.parts depth

namespace Level

/-- The fragments and bodies that belong to the instructions directly in a level. -/
def parts (b : Level) : List Level := b.outline.parts b.depth

/-- The place behind the last byte of a level, whether it is read or not. -/
def border (b : Level) : Nat := b.outline.start + b.outline.code.length

end Level

namespace Outline

variable {O : Outline} {depth : Nat} {opener? : Option (Instruction × BodyKind)} {b b' : Level}
  {v : Visit}

theorem mem_levels_of_mem_parts (hb : b ∈ O.parts depth) : b ∈ O.levels depth := by
  induction O generalizing depth with
  | done => cases hb
  | step lang i inner kind? body next _ _ ihnext =>
    simp only [parts, List.mem_cons] at hb
    simp only [levels, List.mem_append, List.mem_cons]
    rcases hb with rfl | rfl | hb
    · exact .inl (.inl rfl)
    · exact .inr (.inl (.inl rfl))
    · exact .inr (.inr (ihnext hb))

theorem depth_of_mem_parts (hb : b ∈ O.parts depth) : b.depth = depth + 1 := by
  induction O with
  | done => cases hb
  | step lang i inner kind? body next _ _ ihnext =>
    simp only [parts, List.mem_cons] at hb
    rcases hb with rfl | rfl | hb
    · rfl
    · rfl
    · exact ihnext hb

theorem depth_lt_of_mem_levels (hb : b ∈ O.levels depth) : depth < b.depth := by
  induction O generalizing depth with
  | done => cases hb
  | step lang i inner kind? body next ihinner ihbody ihnext =>
    simp only [levels, List.mem_append, List.mem_cons] at hb
    rcases hb with (rfl | hb) | (rfl | hb) | hb
    · exact Nat.lt_succ_self _
    · exact Nat.lt_of_succ_lt (ihinner hb)
    · exact Nat.lt_succ_self _
    · exact Nat.lt_of_succ_lt (ihbody hb)
    · exact ihnext hb

/-- A level inside a script is around some level, or it is a part of another one. -/
theorem eq_or_exists_mem_parts (hb : b ∈ Level.all ⟨opener?, depth, O⟩) :
    b = ⟨opener?, depth, O⟩ ∨ ∃ p ∈ Level.all ⟨opener?, depth, O⟩, b ∈ p.parts := by
  induction O generalizing opener? depth with
  | done => exact .inl (List.mem_singleton.1 hb)
  | step lang i inner kind? body next ihinner ihbody ihnext =>
    have hown {a : Level} (ha : a ∈ (step lang i inner kind? body next).parts depth) :
        ∃ p ∈ Level.all ⟨opener?, depth, step lang i inner kind? body next⟩, a ∈ p.parts :=
      ⟨_, List.mem_cons_self, ha⟩
    rcases mem_all_step.1 hb with rfl | hb | hb | hb
    · exact .inl rfl
    · refine .inr ?_
      rcases ihinner hb with rfl | ⟨p, hp, hbp⟩
      · exact hown List.mem_cons_self
      · exact ⟨p, mem_all_step.2 (.inr (.inl hp)), hbp⟩
    · refine .inr ?_
      rcases ihbody hb with rfl | ⟨p, hp, hbp⟩
      · exact hown (List.mem_cons_of_mem _ List.mem_cons_self)
      · exact ⟨p, mem_all_step.2 (.inr (.inr (.inl hp))), hbp⟩
    · refine .inr ?_
      have hb' : b ∈ Level.all ⟨opener?, depth, next⟩ := List.mem_cons_of_mem _ hb
      rcases ihnext hb' with rfl | ⟨p, hp, hbp⟩
      · exact absurd (depth_lt_of_mem_levels hb) (Nat.lt_irrefl _)
      · rcases List.mem_cons.1 hp with rfl | hp
        · exact hown (List.mem_cons_of_mem _ (List.mem_cons_of_mem _ hbp))
        · exact ⟨p, mem_all_step.2 (.inr (.inr (.inr hp))), hbp⟩

/-- Every instruction is directly in some level. -/
theorem exists_mem_direct (hv : v ∈ O.visits depth)
    (opener? : Option (Instruction × BodyKind)) :
    ∃ b ∈ Level.all ⟨opener?, depth, O⟩, v ∈ b.direct := by
  induction O generalizing opener? depth with
  | done => cases hv
  | step lang i inner kind? body next ihinner ihbody ihnext =>
    simp only [visits, List.mem_cons, List.mem_append] at hv
    rcases hv with rfl | hv | hv | hv
    · exact ⟨_, List.mem_cons_self, List.mem_cons_self⟩
    · obtain ⟨b, hb, hdirect⟩ := ihinner hv none
      exact ⟨b, mem_all_step.2 (.inr (.inl hb)), hdirect⟩
    · obtain ⟨b, hb, hdirect⟩ := ihbody hv (kind?.map (i, ·))
      exact ⟨b, mem_all_step.2 (.inr (.inr (.inl hb))), hdirect⟩
    · obtain ⟨b, hb, hdirect⟩ := ihnext hv opener?
      rcases List.mem_cons.1 hb with rfl | hb
      · exact ⟨_, List.mem_cons_self, List.mem_cons_of_mem _ hdirect⟩
      · exact ⟨b, mem_all_step.2 (.inr (.inr (.inr hb))), hdirect⟩

/-- What is directly in a script and not the instruction that the script begins with comes after
the body of that instruction. -/
theorem mem_direct_next {lang : Language} {i : Instruction} {inner body next : Outline}
    {kind? : Option BodyKind} (hv : v ∈ (step lang i inner kind? body next).direct depth)
    (hlt : i.offset < v.offset) : v ∈ next.direct depth := by
  rcases List.mem_cons.1 hv with rfl | hv
  · exact absurd hlt (Nat.lt_irrefl _)
  · exact hv

/-- What is in a part of a script comes after the instruction that the script begins with. -/
theorem mem_visits_of_mem_parts {lang : Language} {i : Instruction} {inner body next : Outline}
    {kind? : Option BodyKind} (hb : b ∈ (step lang i inner kind? body next).parts depth)
    (hv : v ∈ b.visits) :
    v ∈ inner.visits (depth + 1) ++ (body.visits (depth + 1) ++ next.visits depth) := by
  simp only [parts, List.mem_cons] at hb
  rcases hb with rfl | rfl | hb
  · exact List.mem_append_left _ hv
  · exact List.mem_append_right _ (List.mem_append_left _ hv)
  · have hb' : b ∈ Level.all ⟨none, depth, next⟩ :=
      List.mem_cons_of_mem _ (mem_levels_of_mem_parts hb)
    exact List.mem_append_right _ (List.mem_append_right _ (mem_visits_of_mem_all hb' hv))

/-- The instructions inside an instruction, those in its body and those behind it are different
ones. -/
theorem parts_disjoint {lang : Language} {i : Instruction} {inner body next : Outline}
    {kind? : Option BodyKind}
    (hoffset : ((step lang i inner kind? body next).visits depth).Pairwise (·.offset < ·.offset)) :
    (∀ v ∈ inner.visits (depth + 1), v ∉ body.visits (depth + 1) ∧ v ∉ next.visits depth) ∧
      (∀ v ∈ body.visits (depth + 1), v ∉ next.visits depth) ∧
        ∀ v ∈ inner.visits (depth + 1) ++ (body.visits (depth + 1) ++ next.visits depth),
          i.offset < v.offset := by
  rw [visits, List.pairwise_cons, List.pairwise_append, List.pairwise_append] at hoffset
  obtain ⟨hown, -, ⟨-, -, hbodynext⟩, hbehind⟩ := hoffset
  refine ⟨fun v hv ↦ ⟨fun hv' ↦ ?_, fun hv' ↦ ?_⟩, fun v hv hv' ↦ ?_, hown⟩
  · exact Nat.lt_irrefl _ (hbehind v hv v (List.mem_append_left _ hv'))
  · exact Nat.lt_irrefl _ (hbehind v hv v (List.mem_append_right _ hv'))
  · exact Nat.lt_irrefl _ (hbodynext v hv v hv')

/-- What is directly in a level is in everything that the level is in. -/
theorem mem_visits_of_mem_direct_of_mem_all (hb : b ∈ Level.all ⟨opener?, depth, O⟩)
    (hv : v ∈ b.direct) : v ∈ O.visits depth :=
  mem_visits_of_mem_all hb (mem_visits_of_mem_direct hv)

/-- **No instruction is directly in two levels.** -/
theorem pairwise_direct (hoffset : (O.visits depth).Pairwise (·.offset < ·.offset))
    (opener? : Option (Instruction × BodyKind)) :
    (Level.all ⟨opener?, depth, O⟩).Pairwise fun a b ↦ ∀ v ∈ a.direct, v ∉ b.direct := by
  induction O generalizing opener? depth with
  | done => exact List.pairwise_singleton _ _
  | step lang i inner kind? body next ihinner ihbody ihnext =>
    obtain ⟨hinner, hbody, hown⟩ := parts_disjoint hoffset
    rw [visits, List.pairwise_cons, List.pairwise_append, List.pairwise_append] at hoffset
    obtain ⟨-, hoffset₁, ⟨hoffset₂, hoffset₃, -⟩, -⟩ := hoffset
    obtain ⟨htop, hlevels⟩ := List.pairwise_cons.1 (ihnext hoffset₃ opener?)
    have hmem {a : Level} (ha : a ∈ next.levels depth) : a ∈ Level.all ⟨opener?, depth, next⟩ :=
      List.mem_cons_of_mem _ ha
    rw [Level.all, List.pairwise_cons]
    refine ⟨fun a ha v hv hv' ↦ ?_, ?_⟩
    · have hlt := depth_lt_of_mem_levels ha
      rw [← depth_of_mem_direct hv', depth_of_mem_direct hv] at hlt
      exact Nat.lt_irrefl _ hlt
    simp only [levels, List.pairwise_append]
    refine ⟨ihinner hoffset₁ none, ⟨ihbody hoffset₂ _, hlevels, ?_⟩, ?_⟩
    · intro a ha b hb v hv hv'
      exact hbody v (mem_visits_of_mem_direct_of_mem_all ha hv)
        (mem_visits_of_mem_direct_of_mem_all (hmem hb) hv')
    · intro a ha b hb v hv hv'
      have hv := mem_visits_of_mem_direct_of_mem_all ha hv
      rcases List.mem_append.1 hb with hb | hb
      · exact (hinner v hv).1 (mem_visits_of_mem_direct_of_mem_all hb hv')
      · exact (hinner v hv).2 (mem_visits_of_mem_direct_of_mem_all (hmem hb) hv')

theorem eq_of_mem_direct (hoffset : (O.visits depth).Pairwise (·.offset < ·.offset))
    (hb : b ∈ Level.all ⟨opener?, depth, O⟩) (hb' : b' ∈ Level.all ⟨opener?, depth, O⟩)
    (hv : v ∈ b.direct) (hv' : v ∈ b'.direct) : b = b' := by
  have hpairwise := pairwise_direct hoffset opener?
  refine List.Pairwise.forall_of_forall_of_flip
    (R := fun a b : Level ↦ v ∈ a.direct → v ∈ b.direct → a = b) ?_ ?_ ?_ hb hb' hv hv'
  · exact fun _ _ _ _ ↦ rfl
  · exact hpairwise.imp fun h hv hv' ↦ absurd hv' (h v hv)
  · exact hpairwise.imp fun h hv hv' ↦ absurd hv (h v hv')

end Outline

/-! ## What a level has left -/

namespace Level

variable (b : Level) (v : Visit)

/-- The bytes that a level has from an instruction on. -/
def rest : List UInt8 := b.outline.code.drop (v.offset - b.outline.start)

/-- The length of an instruction, read off all the bytes that its level has left. -/
def wanted : Nat := v.language.length (Bytes.whole (b.rest v).toArray) v.instruction.mode

/-- Whether an instruction asks for more bytes than its level has left. -/
def Short : Prop := (b.rest v).length < b.wanted v

instance : Decidable (b.Short v) := inferInstanceAs (Decidable (_ < _))

/-- The problem of an instruction that asks for more bytes than its level has left. -/
def shortage? : Option Problem :=
  if b.Short v then some (.truncated v.offset (b.wanted v) (b.rest v).length) else none

end Level

namespace Language

variable {lang : Language} {c : Cursor} {depth : Nat}

/-- Every level inside a script is read like a script of its own. -/
theorem exists_outline_eq {b : Level} (hb : b ∈ (lang.outline c).levels depth) :
    ∃ l c', b.outline = outline l c' := by
  fun_induction lang.outline c generalizing depth with
  | case1 => cases hb
  | case2 lang c s hs ihinner ihbody ihafter =>
    simp only [Outline.levels, List.mem_append, List.mem_cons] at hb
    rcases hb with (rfl | hb) | (rfl | hb) | hb
    · exact ⟨_, _, rfl⟩
    · exact ihinner hb
    · exact ⟨_, _, rfl⟩
    · exact ihbody hb
    · exact ihafter hb

/-- An instruction directly in a script is read from all the bytes that the script has left. -/
theorem exists_step_of_mem_direct {v : Visit} (hv : v ∈ (lang.outline c).direct depth) :
    ∃ (c' : Cursor) (s : Step) (before : List UInt8), c'.step? lang = some s ∧
      v = ⟨lang, s.instruction, depth⟩ ∧ c.rest.toList = before ++ c'.rest.toList ∧
        c'.offset = c.offset + before.length := by
  fun_induction lang.outline c with
  | case1 => cases hv
  | case2 lang c s hs _ _ ihafter =>
    rcases List.mem_cons.1 hv with rfl | hv
    · exact ⟨c, s, [], hs, rfl, rfl, rfl⟩
    · obtain ⟨c', s', before, hs', rfl, hrest, hoffset⟩ := ihafter hv
      refine ⟨c', s', s.instruction.bytes.toList ++ ((s.body lang).rest.toList ++ before), hs', rfl,
        ?_, ?_⟩
      · rw [Step.toList_parts hs, hrest, List.append_assoc, List.append_assoc]
      · rw [hoffset, Step.offset_after hs, List.length_append, List.length_append]
        omega

end Language

namespace Level

variable {b : Level} {v : Visit} {lang : Language} {c : Cursor}
  (hb : b.outline = lang.outline c) (hv : v ∈ b.direct)
include hb hv

/-- An instruction in a level, with the step that read it. -/
theorem exists_step : ∃ (c' : Cursor) (s : Step), c'.step? lang = some s ∧
    v = ⟨lang, s.instruction, b.depth⟩ ∧ b.rest v = c'.rest.toList ∧ b.wanted v = s.wanted ∧
      b.border = v.offset + (b.rest v).length := by
  have hdecodes := decodes_outline lang c
  rw [← hb] at hdecodes
  rw [direct, hb] at hv
  obtain ⟨c', s, before, hs, rfl, hrest, hoffset⟩ := Language.exists_step_of_mem_direct hv
  obtain ⟨-, hw, hi, -⟩ := Cursor.step?_eq_some hs
  have hplace : (⟨lang, s.instruction, b.depth⟩ : Visit).offset = c.offset + before.length := by
    rw [Visit.offset, hi, hoffset]
  have hleft : b.rest ⟨lang, s.instruction, b.depth⟩ = c'.rest.toList := by
    rw [rest, hplace, hdecodes.code_eq, hdecodes.start_eq, hrest, Nat.add_sub_cancel_left,
      List.drop_left]
  refine ⟨c', s, hs, rfl, hleft, ?_, ?_⟩
  · rw [wanted, hleft, hw, hi]
    exact Language.length_congr (by simp) _
  · rw [border, hplace, hleft, hdecodes.code_eq, hdecodes.start_eq, hrest, List.length_append,
      Nat.add_assoc]

/-- The instructions of a level start before it ends. -/
theorem offset_lt_border : v.offset < b.border := by
  obtain ⟨c', s, hs, -, hleft, -, hborder⟩ := exists_step hb hv
  have hpos := Cursor.size_rest_pos hs
  rw [hborder, hleft, Subarray.length_toList]
  exact Nat.lt_add_of_pos_right hpos

/-- What an instruction looks like when it is seen tells whether its level had enough bytes. -/
theorem shortage?_eq_truncation? : b.shortage? v = v.truncation? := by
  obtain ⟨c', s, hs, rfl, hleft, hwanted, -⟩ := exists_step hb hv
  have hlength := Cursor.length_instruction hs
  have hpos := (Cursor.step?_eq_some hs).1
  have hsize : (b.rest ⟨lang, s.instruction, b.depth⟩).length = c'.rest.size := by
    rw [hleft, Subarray.length_toList]
  have hiff : b.Short ⟨lang, s.instruction, b.depth⟩ ↔ s.isTruncated = true := by
    rw [Short, hsize, hwanted, Step.isTruncated, decide_eq_true_eq, hlength]
    omega
  rw [shortage?, Visit.truncation?]
  by_cases hshort : b.Short ⟨lang, s.instruction, b.depth⟩
  · have htruncated := hiff.1 hshort
    have heq : s.instruction.length = c'.rest.size := by
      rw [Short, hsize, hwanted] at hshort
      omega
    rw [if_pos hshort, if_pos ((Cursor.truncated_iff hs).1 htruncated), hwanted, hsize, ← heq,
      Cursor.length_bytes_of_truncated hs htruncated]
  · rw [if_neg hshort, if_neg (mt (Cursor.truncated_iff hs).2 (mt hiff.2 hshort))]

/-- An instruction that asks for too much has all the bytes that its level has left, and there is at
least one. -/
theorem Short.spec (hshort : b.Short v) :
    0 < (b.rest v).length ∧ v.instruction.length = (b.rest v).length ∧ v.stop = b.border := by
  obtain ⟨c', s, hs, rfl, hleft, hwanted, hborder⟩ := exists_step hb hv
  have hpos := Cursor.size_rest_pos hs
  have hlength := Cursor.length_instruction hs
  have hsize : (b.rest ⟨lang, s.instruction, b.depth⟩).length = c'.rest.size := by
    rw [hleft, Subarray.length_toList]
  rw [Short, hsize, hwanted] at hshort
  have heq : s.instruction.length = c'.rest.size := by omega
  rw [Visit.stop, hborder, hsize]
  exact ⟨hpos, heq, congrArg _ heq⟩

end Level

/-! ## What comes behind a level -/

/-- A byte that is not zero is there. -/
theorem Instruction.getElem?_whole {i : Instruction} {pos : Nat} (h : i.u8 pos ≠ 0) :
    i.bytes.whole[pos]? = some (i.u8 pos) := by
  rw [Stretch.getElem?_eq, Bytes.toList_whole, Array.getElem?_toList]
  rw [u8, Bytes.u8?] at h ⊢
  cases hbyte : i.bytes[pos]? with
  | none => simp [hbyte] at h
  | some b => rfl

/-- An instruction that carries a fragment asks for the fragment and nothing behind it. -/
theorem Re1Event.length_of_fragment? {i : Instruction} {f : Fragment}
    (h : fragment? i = some f) : length i.bytes.whole i.mode = f.start + f.length := by
  have hlength (hmode : i.mode = .m0) (hop : i.opcode ≠ 0) (hstored : 1 ≤ (i.u8 1).toNat)
      (hshared : sharedLength? i.opcode (some (i.u8 1)) = none) :
      length i.bytes.whole i.mode = length0 i.opcode (some (i.u8 1)) := by
    have hne : i.u8 1 ≠ 0 := by
      intro hzero
      simp [hzero] at hstored
    rw [length, i.getElem?_whole hop, i.getElem?_whole hne, hmode]
    simp only [show i.u8 0 = i.opcode from rfl, hshared]
  rw [fragment?] at h
  split at h
  · next hcarries =>
    obtain ⟨hmode, hop, hstored⟩ := hcarries
    cases h
    rw [hlength hmode (by rw [hop]; decide) hstored (by rw [hop]; rfl), hop]
    show (i.u8 1).toNat + 1 = 2 + ((i.u8 1).toNat - 1)
    omega
  · split at h
    · next hcarries =>
      obtain ⟨hmode, hop, hstored⟩ := hcarries
      cases h
      rw [hlength hmode (by rw [hop]; decide) (by omega) (by rw [hop]; rfl), hop]
      show (i.u8 1).toNat = 2 + ((i.u8 1).toNat - 2)
      omega
    · cases h

/-- An instruction with something inside has no body behind it. -/
theorem Step.body_eq_nil_of_inner {c : Cursor} {lang : Language} {s : Step}
    (h : c.step? lang = some s) (hne : (s.inner lang).2.rest.size ≠ 0) :
    (s.body lang).rest.toList = [] := by
  obtain ⟨_, _, -, -, -, hevent⟩ := Step.inner_eq h
  have hlang : lang = .re1Event := by
    refine (hevent fun hnil ↦ hne ?_).1
    rw [← Subarray.length_toList, hnil, List.length_nil]
  exact (s.opened_eq lang).2 ((s.opened_eq lang).1 hlang)

/-- A fragment ends with the instruction that carries it. -/
theorem Step.stop_inner {c : Cursor} {lang : Language} {s : Step} (h : c.step? lang = some s)
    (hne : (s.inner lang).2.rest.size ≠ 0) :
    (s.inner lang).2.offset + (s.inner lang).2.rest.size = c.offset + s.instruction.length := by
  obtain ⟨hpos, hw, hi, -⟩ := Cursor.step?_eq_some h
  cases hf : lang.fragment? s.instruction with
  | none => simp [inner, hf, Cursor.body] at hne
  | some f =>
    rw [inner, hf] at hne ⊢
    have hlang : lang = .re1Event := by
      cases lang with
      | re1Event => rfl
      | re1Scd | re2 | re3 => cases hf
    subst hlang
    have hstart := (Language.fragment?_start hf).1
    -- the bytes of the instruction ask for the fragment, and the instruction has no more than that
    have hown : Language.re1Event.length s.instruction.bytes.whole s.instruction.mode
        = f.start + f.length := Re1Event.length_of_fragment? hf
    have hwanted := Cursor.length_bytes_of_pos h (by omega)
    have hlength := Cursor.length_instruction h
    simp only [Fragment.cursor, Fragment.code, Fragment.startIn, Bytes.size_stretch] at hne ⊢
    rw [show s.instruction.offset = c.offset by rw [hi]]
    rw [Instruction.length] at *
    omega

namespace Level

variable {b : Level} {lang : Language} {c : Cursor}

/-- A level ends where its bytes do. -/
theorem border_eq (hb : b.outline = lang.outline c) : b.border = c.offset + c.rest.size := by
  have hdecodes := decodes_outline lang c
  rw [border, hb, hdecodes.start_eq, hdecodes.code_eq, Subarray.length_toList]

end Level

namespace Language

variable {lang : Language} {c : Cursor} {depth : Nat} {b : Level} {v w : Visit}

/-- A script that has instructions has one at its start. -/
theorem exists_direct_at_start (hw : w ∈ (lang.outline c).direct depth) :
    ∃ n ∈ (lang.outline c).direct depth, n.offset = c.offset := by
  match hs : c.step? lang with
  | none =>
    rw [outline_eq_of_none hs] at hw
    cases hw
  | some s =>
    obtain ⟨-, -, hi, -⟩ := Cursor.step?_eq_some hs
    rw [outline_eq_of_some hs]
    refine ⟨_, List.mem_cons_self, ?_⟩
    rw [Visit.offset, hi]

/-- **A script goes on where a level in it ends**, if it goes on at all. -/
theorem exists_direct_at_border (hb : b ∈ (lang.outline c).parts depth) (hv : v ∈ b.direct)
    (hw : w ∈ (lang.outline c).direct depth) (hlt : v.offset < w.offset) :
    ∃ n ∈ (lang.outline c).direct depth, n.offset = b.border := by
  fun_induction lang.outline c with
  | case1 => cases hb
  | case2 lang c s hs _ _ ihafter =>
    have hoffset := (decodes_outline lang c).pairwise_offset depth
    rw [outline_eq_of_some hs] at hoffset
    obtain ⟨-, -, hown⟩ := Outline.parts_disjoint hoffset
    have hfirst : s.instruction.offset < v.offset :=
      hown v (Outline.mem_visits_of_mem_parts hb (Outline.mem_visits_of_mem_direct hv))
    have hw := Outline.mem_direct_next hw (Nat.lt_trans hfirst hlt)
    suffices h : ∃ n ∈ (lang.outline (s.after lang)).direct depth, n.offset = b.border by
      obtain ⟨n, hn, heq⟩ := h
      exact ⟨n, List.mem_cons_of_mem _ hn, heq⟩
    simp only [Outline.parts, List.mem_cons] at hb
    rcases hb with rfl | rfl | hb
    · have hne : (s.inner lang).2.rest.size ≠ 0 := by
        intro hzero
        rw [Level.direct, outline_of_size_eq_zero hzero] at hv
        cases hv
      obtain ⟨n, hn, heq⟩ := exists_direct_at_start hw
      refine ⟨n, hn, ?_⟩
      rw [heq, Level.border_eq rfl, Step.stop_inner hs hne, Step.offset_after hs,
        Step.body_eq_nil_of_inner hs hne, List.length_nil]
      rfl
    · obtain ⟨n, hn, heq⟩ := exists_direct_at_start hw
      refine ⟨n, hn, ?_⟩
      rw [heq, Level.border_eq rfl, Step.offset_body hs, Step.offset_after hs,
        Subarray.length_toList]
    · exact ihafter hb hw

end Language

/-! ## What is seen of a level -/

namespace Outline

variable {O body : Outline} {depth : Nat} {t middle : Trace} {completed : Bool}
  {kind? : Option BodyKind} {i : Instruction} {p : Level} {n w : Visit}

/-- What is seen between an instruction and what comes after its body is nothing, or it is what is
seen of the body. -/
theorem Middle.visits_eq (h : Middle i depth body kind? middle) :
    middle.visits = [] ∨ ∃ t₂ completed, body.Runs (depth + 1) t₂ completed ∧
      middle.visits = t₂.visits := by
  match h with
  | .plain hbody => exact .inr ⟨_, _, hbody, rfl⟩
  | .asked .passed => exact .inl rfl
  | .asked (.entered hinside) =>
    refine .inr ⟨_, _, hinside, ?_⟩
    simp [Trace.visits]

theorem Middle.visits_subset (h : Middle i depth body kind? middle) :
    middle.visits ⊆ body.visits (depth + 1) := by
  rcases h.visits_eq with hnil | ⟨t₂, _, hbody, heq⟩
  · rw [hnil]
    exact List.nil_subset _
  · rw [heq]
    exact hbody.visits_sublist.subset

/-- What is seen of a script is seen in that part of the conversation where the walk is in its part
of the script. -/
theorem mem_visits_of_mem_part {lang : Language} {inner next : Outline} {t₁ t₃ : Trace}
    {completed₁ completed₃ : Bool}
    (hoffset : ((step lang i inner kind? body next).visits depth).Pairwise (·.offset < ·.offset))
    (hinner : inner.Runs (depth + 1) t₁ completed₁) (hmiddle : Middle i depth body kind? middle)
    (hnext : next.Runs depth t₃ completed₃)
    (hseen : w ∈ t₁.visits ++ (middle.visits ++ t₃.visits)) :
    (w ∈ inner.visits (depth + 1) → w ∈ t₁.visits) ∧
      (w ∈ body.visits (depth + 1) → w ∈ middle.visits) ∧
        (w ∈ next.visits depth → w ∈ t₃.visits) := by
  obtain ⟨hinner', hbody', -⟩ := parts_disjoint hoffset
  have hsub₁ := hinner.visits_sublist.subset
  have hsub₂ := hmiddle.visits_subset
  have hsub₃ := hnext.visits_sublist.subset
  simp only [List.mem_append] at hseen
  refine ⟨fun hw ↦ ?_, fun hw ↦ ?_, fun hw ↦ ?_⟩
  · rcases hseen with h | h | h
    · exact h
    · exact absurd (hsub₂ h) (hinner' w hw).1
    · exact absurd (hsub₃ h) (hinner' w hw).2
  · rcases hseen with h | h | h
    · exact absurd hw (hinner' w (hsub₁ h)).1
    · exact h
    · exact absurd (hsub₃ h) (hbody' w hw)
  · rcases hseen with h | h | h
    · exact absurd hw (hinner' w (hsub₁ h)).2
    · exact absurd hw (hbody' w (hsub₂ h))
    · exact h

/-- **Of each level, an observer sees a first part.** -/
theorem Runs.mem_visits_of_mem_direct (h : O.Runs depth t completed)
    (hoffset : (O.visits depth).Pairwise (·.offset < ·.offset))
    {opener? : Option (Instruction × BodyKind)} (hp : p ∈ Level.all ⟨opener?, depth, O⟩)
    (hn : n ∈ p.direct) (hw : w ∈ p.direct) (hlt : n.offset < w.offset) (hseen : w ∈ t.visits) :
    n ∈ t.visits := by
  induction O generalizing opener? depth t completed p with
  | done =>
    rw [List.mem_singleton.1 hp] at hn
    cases hn
  | step lang j inner kind? body next ihinner ihbody ihnext =>
    obtain ⟨-, -, hown⟩ := parts_disjoint hoffset
    have hle {u : Visit} (hu : u ∈ p.direct) : j.offset ≤ u.offset := by
      rcases List.mem_cons.1 (mem_visits_of_mem_direct_of_mem_all hp hu) with rfl | hu
      · exact Nat.le_refl _
      · exact Nat.le_of_lt (hown u hu)
    have hfirst : j.offset < w.offset := Nat.lt_of_le_of_lt (hle hn) hlt
    rcases h.eq_or_exists_middle with
      ⟨rfl, -⟩ | ⟨t₁, middle, t₃, _, hinner, hmiddle, hnext, rfl⟩
    · cases List.mem_singleton.1 hseen
      exact absurd hfirst (Nat.lt_irrefl _)
    have hrest : w ∈ t₁.visits ++ (middle.visits ++ t₃.visits) := by
      simp only [Trace.visits, Trace.visits_append, List.mem_cons] at hseen
      rcases hseen with rfl | hseen
      · exact absurd hfirst (Nat.lt_irrefl _)
      · exact hseen
    obtain ⟨hseen₁, hseen₂, hseen₃⟩ :=
      mem_visits_of_mem_part hoffset hinner hmiddle hnext hrest
    rw [visits, List.pairwise_cons, List.pairwise_append, List.pairwise_append] at hoffset
    obtain ⟨-, hoffset₁, ⟨hoffset₂, hoffset₃, -⟩, -⟩ := hoffset
    simp only [Trace.visits, Trace.visits_append, List.mem_cons, List.mem_append]
    rcases mem_all_step.1 hp with rfl | hp | hp | hp
    · have hw' := mem_direct_next hw hfirst
      have hseen' := hseen₃ (Outline.mem_visits_of_mem_direct hw')
      rcases List.mem_cons.1 hn with rfl | hn'
      · exact .inl rfl
      · have hp' : ⟨none, depth, next⟩ ∈ Level.all ⟨none, depth, next⟩ := List.mem_cons_self
        exact .inr (.inr (.inr (ihnext hnext hoffset₃ hp' hn' hw' hseen')))
    · have hseen' := hseen₁ (mem_visits_of_mem_direct_of_mem_all hp hw)
      exact .inr (.inl (ihinner hinner hoffset₁ hp hn hw hseen'))
    · have hseen' := hseen₂ (mem_visits_of_mem_direct_of_mem_all hp hw)
      rcases hmiddle.visits_eq with hnil | ⟨t₂, _, hbody, heq⟩
      · rw [hnil] at hseen'
        cases hseen'
      · rw [heq] at hseen' ⊢
        exact .inr (.inr (.inl (ihbody hbody hoffset₂ hp hn hw hseen')))
    · have hp' : p ∈ Level.all ⟨none, depth, next⟩ := List.mem_cons_of_mem _ hp
      have hseen' := hseen₃ (mem_visits_of_mem_direct_of_mem_all hp' hw)
      exact .inr (.inr (.inr (ihnext hnext hoffset₃ hp' hn hw hseen')))

end Outline

/-! ## The level that an instruction is in -/

/-- Whether a problem is about an instruction that was cut short. -/
def Problem.isTruncation : Problem → Bool
  | truncated .. => true
  | _ => false

/-- Apart from its ceiling, a report tells of nothing but instructions that were cut short. -/
theorem Trace.filter_isTruncation_report (limit : Nat) (t : Trace) :
    (t.report limit).problems.toList.filter Problem.isTruncation = (t.upTo limit).truncations := by
  have hall : (t.upTo limit).truncations.filter Problem.isTruncation
      = (t.upTo limit).truncations := by
    refine List.filter_eq_self.2 fun problem hproblem ↦ ?_
    obtain ⟨v, -, hv⟩ := List.mem_filterMap.1 hproblem
    rw [Visit.truncation?] at hv
    split at hv
    · cases hv
      rfl
    · cases hv
  rw [report, Array.toList_append, List.filter_append, hall]
  split
  · exact List.append_nil _
  · exact List.append_nil _

namespace Language

variable (lang : Language) (origin : Nat) (code : Stretch)

/-- The level that an instruction is directly in. -/
def home? (v : Visit) : Option Level := (lang.levels origin code).find? (v ∈ ·.direct)

/-- The problem of an instruction that asks for more bytes than the level that it is directly in has
left. -/
def shortage? (v : Visit) : Option Problem := (lang.home? origin code v).bind (·.shortage? v)

variable {lang origin code} {v : Visit} {b : Level}

/-- Every level of a script is read like a script of its own. -/
theorem exists_outline_eq_of_mem_levels (hb : b ∈ lang.levels origin code) :
    ∃ l c, b.outline = outline l c := by
  rcases List.mem_cons.1 hb with rfl | hb
  · exact ⟨_, _, rfl⟩
  · exact exists_outline_eq hb

theorem mem_of_home?_eq_some (h : lang.home? origin code v = some b) :
    b ∈ lang.levels origin code ∧ v ∈ b.direct :=
  ⟨List.mem_of_find?_eq_some h, by simpa using List.find?_some h⟩

/-- **Every instruction is directly in one level.** -/
theorem exists_home?_eq (hv : v ∈ (lang.outline (.start origin code)).visits 0) :
    ∃ b, lang.home? origin code v = some b ∧
      ∀ b', b' ∈ lang.levels origin code ∧ v ∈ b'.direct ↔ b' = b := by
  obtain ⟨b₀, hb₀, hdirect⟩ := Outline.exists_mem_direct hv none
  obtain ⟨b, hhome⟩ : ∃ b, lang.home? origin code v = some b := by
    refine Option.isSome_iff_exists.1 (List.find?_isSome.2 ⟨b₀, hb₀, ?_⟩)
    exact decide_eq_true hdirect
  obtain ⟨hb, hv'⟩ := mem_of_home?_eq_some hhome
  refine ⟨b, hhome, fun b' ↦ ⟨fun ⟨hb', hdirect'⟩ ↦ ?_, fun heq ↦ heq ▸ ⟨hb, hv'⟩⟩⟩
  have hoffset := (decodes_outline lang (.start origin code)).pairwise_offset 0
  exact Outline.eq_of_mem_direct hoffset hb' hb hdirect' hv'

/-- What an instruction looks like when it is seen tells whether it was cut short. -/
theorem shortage?_eq_truncation? (hv : v ∈ (lang.outline (.start origin code)).visits 0) :
    lang.shortage? origin code v = v.truncation? := by
  obtain ⟨b, hhome, -⟩ := exists_home?_eq hv
  obtain ⟨hb, hdirect⟩ := mem_of_home?_eq_some hhome
  obtain ⟨l, c, heq⟩ := exists_outline_eq_of_mem_levels hb
  rw [shortage?, hhome]
  exact Level.shortage?_eq_truncation? heq hdirect

end Language

/-! ## Main statement -/

/-- What it means that the instruction `v`, which is directly in the level `b` of a script with the
levels `levels`, is cut short.  The instructions `post` are the ones that are seen after it. -/
structure Level.CutShort (levels : List Level) (b : Level) (v : Visit) (post : List Visit) : Prop
    where
  one_le_available : 1 ≤ (b.rest v).length
  available_lt_wanted : (b.rest v).length < b.wanted v
  /-- The instruction takes all that there is. -/
  length_eq : v.instruction.length = (b.rest v).length
  stop_eq : v.offset + (b.rest v).length = b.border
  /-- No other instruction of the level is seen after it. -/
  last : ∀ w ∈ post, w ∉ b.direct
  /-- What is seen next in the level around starts where this level ends. -/
  resumes : ∀ p ∈ levels, b ∈ p.parts → ∀ mid w rest, post = mid ++ w :: rest → w ∈ p.direct →
    (∀ u ∈ mid, u ∉ p.direct) → w.offset = b.border

/-- What lies between two instructions that are seen is seen between them. -/
theorem Visit.mem_of_between {pre mid rest : List Visit} {v w n : Visit}
    (hoffset : (pre ++ v :: (mid ++ w :: rest)).Pairwise (·.offset < ·.offset))
    (hn : n ∈ pre ++ v :: (mid ++ w :: rest)) (hv : v.offset < n.offset)
    (hw : n.offset < w.offset) : n ∈ mid := by
  rw [List.pairwise_append, List.pairwise_cons, List.pairwise_append, List.pairwise_cons] at hoffset
  obtain ⟨-, ⟨-, -, ⟨hrest, -⟩, -⟩, hpre⟩ := hoffset
  simp only [List.mem_append, List.mem_cons] at hn
  rcases hn with hn | rfl | hn | rfl | hn
  · exact absurd (hpre n hn v List.mem_cons_self) (Nat.lt_asymm hv)
  · exact absurd hv (Nat.lt_irrefl _)
  · exact hn
  · exact absurd hw (Nat.lt_irrefl _)
  · exact absurd (hrest n hn) (Nat.lt_asymm hw)

section

variable {lang : Language} {origin limit : Nat} {code : Stretch} {t : Trace} {completed : Bool}
  (h : (lang.outline (.start origin code)).Runs 0 t completed) {pre post : List Visit} {v : Visit}
  (hsplit : (t.upTo limit).visits = pre ++ v :: post)
include h hsplit

/-- What is seen later and is no deeper starts behind an instruction. -/
theorem Outline.Runs.stop_le_of_mem {w : Visit} (hw : w ∈ post) (hdepth : w.depth ≤ v.depth) :
    v.stop ≤ w.offset := by
  have hbefore : (pre ++ v :: post).Pairwise Visit.Before := by
    rw [← hsplit]
    exact ((decodes_outline lang (.start origin code)).pairwise_before 0).sublist
      (h.visits_upTo_sublist limit)
  have hvw := (List.pairwise_cons.1 (List.pairwise_append.1 hbefore).2.1).1 w hw
  exact hvw.stop_le_of_depth hdepth

/-- **An instruction that asks for more than its level has left ends the level**, and the level
around goes on behind it. -/
theorem Outline.Runs.cutShort {b : Level} (hb : b ∈ lang.levels origin code) (hv : v ∈ b.direct)
    (hshort : b.Short v) : b.CutShort (lang.levels origin code) v post := by
  have hdecodes := decodes_outline lang (.start origin code)
  obtain ⟨l, c, heq⟩ := Language.exists_outline_eq_of_mem_levels hb
  obtain ⟨hpos, hlength, hstop⟩ := hshort.spec heq hv
  refine ⟨hpos, hshort, hlength, ?_, fun w hw hdirect ↦ ?_,
    fun p hp hpart mid w rest hpost hw hmid ↦ ?_⟩
  · rw [← hstop, Visit.stop, hlength]
  · have hdepth : w.depth ≤ v.depth := Nat.le_of_eq <| by
      rw [Outline.depth_of_mem_direct hdirect, Outline.depth_of_mem_direct hv]
    have hle := h.stop_le_of_mem hsplit hw hdepth
    have hlt := Level.offset_lt_border heq hdirect
    omega
  · have hmem : w ∈ post := by simp [hpost]
    have hdepth : w.depth ≤ v.depth := by
      rw [Outline.depth_of_mem_direct hw, Outline.depth_of_mem_direct hv,
        Outline.depth_of_mem_parts hpart]
      exact Nat.le_succ _
    have hle : b.border ≤ w.offset := hstop ▸ h.stop_le_of_mem hsplit hmem hdepth
    have hvlt : v.offset < b.border := Level.offset_lt_border heq hv
    obtain ⟨l', c', heq'⟩ := Language.exists_outline_eq_of_mem_levels hp
    obtain ⟨n, hn, hborder⟩ : ∃ n ∈ p.direct, n.offset = b.border := by
      rw [Level.parts, heq'] at hpart
      rw [Level.direct, heq'] at hw ⊢
      exact Language.exists_direct_at_border hpart hv hw (Nat.lt_of_lt_of_le hvlt hle)
    by_contra hne
    have hlt : n.offset < w.offset := by omega
    -- what starts at the border is seen, and in between
    obtain ⟨tail, htail⟩ := t.upTo_isPrefixOf limit
    have hvisits : t.visits = pre ++ v :: (mid ++ w :: (rest ++ Trace.visits tail)) := by
      rw [← htail, Trace.visits_append, hsplit, hpost]
      simp
    have hoffset := (hdecodes.pairwise_offset 0).sublist h.visits_sublist
    have hseen : n ∈ t.visits := by
      refine h.mem_visits_of_mem_direct (hdecodes.pairwise_offset 0) hp hn hw hlt ?_
      simp [hvisits]
    rw [hvisits] at hoffset hseen
    exact hmid n (Visit.mem_of_between hoffset hseen (by omega) hlt) hn

end

namespace Observer

variable {σ : Type}

/-- **The instructions that are reported as cut short are the ones that their level has too few
bytes for**, in the order in which they are seen, each with the length that it asks for and the
bytes that are left in its level.

The level is the one that the instruction is directly in, and there is just one: the whole script, a
body or a fragment.  It is a piece of the code.  Whatever is reported has at least one byte and all
the bytes up to the end of its level.  Nothing else is seen in that level then, and what is seen
next in the level around starts at that end. -/
theorem truncations_exact (o : Observer σ) (limit : Nat) (lang : Language) (origin : Nat)
    (code : Stretch) (x : σ) :
    let levels := lang.levels origin code
    let V := (o.trace limit lang origin code x).visits
    let problems := (o.walk limit lang origin code x).2.problems
    problems.toList.filter Problem.isTruncation = V.filterMap (lang.shortage? origin code) ∧
      ∀ pre v post, V = pre ++ v :: post → ∃ b, lang.home? origin code v = some b ∧
        (∀ b', b' ∈ levels ∧ v ∈ b'.direct ↔ b' = b) ∧
        Piece origin code.toList b.outline.start b.outline.code ∧
        (b = ⟨none, 0, lang.outline (.start origin code)⟩ ∨ ∃ p ∈ levels, b ∈ p.parts) ∧
        (b.Short v → b.CutShort levels v post) := by
  intro levels V problems
  obtain ⟨t, completed, hruns, -, htrace, hwalk⟩ := o.exists_trace lang origin code x
  have hdecodes : Decodes lang .m0 origin code.toList (lang.outline (.start origin code)) :=
    decodes_outline lang (.start origin code)
  have hV : V = (t.upTo limit).visits := congrArg Trace.visits (htrace limit)
  have hproblems : problems = (t.report limit).problems :=
    congrArg (·.2.problems) (hwalk limit)
  have hseen {v : Visit} (hv : v ∈ V) : v ∈ (lang.outline (.start origin code)).visits 0 :=
    mem_visits_of_mem_trace hv
  refine ⟨?_, fun pre v post hsplit ↦ ?_⟩
  · rw [hproblems, Trace.filter_isTruncation_report, Trace.truncations, ← hV]
    exact List.filterMap_congr fun v hv ↦ (Language.shortage?_eq_truncation? (hseen hv)).symm
  · have hv : v ∈ V := by simp [hsplit]
    obtain ⟨b, hhome, hunique⟩ := Language.exists_home?_eq (hseen hv)
    obtain ⟨hb, hdirect⟩ := Language.mem_of_home?_eq_some hhome
    refine ⟨b, hhome, hunique, ?_, Outline.eq_or_exists_mem_parts hb,
      hruns.cutShort (hV ▸ hsplit) hb hdirect⟩
    rcases List.mem_cons.1 hb with rfl | hlevel
    · rw [hdecodes.start_eq, hdecodes.code_eq]
      exact .refl _ _
    · obtain ⟨-, -, hpiece, -⟩ := hdecodes.exists_of_mem_levels hlevel
      exact hpiece

/-- An event that carries a conditional and two more instructions.  The body of the conditional is
too short for what is in it, and so are the fragment and the event. -/
theorem truncations_exact_event :
    let code := Bytes.whole
      #[0x06, 0x09, 0x01, 0x04, 0x05, 0x03, 0x00, 0x00, 0x04, 0x21, 0x05, 0x11, 0x22]
    let levels := Language.re1Event.levels 0x20 code
    let V := (counting.trace 13 .re1Event 0x20 code 0).visits
    let problems := (counting.walk 13 .re1Event 0x20 code 0).2.problems
    V.map (fun v ↦ (v.offset, v.depth))
        = [(0x20, 0), (0x22, 1), (0x24, 2), (0x26, 1), (0x28, 1), (0x2a, 0)] ∧
      V.filterMap (Language.re1Event.shortage? 0x20 code)
        = [.truncated 0x24 4 2, .truncated 0x28 4 2, .truncated 0x2a 4 3] ∧
      problems.toList.filter Problem.isTruncation
        = [.truncated 0x24 4 2, .truncated 0x28 4 2, .truncated 0x2a 4 3] ∧
      ∀ pre v post, V = pre ++ v :: post → v.offset ∈ [0x24, 0x28, 0x2a] →
        ∃ b : Level, b.CutShort levels v post := by
  intro code levels V problems
  obtain ⟨hreport, hcut⟩ := truncations_exact counting 13 .re1Event 0x20 code 0
  have hproblems : problems.toList.filter Problem.isTruncation
      = [.truncated 0x24 4 2, .truncated 0x28 4 2, .truncated 0x2a 4 3] := by decide +kernel
  have hseen : ∀ v ∈ V, v.offset ∈ [0x24, 0x28, 0x2a] → v.truncation? ≠ none := by decide +kernel
  refine ⟨by decide +kernel, hreport.symm.trans hproblems, hproblems, fun pre v post hsplit hv ↦ ?_⟩
  obtain ⟨b, hhome, hunique, -, -, hb⟩ := hcut pre v post hsplit
  obtain ⟨hlevel, hdirect⟩ := (hunique b).2 rfl
  have hvisit := Outline.mem_visits_of_mem_direct_of_mem_all hlevel hdirect
  have hmem : v ∈ V := by simp [hsplit]
  refine ⟨b, hb (by_contra fun hnot ↦ hseen v hmem hv ?_)⟩
  rw [← Language.shortage?_eq_truncation? hvisit, Language.shortage?, hhome]
  exact if_neg hnot

end Observer
end RoomScript
