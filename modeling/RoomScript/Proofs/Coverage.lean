import RoomScript.Proofs.Placement
import RoomScript.Proofs.Ceiling

/-!
# A walk reads all the code, once

Bodies are cut out of the code by lengths that scripts state about themselves.  The lengths may be
wrong: too long for the code, or ending in the middle of an instruction, or guessed by looking at
the byte where the body should end.  None of that lets a walk read a byte twice, and what it can
lead a walk to leave out is limited.

* In the later generations everything is read: the instructions, in the order of the walk, are the
  code (`Decodes.flatMap_bytes_eq`).
* In a room script of the first generation, a body may be left before its end, where there is
  nothing that has a length.  The places that are not read are the ones behind such an end
  (`Level.LeavesUnread`).
* In an event, what is inside an instruction is read again, as a script of its own
  (`Decodes.exists_outer`).

`coverage_of_thorough_walk` puts this together.
-/

set_option autoImplicit false

namespace RoomScript

/-- Whether the instruction has the byte at place `pos`. -/
def Visit.Covers (v : Visit) (pos : Nat) : Prop := v.offset ≤ pos ∧ pos < v.stop

/-! ## Where reading ends -/

/-- The place behind the last instruction that is in no fragment and no body. -/
def Outline.stop : Outline → Nat
  | done offset _ => offset
  | step _ _ _ _ _ next => next.stop

/-- Whether the byte at place `pos` is left unread at the end of a level. -/
def Level.LeavesUnread (b : Level) (pos : Nat) : Prop :=
  b.outline.stop ≤ pos ∧ pos < b.outline.stop + b.outline.unread.length

/-- Whether the byte at place `pos` is left unread at the end of an outline or of a level in it. -/
def Outline.Misses : Outline → Nat → Prop
  | done offset unread, pos => offset ≤ pos ∧ pos < offset + unread.length
  | step _ _ inner _ body next, pos => inner.Misses pos ∨ body.Misses pos ∨ next.Misses pos

/-- What is left unread is left at the end of some level. -/
theorem Outline.misses_iff (O : Outline) (opener? : Option (Instruction × BodyKind)) (depth : Nat)
    (pos : Nat) :
    O.Misses pos ↔ ∃ b ∈ Level.all ⟨opener?, depth, O⟩, b.LeavesUnread pos := by
  induction O generalizing opener? depth with
  | done => simp [Misses, Level.all, levels, Level.LeavesUnread, stop, unread]
  | step lang i inner kind? body next ihinner ihbody ihnext =>
    have hnext := ihnext opener? depth
    simp only [Level.all, List.mem_cons, exists_eq_or_imp] at hnext
    simp only [Misses, ihinner none (depth + 1), ihbody (kind?.map (i, ·)) (depth + 1), hnext,
      Level.all, levels, List.mem_cons, List.mem_append, or_and_right, exists_or, exists_eq_left,
      Level.LeavesUnread, stop, unread]
    constructor
    · rintro (h | h | h | h)
      · exact .inr (.inl h)
      · exact .inr (.inr (.inl h))
      · exact .inl h
      · exact .inr (.inr (.inr h))
    · rintro (h | h | h | h)
      · exact .inr (.inr (.inl h))
      · exact .inl h
      · exact .inr (.inl h)
      · exact .inr (.inr (.inr h))

namespace Decodes

variable {lang : Language} {mode : Mode} {offset depth pos : Nat} {code : List UInt8}
  {O : Outline} {v : Visit}

/-- Reading ends where nothing has a length, and what is unread is all that comes after. -/
theorem exists_unread (h : Decodes lang mode offset code O) :
    ∃ read mode', code = read ++ O.unread ∧ O.stop = offset + read.length ∧
      lang.length (Bytes.whole O.unread.toArray) mode' = 0 := by
  induction h with
  | done hlength => exact ⟨[], _, rfl, rfl, hlength⟩
  | @step _ _ _ _ offset i _ _ _ _ _ _ _ bodyCode nextCode _ _ _ _ _ _ _ _ _ _ _ _ ihnext =>
    obtain ⟨read, mode', hcode, hstop, hlength⟩ := ihnext
    refine ⟨i.bytes.toList ++ (bodyCode ++ read), mode', ?_, ?_, hlength⟩
    · rw [Outline.unread, List.append_assoc, List.append_assoc, ← hcode]
    · rw [Outline.stop, hstop, List.length_append, List.length_append, Nat.add_assoc, Nat.add_assoc]
      rfl

/-- In the later generations reading ends at the end. -/
theorem unread_eq_nil (h : Decodes lang mode offset code O) (hlang : lang = .re2 ∨ lang = .re3) :
    O.unread = [] := by
  obtain ⟨read, mode', -, -, hlength⟩ := h.exists_unread
  by_cases hnil : O.unread = []
  · exact hnil
  · have hsize : 0 < (Bytes.whole O.unread.toArray).size := by
      rw [← Subarray.length_toList, Bytes.toList_whole]
      exact List.length_pos_iff.2 hnil
    exact absurd hlength (Nat.ne_of_gt (Language.length_pos_of_size_pos hlang hsize mode'))

/-- **In the later generations, the instructions of a walk are the code.** -/
theorem flatMap_bytes_eq (h : Decodes lang mode offset code O)
    (hlang : lang = .re2 ∨ lang = .re3) (depth : Nat) :
    (O.visits depth).flatMap Visit.bytes = code := by
  induction h generalizing depth with
  | @done lang mode offset code hlength =>
    have hdone : Decodes lang mode offset code (.done offset code) := .done hlength
    exact (hdone.unread_eq_nil hlang).symm
  | @step lang _ _ _ _ _ _ _ _ _ _ _ _ _ _ _ _ _ _ hfragment _ _ hinner _ _ _ ihbody ihnext =>
    have hne : lang ≠ .re1Event := by rcases hlang with rfl | rfl <;> decide
    rw [Outline.visits, List.flatMap_cons, List.flatMap_append, List.flatMap_append,
      visits_inner_eq_nil hfragment hne hinner, ihbody hlang, ihnext hlang]
    rfl

/-- Every byte is read, or left at the end of some level. -/
theorem covers_or_misses (h : Decodes lang mode offset code O) (depth : Nat)
    (hle : offset ≤ pos) (hlt : pos < offset + code.length) :
    (∃ v ∈ O.visits depth, v.Covers pos) ∨ O.Misses pos := by
  induction h generalizing depth with
  | done => exact .inr ⟨hle, hlt⟩
  | @step lang _ _ _ offset i _ _ _ _ _ _ _ bodyCode nextCode hoffset _ _ _ _ _ _ _ _ _ _ ihbody
      ihnext =>
    simp only [List.length_append, Array.length_toList, ← Nat.add_assoc] at hlt
    have hsize : i.bytes.size = i.length := rfl
    by_cases hown : pos < offset + i.length
    · refine .inl ⟨⟨lang, i, depth⟩, List.mem_cons_self, ?_⟩
      rw [← hoffset] at hle hown
      exact ⟨hle, hown⟩
    by_cases hbody : pos < offset + i.length + bodyCode.length
    · rcases ihbody (depth + 1) (by omega) hbody with ⟨v, hv, hcovers⟩ | hmisses
      · exact .inl ⟨v, by simp [Outline.visits, hv], hcovers⟩
      · exact .inr (.inr (.inl hmisses))
    · rcases ihnext depth (by omega) (by omega) with ⟨v, hv, hcovers⟩ | hmisses
      · exact .inl ⟨v, by simp [Outline.visits, hv], hcovers⟩
      · exact .inr (.inr (.inr hmisses))

theorem bounds_of_misses (h : Decodes lang mode offset code O) (hmisses : O.Misses pos) :
    offset ≤ pos ∧ pos < offset + code.length := by
  induction h with
  | done => exact hmisses
  | @step _ _ _ _ offset i _ _ _ _ header fragment behind bodyCode nextCode _ _ _ hbytes _ _ _ _ _ _
      ihinner ihbody ihnext =>
    have hlength := Instruction.length_parts hbytes
    have hsize : i.bytes.size = i.length := rfl
    simp only [List.length_append, Array.length_toList]
    rcases hmisses with hmisses | hmisses | hmisses
    · have hpos := ihinner hmisses
      omega
    · have hpos := ihbody hmisses
      omega
    · have hpos := ihnext hmisses
      omega

/-- Outside of events, no byte is both read and left. -/
theorem not_covers_of_misses (h : Decodes lang mode offset code O) (hlang : lang ≠ .re1Event)
    (hmisses : O.Misses pos) (hv : v ∈ O.visits depth) : ¬ v.Covers pos := by
  rintro ⟨hle, hlt⟩
  induction h generalizing depth with
  | done => simp [Outline.visits] at hv
  | @step lang _ _ _ offset i inner body next _ _ fragment _ bodyCode nextCode hoffset _ _ _
      hfragment _ _ hinner hbody hnext _ ihbody ihnext =>
    have hown : offset + i.length ≤ pos → v ≠ ⟨lang, i, depth⟩ := by
      rintro hpos rfl
      simp only [Visit.stop, Visit.offset] at hlt
      omega
    have hinside : ¬ inner.Misses pos := by
      intro hmisses
      have hpos := hinner.bounds_of_misses hmisses
      rw [fragment_eq_nil hfragment hlang, List.length_nil] at hpos
      omega
    simp only [Outline.visits, visits_inner_eq_nil hfragment hlang hinner, List.nil_append,
      List.mem_cons, List.mem_append] at hv
    rcases hmisses with hmisses | hmisses | hmisses
    · exact hinside hmisses
    · have hpos := hbody.bounds_of_misses hmisses
      rcases hv with hv | hv | hv
      · exact hown hpos.1 hv
      · exact ihbody hlang hmisses hv
      · have hle' := hnext.offset_le_of_mem hv
        omega
    · have hpos := hnext.bounds_of_misses hmisses
      rcases hv with hv | hv | hv
      · exact hown (by omega) hv
      · have hstop := hbody.stop_le_of_mem hv
        omega
      · exact ihnext hlang hmisses hv

/-! ## Bodies and fragments -/

/-- Every level is a piece of the code, and is read like a script of its own.  Its language is the
one of the script, unless the script is an event. -/
theorem exists_of_mem_levels (h : Decodes lang mode offset code O) {b : Level}
    (hb : b ∈ O.levels depth) :
    ∃ l, (lang ≠ .re1Event → l = lang) ∧ Piece offset code b.outline.start b.outline.code ∧
      Decodes l .m0 b.outline.start b.outline.code b.outline := by
  induction h generalizing depth with
  | done => cases hb
  | @step lang innerLang _ _ offset i inner body next kind? header fragment behind bodyCode
      nextCode _ _ _ hbytes hfragment _ _ hinner hbody hnext ihinner ihbody ihnext =>
    have hinside : Piece offset (i.bytes.toList ++ (bodyCode ++ nextCode))
        (offset + header.length) fragment :=
      ⟨header, behind ++ (bodyCode ++ nextCode), by simp [hbytes], rfl⟩
    have hbehind : Piece offset (i.bytes.toList ++ (bodyCode ++ nextCode)) (offset + i.length)
        (bodyCode ++ nextCode) := .right _ _ _
    simp only [Outline.levels, List.cons_append, List.mem_cons, List.mem_append] at hb
    rcases hb with rfl | hb | rfl | hb | hb
    · rw [hinner.start_eq, hinner.code_eq]
      by_cases hnil : fragment = []
      · -- nothing is inside, and nothing can be read in any language
        refine ⟨lang, fun _ ↦ rfl, hinside, ?_⟩
        rw [hinner.eq_done hnil, hnil]
        exact .done (Language.length_eq_zero rfl)
      · exact ⟨innerLang, fun hne ↦ absurd (hfragment hnil).1 hne, hinside, hinner⟩
    · by_cases hnil : fragment = []
      · rw [hinner.eq_done hnil] at hb
        cases hb
      · obtain ⟨l, -, hpiece, hdecodes⟩ := ihinner hb
        exact ⟨l, fun hne ↦ absurd (hfragment hnil).1 hne, hinside.trans hpiece, hdecodes⟩
    · rw [hbody.start_eq, hbody.code_eq]
      exact ⟨lang, fun _ ↦ rfl, hbehind.trans (.left _ _ _), hbody⟩
    · obtain ⟨l, hl, hpiece, hdecodes⟩ := ihbody hb
      exact ⟨l, hl, hbehind.trans (.trans (.left _ _ _) hpiece), hdecodes⟩
    · obtain ⟨l, hl, hpiece, hdecodes⟩ := ihnext hb
      exact ⟨l, hl, hbehind.trans (.trans (.right _ _ _) hpiece), hdecodes⟩

/-- Outside of events, every level is read in the language of the script. -/
theorem of_mem_levels (h : Decodes lang mode offset code O) (hlang : lang ≠ .re1Event)
    {b : Level} (hb : b ∈ O.levels depth) :
    Piece offset code b.outline.start b.outline.code ∧
      Decodes lang .m0 b.outline.start b.outline.code b.outline := by
  obtain ⟨l, hl, hpiece, hdecodes⟩ := h.exists_of_mem_levels hb
  exact ⟨hpiece, hl hlang ▸ hdecodes⟩

/-- Outside of events, a level in front of which nobody is asked is empty. -/
theorem code_eq_nil_of_opener? (h : Decodes lang mode offset code O) (hlang : lang ≠ .re1Event)
    {b : Level} (hb : b ∈ O.levels depth) (hopener : b.opener? = none) : b.outline.code = [] := by
  induction h generalizing depth with
  | done => cases hb
  | step _ _ _ _ hfragment _ hnone hinner hbody _ _ ihbody ihnext =>
    have hnil := fragment_eq_nil hfragment hlang
    rw [hinner.eq_done hnil] at hb
    simp only [Outline.levels, List.cons_append, List.nil_append, List.mem_cons,
      List.mem_append] at hb
    rcases hb with rfl | rfl | hb | hb
    · rfl
    · rw [hbody.code_eq]
      exact hnone (Option.map_eq_none_iff.1 hopener)
    · exact ihbody hlang hb
    · exact ihnext hlang hb

/-- A body begins right behind the instruction that opens it. -/
theorem start_of_opener (h : Decodes lang mode offset code O) {b : Level}
    (hb : b ∈ O.levels depth) {i : Instruction} {kind : BodyKind}
    (hopener : b.opener? = some (i, kind)) : b.outline.start = i.offset + i.length := by
  induction h generalizing depth with
  | done => cases hb
  | step hoffset _ _ _ _ _ _ _ hbody _ ihinner ihbody ihnext =>
    simp only [Outline.levels, List.cons_append, List.mem_cons, List.mem_append] at hb
    rcases hb with rfl | hb | rfl | hb | hb
    · cases hopener
    · exact ihinner hb
    · obtain ⟨_, -, heq⟩ := Option.map_eq_some_iff.1 hopener
      cases heq
      rw [hbody.start_eq, hoffset]
    · exact ihbody hb
    · exact ihnext hb

/-- **What is inside an event instruction is inside the last one before it that is an event's.** -/
theorem exists_outer (h : Decodes lang mode offset code O) (hlang : lang = .re1Event)
    {pre post : List Visit} {w : Visit} (hsplit : O.visits depth = pre ++ w :: post)
    (hw : depth < w.depth) :
    ∃ pre₁ v pre₂, pre = pre₁ ++ v :: pre₂ ∧ v.depth = depth ∧ (∀ u ∈ pre₂, depth < u.depth) ∧
      v.offset + 2 ≤ w.offset ∧ w.stop ≤ v.stop := by
  induction h generalizing pre with
  | done => simp [Outline.visits] at hsplit
  | @step lang _ _ _ offset i inner body next _ header fragment behind _ _ hoffset _ _ hbytes
      hfragment hkind hnone hinner hbody hnext _ _ ihnext =>
    have hlength := Instruction.length_parts hbytes
    rw [hbody.eq_done (hnone (hkind hlang))] at hsplit
    rcases List.cons_eq_append_iff.1 hsplit with ⟨-, hfirst⟩ | ⟨pre', rfl, hrest⟩
    · cases hfirst
      exact absurd hw (Nat.lt_irrefl depth)
    -- the instruction is inside this one, or it comes after all that is
    have hcases : (∃ bs, inner.visits (depth + 1) = pre' ++ w :: bs) ∨
        ∃ as, pre' = inner.visits (depth + 1) ++ as ∧ next.visits depth = as ++ w :: post := by
      rcases List.append_eq_append_iff.1 hrest with h | ⟨bs, hinner', hbs⟩
      · exact .inr h
      · cases bs with
        | nil => exact .inr ⟨[], by simpa using hinner'.symm, hbs.symm⟩
        | cons u bs =>
          cases hbs
          exact .inl ⟨bs, hinner'⟩
    rcases hcases with ⟨bs, hbs⟩ | ⟨as, rfl, hnext'⟩
    · have hmem : w ∈ inner.visits (depth + 1) := by simp [hbs]
      have hne : fragment ≠ [] := by
        intro hnil
        rw [hinner.eq_done hnil] at hmem
        cases hmem
      have hheader := (hfragment hne).2.2
      have hle := hinner.offset_le_of_mem hmem
      have hstop := hinner.stop_le_of_mem hmem
      refine ⟨[], ⟨lang, i, depth⟩, pre', rfl, rfl, fun u hu ↦ ?_, ?_, ?_⟩
      · exact Outline.depth_le (O := inner) (by simp [hbs, hu])
      · simp only [Visit.offset, hoffset] at hle ⊢
        omega
      · refine Nat.le_trans hstop ?_
        show _ ≤ i.offset + i.length
        omega
    · obtain ⟨pre₁, v, pre₂, rfl, hv⟩ := ihnext hlang hnext'
      exact ⟨⟨lang, i, depth⟩ :: (inner.visits (depth + 1) ++ pre₁), v, pre₂, by simp, hv⟩

end Decodes

/-! ## Coverage of a walk -/

namespace Observer

variable {σ : Type} {o : Observer σ}

/-- A ceiling as high as the code is long is as high as the number of all instructions. -/
theorem length_visits_callbacks_le {limit : Nat} (lang : Language) (origin : Nat) {code : Stretch}
    (hlimit : code.size ≤ limit) :
    (Trace.visits ((lang.outline (.start origin code)).callbacks 0)).length ≤ limit := by
  rw [Outline.visits_callbacks]
  exact Nat.le_trans (lang.length_visits_outline_le origin code) hlimit

/-- With a ceiling as high as the code is long, a thorough observer hears everything. -/
theorem Thorough.trace_eq_callbacks (ho : o.Thorough) {limit : Nat} (lang : Language)
    (origin : Nat) {code : Stretch} (hlimit : code.size ≤ limit) (x : σ) :
    o.trace limit lang origin code x = (lang.outline (.start origin code)).callbacks 0 :=
  ho.trace_eq_of_length_le (length_visits_callbacks_le lang origin hlimit) x

theorem Thorough.walk_eq_callbacks (ho : o.Thorough) {limit : Nat} (lang : Language)
    (origin : Nat) {code : Stretch} (hlimit : code.size ≤ limit) (x : σ) :
    o.walk limit lang origin code x =
      (o.replay ((lang.outline (.start origin code)).callbacks 0) x,
        ⟨(Trace.visits ((lang.outline (.start origin code)).callbacks 0)).length,
          (Trace.truncations ((lang.outline (.start origin code)).callbacks 0)).toArray⟩) :=
  ho.walk_eq_of_length_le (length_visits_callbacks_le lang origin hlimit) x

/-- **A walk reads all the code, once.**  For an observer that goes through everything, and a
ceiling that is as high as the code is long:

* offsets grow;
* an instruction has bytes, and they are the bytes of the code at its place;
* outside of events, no instruction is in the way of another one;
* in events, that holds of the instructions of the event itself, and any other instruction is
  behind the first two bytes of the last one of them before it;
* in the later generations, the instructions are the code;
* in a room script of the first generation, a place is not read if and only if it is left at the end
  of a level, and there nothing has a length.  A level that is not empty is the whole script, or a
  body that is entered, right behind its opener. -/
theorem coverage_of_thorough_walk (ho : o.Thorough) {limit : Nat} (lang : Language) (origin : Nat)
    (code : Stretch) (hlimit : code.size ≤ limit) (x : σ) :
    let V := (o.trace limit lang origin code x).visits
    V.Pairwise (·.offset < ·.offset) ∧
    (∀ v ∈ V, 0 < v.instruction.length ∧ origin ≤ v.offset ∧ v.stop ≤ origin + code.size ∧
      v.bytes = (code.toList.drop (v.offset - origin)).take v.instruction.length) ∧
    (lang ≠ .re1Event → V.Pairwise (·.stop ≤ ·.offset)) ∧
    (lang = .re1Event →
      V.Pairwise (fun v w ↦ v.depth = 0 → w.depth = 0 → v.stop ≤ w.offset) ∧
      ∀ pre w post, V = pre ++ w :: post → 0 < w.depth →
        ∃ pre₁ v pre₂, pre = pre₁ ++ v :: pre₂ ∧ v.depth = 0 ∧ (∀ u ∈ pre₂, 0 < u.depth) ∧
          v.offset + 2 ≤ w.offset ∧ w.stop ≤ v.stop) ∧
    (lang = .re2 ∨ lang = .re3 → V.flatMap Visit.bytes = code.toList) ∧
    (lang = .re1Scd →
      (∀ pos, origin ≤ pos → pos < origin + code.size →
        ((∀ v ∈ V, ¬ v.Covers pos) ↔ ∃ b ∈ lang.levels origin code, b.LeavesUnread pos)) ∧
      ∀ b ∈ lang.levels origin code,
        Piece origin code.toList b.outline.start b.outline.code ∧
        (b.outline.code = [] ∨ (b.outline.start = origin ∧ b.outline.code = code.toList) ∨
          ∃ i kind d, b.opener? = some (i, kind) ∧ b.outline.start = i.offset + i.length ∧
            b.depth = d + 1 ∧ .enter i kind d true ∈ o.trace limit lang origin code x) ∧
        ∃ read, b.outline.code = read ++ b.outline.unread ∧
          b.outline.stop = b.outline.start + read.length ∧
          Re1Scd.length (Bytes.whole b.outline.unread.toArray) = 0) := by
  have h : Decodes lang .m0 origin code.toList (lang.outline (.start origin code)) :=
    decodes_outline lang (.start origin code)
  have hbefore := h.pairwise_before 0
  have hsize : code.toList.length = code.size := Subarray.length_toList
  have hV : (o.trace limit lang origin code x).visits
      = (lang.outline (.start origin code)).visits 0 := by
    rw [ho.trace_eq_callbacks lang origin hlimit, Outline.visits_callbacks]
  dsimp only
  rw [hV]
  refine ⟨h.pairwise_offset 0, fun v hv ↦ ?_, fun hlang ↦ ?_, fun hlang ↦ ⟨?_, ?_⟩,
    fun hlang ↦ h.flatMap_bytes_eq hlang 0, fun hlang ↦ ⟨fun pos hle hlt ↦ ?_, fun b hb ↦ ?_⟩⟩
  · obtain ⟨hpos, hpiece⟩ := h.piece_of_mem_visits hv
    have hstop := hpiece.stop_le
    exact ⟨hpos, hpiece.le_start, by rw [← hsize]; exact hstop, hpiece.eq_take_drop⟩
  · refine hbefore.imp_of_mem fun hv _ hvw ↦ hvw.stop_le ?_
    rw [h.language_eq hlang hv]
    exact hlang
  · exact hbefore.imp fun hvw hv hw ↦ hvw.stop_le_of_depth (by omega)
  · intro pre w post hsplit hw
    exact h.exists_outer hlang hsplit hw
  · have hne : lang ≠ .re1Event := by rw [hlang]; decide
    rw [Language.levels, ← Outline.misses_iff]
    constructor
    · intro hnot
      rcases h.covers_or_misses 0 hle (by rw [hsize]; exact hlt) with ⟨v, hv, hcovers⟩ | hmisses
      · exact absurd hcovers (hnot v hv)
      · exact hmisses
    · intro hmisses v hv
      exact h.not_covers_of_misses hne hmisses hv
  · have hne : lang ≠ .re1Event := by rw [hlang]; decide
    have hlevel : Piece origin code.toList b.outline.start b.outline.code ∧
        Decodes lang .m0 b.outline.start b.outline.code b.outline := by
      rcases List.mem_cons.1 hb with rfl | hb
      · rw [h.start_eq, h.code_eq]
        exact ⟨.refl _ _, h⟩
      · exact h.of_mem_levels hne hb
    refine ⟨hlevel.1, ?_, ?_⟩
    · rcases List.mem_cons.1 hb with rfl | hb
      · exact .inr (.inl ⟨h.start_eq, h.code_eq⟩)
      · cases hopener : b.opener? with
        | none => exact .inl (h.code_eq_nil_of_opener? hne hb hopener)
        | some opener =>
          obtain ⟨d, hd, henter⟩ := Outline.enter_mem_callbacks hb hopener
          rw [← ho.trace_eq_callbacks lang origin hlimit x] at henter
          exact .inr (.inr ⟨opener.1, opener.2, d, rfl, h.start_of_opener hb hopener, hd, henter⟩)
    · obtain ⟨read, mode, hcode, hstop, hlength⟩ := hlevel.2.exists_unread
      rw [hlang] at hlength
      exact ⟨read, hcode, hstop, hlength⟩

/-- A conditional with a body of two bytes, and what closes it. -/
theorem coverage_of_thorough_walk_if :
    let code := Bytes.whole #[0x06, 0x00, 0x04, 0x00, 0x00, 0x00, 0x08, 0x00]
    counting.Thorough ∧ code.size ≤ 8 ∧
      (counting.trace 8 .re2 0x40 code 0).visits.map (·.depth) = [0, 1, 1, 0] ∧
      (counting.trace 8 .re2 0x40 code 0).visits.flatMap Visit.bytes = code.toList ∧
      (counting.trace 8 .re2 0x40 code 0).visits.Pairwise (·.stop ≤ ·.offset) := by
  intro code
  have hsize : code.size ≤ 8 := by decide
  have hcoverage := coverage_of_thorough_walk thorough_counting .re2 0x40 code hsize 0
  refine ⟨thorough_counting, hsize, by decide +kernel, ?_, ?_⟩
  · exact hcoverage.2.2.2.2.1 (.inl rfl)
  · exact hcoverage.2.2.1 (by decide)

end Observer
end RoomScript
