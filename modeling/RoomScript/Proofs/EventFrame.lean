import RoomScript.Proofs.Nesting

/-!
# Events and the fragments they carry

The length of an event instruction is told by its first two bytes and the mode, and the mode by the
opcodes in front of it.  What follows in the instruction, a fragment or anything else, is not looked
at when the event is read.  So an event has a frame: the first two bytes of its instructions, and
what is behind the last one of them (`Visit.Framed`).  Events with the same frame have the same
instructions, at the same places and in the same modes, whatever the rest of their bytes is
(`Cursor.SameFrame.map_shape_own`).

An instruction may be a single byte long although its length was read from the byte behind it.  That
byte belongs to the next instruction then, or it is behind the last one, so it is in the frame, too.

A fragment is a script of its own.  It is read as a room script and stays in the first mode
(`Language.event_modes`), even where its opcodes would switch modes in an event.  What an observer
gives up in it is given up in there, and the event goes on (`Outline.Runs.filter_depth_eq_direct`).
-/

set_option autoImplicit false

namespace RoomScript

/-! ## What an observer does at the outermost level -/

namespace Outline

variable {O body : Outline} {depth : Nat} {t middle : Trace} {completed : Bool}

theorem Runs.filter_depth_eq_nil (h : O.Runs (depth + 1) t completed) :
    t.visits.filter (·.depth = depth) = [] := by
  refine List.filter_eq_nil_iff.2 fun v hv ↦ ?_
  have hle := Outline.depth_le (h.visits_sublist.subset hv)
  simp only [decide_eq_true_eq]
  omega

theorem Middle.filter_depth_eq_nil {i : Instruction} {kind? : Option BodyKind}
    (h : Middle i depth body kind? middle) : middle.visits.filter (·.depth = depth) = [] := by
  refine List.filter_eq_nil_iff.2 fun v hv ↦ ?_
  obtain ⟨goOn, hmem⟩ := Trace.mem_visits_iff.1 hv
  have hlt := h.depth_lt hmem
  simp only [decide_eq_true_eq]
  omega

/-- **Whoever does not give up a script sees all instructions directly in it**, whatever happens in
the bodies and fragments. -/
theorem Runs.filter_depth_eq_direct (h : O.Runs depth t completed)
    (hgoOn : ∀ v, v.depth = depth → .visit v false ∉ t) :
    t.visits.filter (·.depth = depth) = O.direct depth := by
  induction O generalizing depth t completed with
  | done =>
    cases h
    rfl
  | step lang i inner kind? body next _ _ ihnext =>
    rcases h.eq_or_exists_middle with
      ⟨rfl, rfl⟩ | ⟨t₁, middle, t₃, _, hinner, hmiddle, hnext, rfl⟩
    · exact absurd (List.mem_singleton_self _) (hgoOn ⟨lang, i, depth⟩ rfl)
    have hrest : t₃.visits.filter (·.depth = depth) = next.direct depth := by
      refine ihnext hnext fun v hv hmem ↦ hgoOn v hv ?_
      simp [hmem]
    simp [Trace.visits, direct, hinner.filter_depth_eq_nil, hmiddle.filter_depth_eq_nil, hrest]

end Outline

/-! ## Modes -/

theorem Re1Event.nextMode_ne_m3 {mode : Mode} (h : mode ≠ .m3) (opcode : UInt8) :
    nextMode opcode mode ≠ .m3 := by
  rw [nextMode.eq_def]
  by_cases hop : 0xf6 ≤ opcode
  · rwa [if_pos hop]
  · rw [if_neg hop]
    split <;> first | exact h | decide

namespace Language

variable {lang : Language} {c : Cursor} {depth : Nat} {v : Visit}

theorem fragment?_eq_none (hlang : lang ≠ .re1Event) (i : Instruction) :
    lang.fragment? i = none := by
  match lang with
  | .re1Scd | .re2 | .re3 => rfl
  | .re1Event => exact absurd rfl hlang

theorem nextMode_eq (hlang : lang ≠ .re1Event) (opcode : UInt8) (mode : Mode) :
    lang.nextMode opcode mode = mode := by
  match lang with
  | .re1Scd | .re2 | .re3 => rfl
  | .re1Event => exact absurd rfl hlang

/-- Outside of events, a script stays in the first mode. -/
theorem mode_eq_m0 (hlang : lang ≠ .re1Event) (hmode : c.mode = .m0)
    (hv : v ∈ (lang.outline c).visits depth) : v.instruction.mode = .m0 := by
  fun_induction lang.outline c generalizing depth with
  | case1 => cases hv
  | case2 lang c s hs ihinner ihbody ihafter =>
    obtain ⟨-, -, hi, hn⟩ := Cursor.step?_eq_some hs
    have hinner : s.inner lang = (lang, s.next.body 0) := by
      rw [Step.inner, fragment?_eq_none hlang]
    have hafter : (s.after lang).mode = .m0 := by
      rw [Step.after, Cursor.skip, hn, nextMode_eq hlang, hmode]
    rw [hinner] at ihinner hv
    simp only [Outline.visits, List.mem_cons, List.mem_append] at hv
    rcases hv with rfl | hv | hv | hv
    · rw [hi, hmode]
    · exact ihinner hlang rfl hv
    · exact ihbody hlang rfl hv
    · exact ihafter hlang hafter hv

/-- **An event never comes to the fourth mode**, and all that is inside its instructions is read as
a room script, in the first mode. -/
theorem event_modes (hmode : c.mode ≠ .m3) (hv : v ∈ (re1Event.outline c).visits depth) :
    v.instruction.mode ≠ .m3 ∧
      (depth < v.depth → v.language = .re1Scd ∧ v.instruction.mode = .m0) := by
  generalize hlang : Language.re1Event = lang at hv
  fun_induction lang.outline c with
  | case1 => cases hv
  | case2 lang c s hs ihinner ihbody ihafter =>
    subst hlang
    obtain ⟨-, -, hi, hn⟩ := Cursor.step?_eq_some hs
    obtain ⟨_, _, -, -, hinner, hscd⟩ := Step.inner_eq hs
    have hbody : (s.body .re1Event).rest.size = 0 := by
      rw [← Subarray.length_toList, (s.opened_eq _).2 rfl, List.length_nil]
    have hafter : (s.after .re1Event).mode ≠ .m3 := by
      rw [Step.after, Cursor.skip, hn]
      exact Re1Event.nextMode_ne_m3 hmode _
    simp only [Outline.visits, List.mem_cons, List.mem_append] at hv
    rcases hv with rfl | hv | hv | hv
    · exact ⟨by rwa [hi], fun hlt ↦ absurd hlt (Nat.lt_irrefl _)⟩
    · have hle := Outline.depth_le hv
      by_cases hnil : (s.inner .re1Event).2.rest.toList = []
      · rw [outline_of_size_eq_zero (by rw [← Subarray.length_toList, hnil, List.length_nil])] at hv
        cases hv
      obtain ⟨-, hlang, -⟩ := hscd hnil
      rw [hlang] at hv
      have hne : Language.re1Scd ≠ .re1Event := by decide
      have hm0 := mode_eq_m0 hne hinner hv
      exact ⟨by rw [hm0]; decide, fun _ ↦ ⟨(decodes_outline _ _).language_eq hne hv, hm0⟩⟩
    · rw [outline_of_size_eq_zero hbody] at hv
      cases hv
    · exact ihafter hafter rfl hv

end Language
/-! ## Frames -/

namespace Visit

/-- What the frame tells about an instruction: its place, its length, its opcode and its mode. -/
def shape (v : Visit) : Nat × Nat × UInt8 × Mode :=
  (v.offset, v.instruction.length, v.instruction.opcode, v.instruction.mode)

/-- Whether a place is in the frame of an event with the instructions `own`: it is one of the first
two bytes of an instruction, or it is behind all of them. -/
def Framed (own : List Visit) (place : Nat) : Prop :=
  (∃ v ∈ own, v.offset ≤ place ∧ place < v.offset + 2 ∧ place < v.stop) ∨
    ∀ v ∈ own, v.stop ≤ place

instance (own : List Visit) (place : Nat) : Decidable (Framed own place) :=
  inferInstanceAs (Decidable (_ ∨ _))

end Visit

/-- The length of an event instruction is told by two bytes. -/
theorem Re1Event.length_congr {code code' : Stretch} (h₀ : code[0]? = code'[0]?)
    (h₁ : code[1]? = code'[1]?) (mode : Mode) : length code mode = length code' mode := by
  simp only [length, h₀, h₁]

/-- Events open no bodies, so that what comes after an instruction comes right behind it. -/
theorem Step.after_agrees_next (s : Step) : (s.after .re1Event).Agrees s.next where
  offset := rfl
  toList := by simp [after, opened, Language.body?, Cursor.skip, Subarray.toList_drop]
  mode := rfl

namespace Cursor

variable {c c' : Cursor} {s s' : Step} {depth : Nat}

/-- The instructions of the event at a place, without those inside them. -/
def own (c : Cursor) : List Visit := (Language.re1Event.outline c).direct 0

theorem own_of_none (hs : c.step? .re1Event = none) : c.own = [] := by
  rw [own, Language.outline_eq_of_none hs, Outline.direct]

theorem own_of_some (hs : c.step? .re1Event = some s) :
    c.own = ⟨.re1Event, s.instruction, 0⟩ :: s.next.own := by
  rw [own, Language.outline_eq_of_some hs, Outline.direct,
    Language.outline_congr s.after_agrees_next, own]

/-- The bytes behind an instruction, counted from its head. -/
theorem getElem?_next {lang : Language} (hs : c.step? lang = some s) (pos : Nat) :
    s.next.rest[pos]? = c.rest[s.instruction.length + pos]? := by
  rw [Stretch.getElem?_eq, Stretch.getElem?_eq, ← bytes_append_rest hs, Instruction.length,
    ← Array.length_toList, List.getElem?_append_right (Nat.le_add_right _ _),
    Nat.add_sub_cancel_left]

theorem offset_next {lang : Language} (hs : c.step? lang = some s) :
    s.next.offset = c.offset + s.instruction.length := by
  obtain ⟨-, -, -, hn⟩ := step?_eq_some hs
  rw [hn]

theorem offset_first (hs : c.step? .re1Event = some s) :
    (⟨.re1Event, s.instruction, 0⟩ : Visit).offset = c.offset := by
  obtain ⟨-, -, hi, -⟩ := step?_eq_some hs
  rw [Visit.offset, hi]

theorem stop_first (hs : c.step? .re1Event = some s) :
    (⟨.re1Event, s.instruction, 0⟩ : Visit).stop = c.offset + s.instruction.length := by
  rw [Visit.stop, offset_first hs]

theorem getElem?_zero {lang : Language} (hs : c.step? lang = some s) :
    c.rest[0]? = some s.instruction.opcode := by
  have hpos : 0 < s.instruction.bytes.toList.length := length_pos hs
  obtain ⟨b, rest, hb⟩ := List.exists_cons_of_length_pos hpos
  rw [Stretch.getElem?_eq, ← bytes_append_rest hs, hb, Instruction.opcode_eq hb]
  rfl

/-- The first two bytes of an event are in its frame.  The second one may belong to the second
instruction, or be behind the only one. -/
theorem framed_of_lt_two (hs : c.step? .re1Event = some s) {pos : Nat} (hpos : pos < 2) :
    Visit.Framed c.own (c.offset + pos) := by
  have hlength := length_pos hs
  rw [own_of_some hs]
  by_cases hlt : pos < s.instruction.length
  · refine .inl ⟨_, List.mem_cons_self, ?_⟩
    rw [offset_first hs, stop_first hs]
    omega
  have hone : pos = 1 ∧ s.instruction.length = 1 := by omega
  have hnext := offset_next hs
  match hs' : s.next.step? .re1Event with
  | some s' =>
    have hlength' := length_pos hs'
    rw [own_of_some hs']
    refine .inl ⟨_, List.mem_cons_of_mem _ List.mem_cons_self, ?_⟩
    rw [offset_first hs', stop_first hs']
    omega
  | none =>
    rw [own_of_none hs']
    refine .inr fun v hv ↦ ?_
    rw [List.mem_singleton.1 hv, stop_first hs]
    omega

/-- The frame of what comes after the first instruction is a part of the frame. -/
theorem framed_of_framed_next (hs : c.step? .re1Event = some s) {pos : Nat}
    (h : Visit.Framed s.next.own (s.next.offset + pos)) :
    Visit.Framed c.own (c.offset + (s.instruction.length + pos)) := by
  rw [own_of_some hs, ← Nat.add_assoc, ← offset_next hs]
  rcases h with ⟨v, hv, hplace⟩ | hall
  · exact .inl ⟨v, List.mem_cons_of_mem _ hv, hplace⟩
  · refine .inr fun v hv ↦ ?_
    rcases List.mem_cons.1 hv with rfl | hv
    · rw [stop_first hs, offset_next hs]
      exact Nat.le_add_right _ _
    · exact hall v hv

/-- Two places from which events have the same frame. -/
structure SameFrame (c c' : Cursor) : Prop where
  offset : c.offset = c'.offset
  mode : c.mode = c'.mode
  size : c.rest.size = c'.rest.size
  bytes : ∀ pos : Nat, Visit.Framed c.own (c.offset + pos) → c.rest[pos]? = c'.rest[pos]?

namespace SameFrame

/-- Where the one event ends, so does the other one: all that is left is in the frame. -/
theorem step?_eq_none (h : c.SameFrame c') (hs : c.step? .re1Event = none) :
    c'.step? .re1Event = none := by
  have hbytes (pos : Nat) : c.rest[pos]? = c'.rest[pos]? := by
    refine h.bytes pos (.inr ?_)
    rw [own_of_none hs]
    exact nofun
  rw [step?_eq_none_iff] at hs ⊢
  rw [← h.mode, ← hs]
  exact (Re1Event.length_congr (hbytes 0) (hbytes 1) c.mode).symm

/-- **Instructions with the same frame have the same shape**, and what comes after them has the same
frame again. -/
theorem step?_eq_some (h : c.SameFrame c') (hs : c.step? .re1Event = some s) :
    ∃ s', c'.step? .re1Event = some s' ∧ s.next.SameFrame s'.next ∧
      (⟨.re1Event, s.instruction, 0⟩ : Visit).shape
        = (⟨.re1Event, s'.instruction, 0⟩ : Visit).shape := by
  have h₀ := h.bytes 0 (framed_of_lt_two hs Nat.two_pos)
  have h₁ := h.bytes 1 (framed_of_lt_two hs Nat.one_lt_two)
  have hwanted : Language.re1Event.length c.rest c.mode
      = Language.re1Event.length c'.rest c'.mode := by
    rw [← h.mode]
    exact Re1Event.length_congr h₀ h₁ c.mode
  obtain ⟨hpos, hw, hi, hn⟩ := Cursor.step?_eq_some hs
  obtain ⟨s', hs'⟩ : ∃ s', c'.step? .re1Event = some s' := by
    refine exists_step_of_pos ?_
    rwa [← hwanted, ← hw]
  obtain ⟨-, hw', hi', hn'⟩ := Cursor.step?_eq_some hs'
  have hwanted' : s.wanted = s'.wanted := by rw [hw, hw', hwanted]
  have hlength : s.instruction.length = s'.instruction.length := by
    rw [length_instruction hs, length_instruction hs', hwanted', h.size]
  have hopcode : s.instruction.opcode = s'.instruction.opcode :=
    Option.some.inj ((getElem?_zero hs).symm.trans (h₀.trans (getElem?_zero hs')))
  refine ⟨s', hs', ⟨?_, ?_, ?_, fun pos hframed ↦ ?_⟩, ?_⟩
  · rw [offset_next hs, offset_next hs', h.offset, hlength]
  · rw [hn, hn', hopcode, h.mode]
  · rw [hn, hn', Subarray.size_drop, Subarray.size_drop, h.size, hwanted']
  · rw [getElem?_next hs, getElem?_next hs', ← hlength]
    exact h.bytes _ (framed_of_framed_next hs hframed)
  · simp only [Visit.shape, Visit.offset, hlength, hopcode]
    rw [hi, hi', h.offset, h.mode]

/-- **Events with the same frame have instructions of the same shape.** -/
theorem map_shape_own (h : c.SameFrame c') : c.own.map Visit.shape = c'.own.map Visit.shape := by
  induction hn : c.rest.size using Nat.strongRecOn generalizing c c' with
  | _ n ih =>
    match hs : c.step? .re1Event with
    | none => rw [own_of_none hs, own_of_none (h.step?_eq_none hs)]
    | some s =>
      obtain ⟨s', hs', hnext, hshape⟩ := h.step?_eq_some hs
      have hlt : s.next.rest.size < n := hn ▸ size_rest_lt hs
      rw [own_of_some hs, own_of_some hs', List.map_cons, List.map_cons, hshape,
        ih _ hlt hnext rfl]

end SameFrame
end Cursor

/-! ## Main statement -/

namespace Observer

variable {σ : Type}

/-- What an observer that goes on at the outermost level sees of an event there. -/
theorem filter_visits_trace (o : Observer σ) (hgoOn : ∀ lang i x, (o.visit lang i 0 x).1 = true)
    {limit : Nat} (origin : Nat) {code : Stretch} (hlimit : code.size ≤ limit) (x : σ) :
    (o.trace limit .re1Event origin code x).visits.filter (·.depth = 0)
      = (Cursor.start origin code).own := by
  obtain ⟨t, completed, hruns, hanswers, htrace, -⟩ := o.exists_trace .re1Event origin code x
  rw [htrace, Trace.upTo_eq_self (Nat.le_trans hruns.length_visits_le hlimit)]
  refine hruns.filter_depth_eq_direct fun v hdepth hmem ↦ ?_
  obtain ⟨y, hgives⟩ := hanswers.exists_gives hmem
  rw [Gives, hdepth, hgoOn] at hgives
  cases hgives

/-- **What an event carries cannot disturb it.**  Take an observer that never gives up an event,
whatever it does in the fragments, and two events of the same size that have the same frame: they
agree on the first two bytes of each of the instructions of the first one, and on everything behind
the last of these.  If the ceiling is high enough, then the observer sees instructions of the same
shape in both of them: the same places, lengths, opcodes and modes.

No instruction is read in the fourth mode, and all that is seen in the fragments is read as a room
script, in the first mode. -/
theorem event_ignores_payloads (o : Observer σ)
    (hgoOn : ∀ lang i x, (o.visit lang i 0 x).1 = true) {limit : Nat} (origin : Nat)
    {code code' : Stretch} (hsize : code.size = code'.size) (hlimit : code.size ≤ limit)
    (x x' : σ) :
    let V := (o.trace limit .re1Event origin code x).visits
    let V' := (o.trace limit .re1Event origin code' x').visits
    ((∀ pos < code.size, Visit.Framed (V.filter (·.depth = 0)) (origin + pos) →
        code.toList[pos]? = code'.toList[pos]?) →
      (V.filter (·.depth = 0)).map Visit.shape = (V'.filter (·.depth = 0)).map Visit.shape) ∧
    ∀ v ∈ V ++ V', v.instruction.mode ≠ .m3 ∧
      (0 < v.depth → v.language = .re1Scd ∧ v.instruction.mode = .m0) := by
  intro V V'
  have hV := o.filter_visits_trace hgoOn origin hlimit x
  have hV' := o.filter_visits_trace hgoOn origin (hsize ▸ hlimit) x'
  refine ⟨fun hframe ↦ ?_, ?_⟩
  · rw [hV] at hframe
    rw [hV, hV']
    refine Cursor.SameFrame.map_shape_own ⟨rfl, rfl, hsize, fun pos hframed ↦ ?_⟩
    by_cases hpos : pos < code.size
    · have hbyte := hframe pos hpos hframed
      rwa [← Stretch.getElem?_eq, ← Stretch.getElem?_eq] at hbyte
    · exact (getElem?_neg code pos hpos).trans (getElem?_neg code' pos (hsize ▸ hpos)).symm
  · have hmode (code : Stretch) : (Cursor.start origin code).mode ≠ .m3 := nofun
    have hvisits (code : Stretch) (y : σ) {v : Visit}
        (hv : v ∈ (o.trace limit .re1Event origin code y).visits) :
        v ∈ (Language.re1Event.outline (.start origin code)).visits 0 := by
      obtain ⟨t, _, hruns, -, htrace, -⟩ := o.exists_trace .re1Event origin code y
      rw [htrace] at hv
      exact hruns.visits_sublist.subset
        ((Trace.visits_sublist (Trace.upTo_isPrefixOf _ _).sublist).subset hv)
    intro v hv
    rcases List.mem_append.1 hv with hv | hv
    · exact Language.event_modes (hmode code) (hvisits code x hv)
    · exact Language.event_modes (hmode code') (hvisits code' x' hv)

/-- An instruction with a fragment, a change of modes and a long instruction in the third mode.  The
fragment is changed, and so are the last two bytes of the long instruction.  The third byte of the
event would switch modes and the fourth one would end it, if they were read as an event's. -/
theorem event_ignores_payloads_fragment :
    let code := Bytes.whole
      #[0x06, 0x05, 0x01, 0xfc, 0x00, 0x00, 0x02, 0x05, 0x11, 0x22, 0x33, 0x09]
    let code' := Bytes.whole
      #[0x06, 0x05, 0x01, 0x02, 0x06, 0x00, 0x02, 0x05, 0x11, 0x02, 0x03, 0x09]
    let V := (wary.trace 12 .re1Event 0x20 code 0).visits
    let V' := (wary.trace 12 .re1Event 0x20 code' 0).visits
    (∀ lang i x, (wary.visit lang i 0 x).1 = true) ∧ code.size = code'.size ∧ code.size ≤ 12 ∧
      (∀ pos < code.size, Visit.Framed (V.filter (·.depth = 0)) (0x20 + pos) →
        code.toList[pos]? = code'.toList[pos]?) ∧
      (V.filter (·.depth = 0)).map Visit.shape
        = [(0x20, 6, 0x06, .m0), (0x26, 1, 0x02, .m0), (0x27, 4, 0x05, .m2), (0x2b, 1, 0x09, .m2)] ∧
      (V'.filter (·.depth = 0)).map Visit.shape = (V.filter (·.depth = 0)).map Visit.shape ∧
      V.map (·.depth) ≠ V'.map (·.depth) := by
  intro code code' V V'
  have hgoOn : ∀ lang i x, (wary.visit lang i 0 x).1 = true := fun _ _ _ ↦ rfl
  have hframe : ∀ pos < code.size, Visit.Framed (V.filter (·.depth = 0)) (0x20 + pos) →
      code.toList[pos]? = code'.toList[pos]? := by
    rw [show code.toList = _ from Bytes.toList_whole _,
      show code'.toList = _ from Bytes.toList_whole _]
    decide +kernel
  have hsize : code.size = code'.size := rfl
  have hlimit : code.size ≤ 12 := by decide
  obtain ⟨hshape, -⟩ := event_ignores_payloads wary hgoOn 0x20 hsize hlimit 0 0
  exact ⟨hgoOn, hsize, hlimit, hframe, by decide +kernel, (hshape hframe).symm,
    by decide +kernel⟩

end Observer
end RoomScript
