import RoomScript.Proofs.Decoding
import RoomScript.Proofs.Trace

/-!
# The structure of a script

What a walk reads does not depend on who is watching.  An `Outline` is what there is to read: the
instructions of a script in order, each with the script inside it, the body behind it and what
comes after that body.  It is a tree, so what holds of every walk is proved by induction on it, and
the ceiling, the observer and the bytes are out of the way.

To keep the tree simple, every instruction has a script inside it and a body behind it.  Where the
language says that there is none, they are empty.

## What is here

* `Language.outline` — the outline of a script.
* `Decodes` — how an outline lies over the bytes it was read from.  Everything that is said about
  offsets and bytes in an outline goes through this relation; `decodes_outline` is the only place
  that looks at cursors.
* `Outline.visits` and `Outline.callbacks` — the instructions of an outline in the order of a walk,
  and what a walk says to an observer that never gives up and never passes over a body.
* `Outline.levels` — the bodies and fragments inside a script, as outlines of their own.
-/

set_option autoImplicit false

namespace RoomScript

/-! ## The parts of a step -/

namespace Step

/-- The script inside an instruction, and its language. -/
def inner (s : Step) (lang : Language) : Language × Cursor :=
  match lang.fragment? s.instruction with
  | none => (lang, s.next.body 0)
  | some f => (f.language, f.cursor s.instruction)

/-- The kind and the length of the body behind an instruction. -/
def opened (s : Step) (lang : Language) : Option BodyKind × Nat :=
  match lang.body? s.instruction s.next.rest with
  | none => (none, 0)
  | some b => (some b.kind, b.length)

/-- The body behind an instruction. -/
def body (s : Step) (lang : Language) : Cursor := s.next.body (s.opened lang).2

/-- What comes after the body. -/
def after (s : Step) (lang : Language) : Cursor := s.next.skip (s.opened lang).2

variable {c : Cursor} {lang : Language} {s : Step}

theorem size_inner_lt (h : c.step? lang = some s) :
    (s.inner lang).2.rest.size < c.rest.size := by
  rw [inner]
  split
  · have hrest := Cursor.size_rest_pos h
    simpa [Cursor.body] using hrest
  · next f hf => exact Cursor.size_fragment_lt h hf

theorem size_body_lt (h : c.step? lang = some s) : (s.body lang).rest.size < c.rest.size :=
  Nat.lt_of_le_of_lt (Cursor.size_body_le _ _) (Cursor.size_rest_lt h)

theorem size_after_lt (h : c.step? lang = some s) : (s.after lang).rest.size < c.rest.size :=
  Nat.lt_of_le_of_lt (Cursor.size_skip_le _ _) (Cursor.size_rest_lt h)

/-- The bytes of an instruction, of its body and of what comes after it are the bytes there
were. -/
theorem toList_parts (h : c.step? lang = some s) :
    c.rest.toList = s.instruction.bytes.toList
      ++ ((s.body lang).rest.toList ++ (s.after lang).rest.toList) := by
  rw [← Cursor.bytes_append_rest h, body, after, Cursor.body, Cursor.skip, Subarray.toList_take,
    Subarray.toList_drop, List.take_append_drop]

theorem offset_body (h : c.step? lang = some s) :
    (s.body lang).offset = c.offset + s.instruction.bytes.toList.length := by
  obtain ⟨-, -, -, hn⟩ := Cursor.step?_eq_some h
  rw [body, Cursor.body, hn]
  rfl

theorem offset_after (h : c.step? lang = some s) :
    (s.after lang).offset = c.offset + s.instruction.bytes.toList.length
      + (s.body lang).rest.toList.length := by
  rw [← offset_body h, after, Cursor.skip, Subarray.length_toList, body, Cursor.body,
    Subarray.size_take]

end Step

/-! ## Outlines -/

/-- The structure of a script. -/
inductive Outline where
  /-- There is no further instruction.  The bytes from `offset` on are not read. -/
  | done (offset : Nat) (unread : List UInt8)
  /-- An instruction, the script inside it, the body behind it and what comes after that. -/
  | step (lang : Language) (i : Instruction) (inner : Outline) (kind? : Option BodyKind)
      (body next : Outline)
  deriving Repr

/-- The outline of the script at `c`. -/
def Language.outline (lang : Language) (c : Cursor) : Outline :=
  match _hs : c.step? lang with
  | none => .done c.offset c.rest.toList
  | some s =>
    .step lang s.instruction ((s.inner lang).1.outline (s.inner lang).2) (s.opened lang).1
      (lang.outline (s.body lang)) (lang.outline (s.after lang))
termination_by c.rest.size
decreasing_by
  · exact Step.size_inner_lt _hs
  · exact Step.size_body_lt _hs
  · exact Step.size_after_lt _hs

namespace Language

variable {lang : Language} {c : Cursor}

theorem outline_eq_of_none (h : c.step? lang = none) :
    lang.outline c = .done c.offset c.rest.toList := by
  rw [outline]
  split
  · rfl
  · next s hs => simp [h] at hs

theorem outline_eq_of_some {s : Step} (h : c.step? lang = some s) :
    lang.outline c =
      .step lang s.instruction ((s.inner lang).1.outline (s.inner lang).2) (s.opened lang).1
        (lang.outline (s.body lang)) (lang.outline (s.after lang)) := by
  rw [outline]
  split
  · next hs => simp [h] at hs
  · next t hs =>
    rw [h] at hs
    cases hs
    rfl

/-- A script whose outline has an instruction begins with it. -/
theorem outline_eq_step {l : Language} {i : Instruction} {inner body next : Outline}
    {kind? : Option BodyKind} (h : lang.outline c = .step l i inner kind? body next) :
    ∃ s, c.step? lang = some s ∧ l = lang ∧ i = s.instruction ∧ kind? = (s.opened lang).1 ∧
      (s.inner lang).1.outline (s.inner lang).2 = inner ∧ lang.outline (s.body lang) = body ∧
        lang.outline (s.after lang) = next := by
  cases hs : c.step? lang with
  | none => simp [outline_eq_of_none hs] at h
  | some s =>
    rw [outline_eq_of_some hs] at h
    cases h
    exact ⟨s, rfl, rfl, rfl, rfl, rfl, rfl, rfl⟩

theorem outline_eq_done {offset : Nat} {unread : List UInt8}
    (h : lang.outline c = .done offset unread) : c.step? lang = none := by
  cases hs : c.step? lang with
  | none => rfl
  | some s => simp [outline_eq_of_some hs] at h

theorem outline_of_size_eq_zero (h : c.rest.size = 0) :
    lang.outline c = .done c.offset [] := by
  have hs : c.step? lang = none := by
    cases hs : c.step? lang with
    | none => rfl
    | some s => exact absurd h (Nat.ne_of_gt (Cursor.size_rest_pos hs))
  have hnil : c.rest.toList = [] :=
    List.eq_nil_of_length_eq_zero ((Subarray.length_toList).trans h)
  rw [outline_eq_of_none hs, hnil]

/-- Places with the same bytes to come have the same outline. -/
theorem outline_congr {c' : Cursor} (h : c.Agrees c') : lang.outline c = lang.outline c' := by
  fun_induction lang.outline c generalizing c' with
  | case1 lang c hs =>
    rw [outline_eq_of_none (h.step?_eq_none hs), h.offset, h.toList]
  | case2 lang c s hs ihinner ihbody ihafter =>
    obtain ⟨next, hnext, hs'⟩ := h.step?_eq_some hs
    have hopened : s.opened lang = ({ s with next } : Step).opened lang := by
      simp only [Step.opened, body?_congr hnext.toList]
    have hinner : (s.inner lang).1.outline (s.inner lang).2
        = (({ s with next } : Step).inner lang).1.outline
          (({ s with next } : Step).inner lang).2 := by
      cases hf : lang.fragment? s.instruction with
      | none =>
        have hbody := hnext.body 0
        simp only [Step.inner, hf] at ihinner ⊢
        exact ihinner hbody
      | some f => simp only [Step.inner, hf]
    have hbody : (s.body lang).Agrees (({ s with next } : Step).body lang) := by
      simpa only [Step.body, hopened] using hnext.body _
    have hafter : (s.after lang).Agrees (({ s with next } : Step).after lang) := by
      simpa only [Step.after, hopened] using hnext.skip _
    rw [outline_eq_of_some hs', hinner, hopened, ihbody hbody, ihafter hafter]

end Language

/-! ## How an outline lies over its bytes -/

/-- `O` is the outline of a script in language `lang` that has the bytes `code` and starts at
`offset` in mode `mode`. -/
inductive Decodes : Language → Mode → Nat → List UInt8 → Outline → Prop
  | done {lang : Language} {mode : Mode} {offset : Nat} {code : List UInt8}
      (hlength : lang.length (Bytes.whole code.toArray) mode = 0) :
      Decodes lang mode offset code (.done offset code)
  | step {lang innerLang : Language} {mode nextMode : Mode} {offset : Nat} {i : Instruction}
      {inner body next : Outline} {kind? : Option BodyKind}
      {header fragment behind bodyCode nextCode : List UInt8}
      (hoffset : i.offset = offset) (hmode : i.mode = mode) (hpos : 0 < i.length)
      (hbytes : i.bytes.toList = header ++ (fragment ++ behind))
      (hfragment : fragment ≠ [] →
        lang = .re1Event ∧ innerLang = .re1Scd ∧ header.length = 2)
      (hkind : lang = .re1Event → kind? = none) (hnone : kind? = none → bodyCode = [])
      (hinner : Decodes innerLang .m0 (offset + header.length) fragment inner)
      (hbody : Decodes lang .m0 (offset + i.length) bodyCode body)
      (hnext : Decodes lang nextMode (offset + i.length + bodyCode.length) nextCode next) :
      Decodes lang mode offset (i.bytes.toList ++ (bodyCode ++ nextCode))
        (.step lang i inner kind? body next)

theorem Instruction.length_parts {i : Instruction} {header fragment behind : List UInt8}
    (h : i.bytes.toList = header ++ (fragment ++ behind)) :
    header.length + (fragment.length + behind.length) = i.length := by
  rw [length, ← Array.length_toList, h, List.length_append, List.length_append]

/-- The fragment of an instruction is a part of its bytes. -/
theorem Fragment.toList_eq (f : Fragment) (i : Instruction) :
    i.bytes.toList = i.bytes.toList.take (f.startIn i)
      ++ ((f.code i).toList ++ i.bytes.toList.drop (f.startIn i + f.length)) := by
  have htake : i.bytes.toList.take (f.startIn i)
      = (i.bytes.toList.take (f.startIn i + f.length)).take (f.startIn i) := by
    rw [List.take_take, Nat.min_eq_left (Nat.le_add_right _ _)]
  rw [code, Bytes.toList_stretch, htake, ← List.append_assoc, List.take_append_drop,
    List.take_append_drop]

/-- What is inside an instruction is a part of its bytes; and if there is anything inside, it is a
room script in an event, behind the two bytes of the header. -/
theorem Step.inner_eq {c : Cursor} {lang : Language} {s : Step} (h : c.step? lang = some s) :
    ∃ header behind,
      s.instruction.bytes.toList = header ++ ((s.inner lang).2.rest.toList ++ behind) ∧
        (s.inner lang).2.offset = c.offset + header.length ∧ (s.inner lang).2.mode = .m0 ∧
          ((s.inner lang).2.rest.toList ≠ [] →
            lang = .re1Event ∧ (s.inner lang).1 = .re1Scd ∧ header.length = 2) := by
  obtain ⟨-, -, hi, hn⟩ := Cursor.step?_eq_some h
  cases hf : lang.fragment? s.instruction with
  | none =>
    refine ⟨s.instruction.bytes.toList, [], ?_, ?_, ?_, ?_⟩
    · simp [inner, hf, Cursor.body, Subarray.toList_take]
    · simp only [inner, hf, Cursor.body, hn]
      rfl
    · simp only [inner, hf, Cursor.body]
    · simp [inner, hf, Cursor.body, Subarray.toList_take]
  | some f =>
    obtain ⟨hstart, hlang⟩ := Language.fragment?_start hf
    have hlength : (s.instruction.bytes.toList.take (f.startIn s.instruction)).length
        = f.startIn s.instruction := by
      simp [Fragment.startIn, Instruction.length]
    rw [show s.inner lang = (f.language, f.cursor s.instruction) by rw [inner, hf]]
    refine ⟨_, _, f.toList_eq s.instruction, ?_, rfl, fun hne ↦ ⟨?_, hlang, ?_⟩⟩
    · rw [hlength, Fragment.cursor, hi]
    · cases lang with
      | re1Event => rfl
      | re1Scd | re2 | re3 => simp [Language.fragment?] at hf
    · have hsize : 0 < (f.code s.instruction).size := by
        rw [← Subarray.length_toList]
        exact List.length_pos_iff.2 hne
      rw [Fragment.code, Bytes.size_stretch] at hsize
      rw [hlength, Fragment.startIn, hstart]
      simp only [Fragment.startIn, hstart, Instruction.length] at hsize ⊢
      omega

/-- Events open no bodies, and where no body is opened, there is none. -/
theorem Step.opened_eq (s : Step) (lang : Language) :
    (lang = .re1Event → (s.opened lang).1 = none) ∧
      ((s.opened lang).1 = none → (s.body lang).rest.toList = []) := by
  refine ⟨?_, fun hnone ↦ ?_⟩
  · rintro rfl
    rfl
  · have hzero : (s.opened lang).2 = 0 := by
      rw [opened] at hnone ⊢
      split at hnone <;> simp_all
    simp [body, Cursor.body, hzero, Subarray.toList_take]

/-- **An outline lies over the bytes it was read from.** -/
theorem decodes_outline (lang : Language) (c : Cursor) :
    Decodes lang c.mode c.offset c.rest.toList (lang.outline c) := by
  fun_induction lang.outline c with
  | case1 lang c hs =>
    refine .done ?_
    rw [← Cursor.step?_eq_none_iff.1 hs]
    exact Language.length_congr (by simp) _
  | case2 lang c s hs ihinner ihbody ihafter =>
    obtain ⟨-, -, hi, -⟩ := Cursor.step?_eq_some hs
    obtain ⟨header, behind, hbytes, hoffset, hmode, hfragment⟩ := Step.inner_eq hs
    rw [hmode, hoffset] at ihinner
    rw [Step.offset_body hs] at ihbody
    rw [Step.offset_after hs] at ihafter
    rw [Step.toList_parts hs]
    exact .step (by rw [hi]) (by rw [hi]) (Cursor.length_pos hs) hbytes hfragment
      (s.opened_eq lang).1 (s.opened_eq lang).2 ihinner ihbody ihafter

/-! ## The instructions of an outline -/

namespace Outline

/-- What is said around a body; around what is no body, nothing is said. -/
def framed (i : Instruction) (depth : Nat) : Option BodyKind → Trace → Trace
  | none, t => t
  | some kind, t => .enter i kind depth true :: (t ++ [.leave i kind depth true])

/-- What a walk says to an observer that goes on and enters every time. -/
def callbacks : Outline → Nat → Trace
  | done .., _ => []
  | step lang i inner kind? body next, depth =>
    .visit ⟨lang, i, depth⟩ true :: (inner.callbacks (depth + 1)
      ++ (framed i depth kind? (body.callbacks (depth + 1)) ++ next.callbacks depth))

/-- All instructions, in the order of a walk. -/
def visits : Outline → Nat → List Visit
  | done .., _ => []
  | step lang i inner _ body next, depth =>
    ⟨lang, i, depth⟩ :: (inner.visits (depth + 1)
      ++ (body.visits (depth + 1) ++ next.visits depth))

/-- The instructions that are in no fragment and no body. -/
def direct : Outline → Nat → List Visit
  | done .., _ => []
  | step lang i _ _ _ next, depth => ⟨lang, i, depth⟩ :: next.direct depth

theorem visits_framed (i : Instruction) (depth : Nat) (kind? : Option BodyKind) (t : Trace) :
    Trace.visits (framed i depth kind? t) = Trace.visits t := by
  cases kind? with
  | none => rfl
  | some kind => simp [framed, Trace.visits]

theorem visits_callbacks (O : Outline) (depth : Nat) :
    Trace.visits (O.callbacks depth) = O.visits depth := by
  induction O generalizing depth with
  | done => rfl
  | step lang i inner kind? body next ihinner ihbody ihnext =>
    simp [callbacks, visits, Trace.visits, visits_framed, ihinner, ihbody, ihnext]

theorem mem_visits_of_mem_direct {O : Outline} {depth : Nat} {v : Visit}
    (h : v ∈ O.direct depth) : v ∈ O.visits depth := by
  induction O with
  | done => exact h
  | step lang i inner kind? body next _ _ ihnext =>
    rcases List.mem_cons.1 h with rfl | h
    · exact List.mem_cons_self
    · exact List.mem_cons_of_mem _
        (List.mem_append_right _ (List.mem_append_right _ (ihnext h)))

theorem depth_of_mem_direct {O : Outline} {depth : Nat} {v : Visit} (h : v ∈ O.direct depth) :
    v.depth = depth := by
  induction O with
  | done => cases h
  | step _ _ _ _ _ _ _ _ ihnext =>
    rcases List.mem_cons.1 h with rfl | h
    · rfl
    · exact ihnext h

theorem depth_le {O : Outline} {depth : Nat} {v : Visit} (h : v ∈ O.visits depth) :
    depth ≤ v.depth := by
  induction O generalizing depth with
  | done => simp [visits] at h
  | step lang i inner kind? body next ihinner ihbody ihnext =>
    simp only [visits, List.mem_cons, List.mem_append] at h
    rcases h with rfl | h | h | h
    · exact Nat.le_refl _
    · exact Nat.le_of_succ_le (ihinner h)
    · exact Nat.le_of_succ_le (ihbody h)
    · exact ihnext h

/-! ## Levels -/

/-- The place where an outline starts. -/
def start : Outline → Nat
  | done offset _ => offset
  | step _ i .. => i.offset

/-- The bytes that an outline lies over. -/
def code : Outline → List UInt8
  | done _ unread => unread
  | step _ i _ _ body next => i.bytes.toList ++ (body.code ++ next.code)

/-- The bytes at the end that are not read. -/
def unread : Outline → List UInt8
  | done _ unread => unread
  | step _ _ _ _ _ next => next.unread

end Outline

/-- A script in a script: the whole of it, a body, or a fragment. -/
structure Level where
  /-- The instruction in front of a body and the kind of the body; `none` for a fragment and for
  the whole script, in front of which nobody is asked. -/
  opener? : Option (Instruction × BodyKind)
  /-- The depth of the instructions that are directly in it. -/
  depth : Nat
  outline : Outline

namespace Level

/-- All instructions of a level, those of the levels in it included. -/
def visits (b : Level) : List Visit := b.outline.visits b.depth

/-- The instructions directly in a level. -/
def direct (b : Level) : List Visit := b.outline.direct b.depth

end Level

/-- The levels inside an outline whose own instructions are `depth` levels deep. -/
def Outline.levels : Outline → Nat → List Level
  | done .., _ => []
  | step _ i inner kind? body next, depth =>
    (⟨none, depth + 1, inner⟩ :: inner.levels (depth + 1))
      ++ ((⟨kind?.map (i, ·), depth + 1, body⟩ :: body.levels (depth + 1)) ++ next.levels depth)

/-- A walk asks in front of every body. -/
theorem Outline.enter_mem_callbacks {O : Outline} {depth : Nat} {b : Level}
    (hb : b ∈ O.levels depth) {i : Instruction} {kind : BodyKind}
    (hopener : b.opener? = some (i, kind)) :
    ∃ d, b.depth = d + 1 ∧ .enter i kind d true ∈ O.callbacks depth := by
  induction O generalizing depth with
  | done => cases hb
  | step lang j inner kind? body next ihinner ihbody ihnext =>
    have hframed (t : Trace) (cb : Callback) (hcb : cb ∈ t) : cb ∈ framed j depth kind? t := by
      cases kind? <;> simp [framed, hcb]
    simp only [levels, List.cons_append, List.mem_cons, List.mem_append] at hb
    simp only [callbacks, List.mem_cons, List.mem_append]
    rcases hb with rfl | hb | rfl | hb | hb
    · cases hopener
    · obtain ⟨d, hd, hmem⟩ := ihinner hb
      exact ⟨d, hd, .inr (.inl hmem)⟩
    · obtain ⟨_, rfl, heq⟩ := Option.map_eq_some_iff.1 hopener
      cases heq
      exact ⟨depth, rfl, .inr (.inr (.inl List.mem_cons_self))⟩
    · obtain ⟨d, hd, hmem⟩ := ihbody hb
      exact ⟨d, hd, .inr (.inr (.inl (hframed _ _ hmem)))⟩
    · obtain ⟨d, hd, hmem⟩ := ihnext hb
      exact ⟨d, hd, .inr (.inr (.inr hmem))⟩

/-- A level and those inside it. -/
def Level.all (b : Level) : List Level := b :: b.outline.levels b.depth

/-- The levels of a script: the whole script and every body and fragment in it. -/
def Language.levels (lang : Language) (origin : Nat) (code : Stretch) : List Level :=
  Level.all ⟨none, 0, lang.outline (.start origin code)⟩

namespace Decodes

variable {lang : Language} {mode : Mode} {offset : Nat} {code : List UInt8} {O : Outline}

theorem start_eq (h : Decodes lang mode offset code O) : O.start = offset := by
  cases h with
  | done => rfl
  | step hoffset => exact hoffset

theorem code_eq (h : Decodes lang mode offset code O) : O.code = code := by
  induction h with
  | done => rfl
  | step hoffset hmode hpos hbytes hfragment hkind hnone hinner hbody hnext _ ihbody ihnext =>
    rw [Outline.code, ihbody, ihnext]

/-- A walk comes to no more instructions than there are bytes, even though the bytes of a fragment
are read twice. -/
theorem length_visits_le (h : Decodes lang mode offset code O) (depth : Nat) :
    (O.visits depth).length ≤ code.length := by
  induction h generalizing depth with
  | done => exact Nat.zero_le _
  | @step _ _ _ _ _ i _ _ _ _ header fragment behind _ _ hoffset hmode hpos hbytes hfragment hkind
      hnone hinner hbody hnext ihinner ihbody ihnext =>
    have hinner := ihinner (depth + 1)
    have hbody := ihbody (depth + 1)
    have hnext := ihnext depth
    have hlength := Instruction.length_parts hbytes
    have hheader : fragment = [] ∨ header.length = 2 := by
      by_cases hne : fragment = []
      · exact .inl hne
      · exact .inr (hfragment hne).2.2
    simp only [Outline.visits, List.length_cons, List.length_append, Array.length_toList]
    rw [Instruction.length] at hpos hlength
    rcases hheader with rfl | hheader
    · simp only [List.length_nil] at hinner
      omega
    · omega

end Decodes

theorem Language.length_visits_outline_le (lang : Language) (origin : Nat) (code : Stretch) :
    ((lang.outline (.start origin code)).visits 0).length ≤ code.size := by
  have h := (decodes_outline lang (.start origin code)).length_visits_le 0
  rwa [Subarray.length_toList] at h

end RoomScript
