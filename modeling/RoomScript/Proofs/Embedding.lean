import RoomScript.Proofs.Bounds
import RoomScript.Proofs.EventFrame
import RoomScript.Proofs.Gating
import RoomScript.Proofs.StructuredRun

/-!
# Room scripts in events

An event runs a room script by carrying it in one of its instructions.  There are two ways to write
that down, and in both of them the length byte says how long the script is, in its own way of
counting.  Wherever an event comes to such an instruction, in the first mode, a walk goes through
the script as if it had been given the script alone: the same instructions at the same places with
the same problems, one level deeper.  Then it goes on behind the script, in the first mode again, as
if the rest were an event of its own.

## What is here

* `Callback.deeper` — a callback, one level deeper.  Problems and effects do not depend on the depth
  (`Trace.truncations_map_deeper`, `Trace.effects_map_deeper`), and a conversation about a script
  that is one level deeper is the same one (`Outline.callbacks_deeper`).
* `Language.visits_outline_moved` — a script has the same instructions wherever it is.
* `Cursor.Reaches` — the places that an event comes to, by going over its instructions.
* `Re1Event.Header` — the two ways to carry a script of a given size.
* `Cursor.callbacks_of_header` — what is said about an event from such an instruction on: the
  instruction, what is said about the script alone, and what is said about the rest alone.
* `Execution.script_of_header` — events do nothing to a game themselves, so running the instruction
  is running the script.
* `Observer.embedded_eq_alone` — both, for walks.

The main statement has the script at its own place in the event, since a report has offsets in it,
but it lets the script be run from anywhere, since effects have none.
-/

set_option autoImplicit false

namespace RoomScript

/-! ## One level deeper -/

/-- The same instruction one level deeper. -/
def Visit.deeper (v : Visit) : Visit := { v with depth := v.depth + 1 }

/-- What is said about the same instruction if it is one level deeper. -/
def Callback.deeper : Callback → Callback
  | .visit v goOn => .visit v.deeper goOn
  | .enter i kind depth entered => .enter i kind (depth + 1) entered
  | .leave i kind depth completed => .leave i kind (depth + 1) completed

namespace Trace

theorem visits_map_deeper (t : Trace) :
    visits (t.map Callback.deeper) = t.visits.map Visit.deeper := by
  induction t with
  | nil => rfl
  | cons cb t ih =>
    match cb with
    | .visit v goOn => exact congrArg (v.deeper :: ·) ih
    | .enter .. | .leave .. => exact ih

/-- What an instruction lacks has nothing to do with how deep it is. -/
theorem truncations_map_deeper (t : Trace) :
    truncations (t.map Callback.deeper) = t.truncations := by
  rw [truncations, visits_map_deeper, List.filterMap_map]
  rfl

/-- What an instruction does has nothing to do with how deep it is. -/
theorem effects_map_deeper (t : Trace) (stage : UInt8) :
    effects (t.map Callback.deeper) stage = t.effects stage := by
  rw [effects, visits_map_deeper, List.filterMap_map]
  rfl

end Trace

namespace Outline

theorem framed_deeper (i : Instruction) (depth : Nat) (kind? : Option BodyKind) (t : Trace) :
    framed i (depth + 1) kind? (t.map Callback.deeper)
      = (framed i depth kind? t).map Callback.deeper := by
  match kind? with
  | none => rfl
  | some kind =>
    simp only [framed, List.map_cons, List.map_append, List.map_nil]
    rfl

/-- The same is said about a script that is one level deeper. -/
theorem callbacks_deeper (O : Outline) (depth : Nat) :
    O.callbacks (depth + 1) = (O.callbacks depth).map Callback.deeper := by
  induction O generalizing depth with
  | done => rfl
  | step lang i inner kind? body next ihinner ihbody ihnext =>
    rw [callbacks, callbacks, List.map_cons, List.map_append, List.map_append, ihinner, ihbody,
      ihnext, framed_deeper]
    rfl

end Outline

/-! ## Somewhere else -/

/-- The same bytes at another place. -/
def Cursor.moved (c : Cursor) (offset : Nat) : Cursor := { c with offset }

/-- What is read if the bytes are at another place. -/
def Step.moved (s : Step) (offset : Nat) : Step where
  instruction := { s.instruction with offset }
  wanted := s.wanted
  next := s.next.moved (offset + s.instruction.length)

/-- Reading does not depend on where the bytes are. -/
theorem Cursor.step?_moved (c : Cursor) (offset : Nat) (lang : Language) :
    (c.moved offset).step? lang = (c.step? lang).map (·.moved offset) := by
  rw [step?, step?, moved]
  dsimp only
  split
  · rfl
  · rfl

namespace Step

variable (s : Step) (offset : Nat) (lang : Language)

theorem opened_moved : (s.moved offset).opened lang = s.opened lang := by
  cases lang <;> rfl

theorem inner_moved :
    ∃ k, (s.moved offset).inner lang = ((s.inner lang).1, (s.inner lang).2.moved k) := by
  have hfragment : lang.fragment? (s.moved offset).instruction = lang.fragment? s.instruction := by
    cases lang <;> rfl
  rw [inner, inner, hfragment]
  cases lang.fragment? s.instruction with
  | none => exact ⟨_, rfl⟩
  | some f => exact ⟨_, rfl⟩

theorem body_moved : ∃ k, (s.moved offset).body lang = (s.body lang).moved k := by
  rw [body, opened_moved]
  exact ⟨_, rfl⟩

theorem after_moved : ∃ k, (s.moved offset).after lang = (s.after lang).moved k := by
  rw [after, opened_moved]
  exact ⟨_, rfl⟩

end Step

/-- An instruction as it is seen at the start of a script section. -/
def Visit.unplaced (v : Visit) : Visit :=
  { v with instruction := { v.instruction with offset := 0 } }

/-- What an instruction does is not a matter of its place. -/
theorem Visit.effect?_unplaced (v : Visit) (stage : UInt8) :
    v.unplaced.effect? stage = v.effect? stage := by
  have hbytes : v.unplaced.instruction.bytes = v.instruction.bytes := rfl
  exact congrArg Action.effect? (Language.action_congr hbytes stage)

namespace Language

/-- **A script has the same instructions wherever it is.** -/
theorem visits_outline_moved (lang : Language) (c : Cursor) (offset depth : Nat) :
    ((lang.outline (c.moved offset)).visits depth).map Visit.unplaced
      = ((lang.outline c).visits depth).map Visit.unplaced := by
  fun_induction lang.outline c generalizing offset depth with
  | case1 lang c hs =>
    have hs' : (c.moved offset).step? lang = none := by rw [c.step?_moved, hs]; rfl
    rw [outline_eq_of_none hs']
    rfl
  | case2 lang c s hs ihinner ihbody ihafter =>
    have hs' : (c.moved offset).step? lang = some (s.moved offset) := by
      rw [c.step?_moved, hs]
      rfl
    obtain ⟨k₁, hinner⟩ := s.inner_moved offset lang
    obtain ⟨k₂, hbody⟩ := s.body_moved offset lang
    obtain ⟨k₃, hafter⟩ := s.after_moved offset lang
    rw [outline_eq_of_some hs', hinner, hbody, hafter]
    simp only [Outline.visits, List.map_cons, List.map_append, ihinner, ihbody, ihafter]
    rfl

variable (lang : Language) (code : Stretch) (origin origin' : Nat)

/-- It does not depend on the place how many instructions a script has, nor what they do. -/
theorem callbacks_outline_start :
    (Trace.visits ((lang.outline (.start origin code)).callbacks 0)).length
        = (Trace.visits ((lang.outline (.start origin' code)).callbacks 0)).length ∧
      ∀ stage, Trace.effects ((lang.outline (.start origin code)).callbacks 0) stage
        = Trace.effects ((lang.outline (.start origin' code)).callbacks 0) stage := by
  have hmap : ((lang.outline (.start origin code)).visits 0).map Visit.unplaced
      = ((lang.outline (.start origin' code)).visits 0).map Visit.unplaced :=
    lang.visits_outline_moved (.start origin' code) origin 0
  have heffect (stage : UInt8) (V : List Visit) :
      V.filterMap (·.effect? stage) = (V.map Visit.unplaced).filterMap (·.effect? stage) := by
    rw [List.filterMap_map]
    exact List.filterMap_congr fun v _ ↦ (v.effect?_unplaced stage).symm
  rw [Outline.visits_callbacks, Outline.visits_callbacks]
  refine ⟨by simpa using congrArg List.length hmap, fun stage ↦ ?_⟩
  rw [Trace.effects, Trace.effects, Outline.visits_callbacks, Outline.visits_callbacks, heffect,
    hmap, ← heffect]

end Language

/-! ## The places of an event -/

namespace Cursor

/-- Reading an event from `c` on, without what is inside its instructions, comes to `c'`. -/
inductive Reaches : Cursor → Cursor → Prop
  | refl {c : Cursor} : Reaches c c
  | step {c c' : Cursor} {s : Step} (hs : c.step? .re1Event = some s)
      (hnext : Reaches s.next c') : Reaches c c'

/-- The instructions of an event are the ones at the places that reading it comes to. -/
theorem mem_own_iff {c : Cursor} {v : Visit} :
    v ∈ c.own ↔ ∃ c' s, c.Reaches c' ∧ c'.step? .re1Event = some s ∧
      v = ⟨.re1Event, s.instruction, 0⟩ := by
  constructor
  · intro hv
    induction hn : c.rest.size using Nat.strongRecOn generalizing c with
    | _ n ih =>
      match hs : c.step? .re1Event with
      | none =>
        rw [own_of_none hs] at hv
        cases hv
      | some s =>
        rw [own_of_some hs] at hv
        rcases List.mem_cons.1 hv with rfl | hv
        · exact ⟨c, s, .refl, hs, rfl⟩
        · obtain ⟨c', s', hreaches, hs', rfl⟩ := ih _ (hn ▸ size_rest_lt hs) hv rfl
          exact ⟨c', s', .step hs hreaches, hs', rfl⟩
  · rintro ⟨c', s, hreaches, hs, rfl⟩
    induction hreaches with
    | refl =>
      rw [own_of_some hs]
      exact List.mem_cons_self
    | step hs' _ ih =>
      rw [own_of_some hs']
      exact List.mem_cons_of_mem _ (ih hs)

/-- Reading an event comes to the place behind an instruction, if all of the instruction is
there. -/
theorem Reaches.of_length {c c' : Cursor} {n : Nat} {opcode : UInt8}
    (hlength : Language.re1Event.length c.rest c.mode = n + 1) (hsize : n + 1 ≤ c.rest.size)
    (hop : c.rest[0]? = some opcode)
    (h : Reaches ⟨c.offset + (n + 1), c.rest.drop (n + 1), Re1Event.nextMode opcode c.mode⟩ c') :
    c.Reaches c' := by
  obtain ⟨s, hs⟩ : ∃ s, c.step? .re1Event = some s := by
    refine exists_step_of_pos ?_
    rw [hlength]
    exact Nat.succ_pos n
  obtain ⟨-, hw, -, hn⟩ := step?_eq_some hs
  have hown : s.instruction.length = n + 1 := by
    rw [length_instruction hs, hw, hlength]
    exact Nat.min_eq_left hsize
  have hopcode : s.instruction.opcode = opcode :=
    Option.some.inj ((getElem?_zero hs).symm.trans hop)
  rw [hw, hlength, hown, hopcode] at hn
  exact .step hs (hn ▸ h)

/-- What is said about an event: the first instruction, what is inside it, and then the rest, which
is an event of its own. -/
theorem callbacks_of_step {c : Cursor} {s : Step} (hs : c.step? .re1Event = some s) :
    (Language.re1Event.outline c).callbacks 0
      = .visit ⟨.re1Event, s.instruction, 0⟩ true ::
        (((s.inner .re1Event).1.outline (s.inner .re1Event).2).callbacks 1
          ++ (Language.re1Event.outline s.next).callbacks 0) := by
  have hbody : (s.body .re1Event).rest.size = 0 := by
    rw [← Subarray.length_toList, (s.opened_eq _).2 rfl, List.length_nil]
  rw [Language.outline_eq_of_some hs, Outline.callbacks, Language.outline_of_size_eq_zero hbody,
    Language.outline_congr (Step.after_agrees_next s)]
  rfl

/-- What is said about an event ends with what is said from a place on that reading comes to. -/
theorem Reaches.exists_callbacks_eq {c c' : Cursor} (h : c.Reaches c') :
    ∃ before, (Language.re1Event.outline c).callbacks 0
      = before ++ (Language.re1Event.outline c').callbacks 0 := by
  induction h with
  | refl => exact ⟨[], rfl⟩
  | step hs _ ih =>
    obtain ⟨before, hbefore⟩ := ih
    rw [callbacks_of_step hs, hbefore, ← List.append_assoc, ← List.cons_append]
    exact ⟨_, rfl⟩

end Cursor

/-! ## Instructions that carry a script -/

/-- The ways to carry a room script of `n` bytes: what is in front of it. -/
inductive Re1Event.Header (n : Nat) : List UInt8 → Prop
  /-- The length byte counts itself. -/
  | exec (hn : n ≤ 254) : Header n [execScd, UInt8.ofNat (n + 1)]
  /-- The length byte counts the whole instruction. -/
  | block (hn : n ≤ 253) : Header n [scdBlock, UInt8.ofNat (n + 2)]

namespace Re1Event.Header

variable {n : Nat} {header rest : List UInt8} (h : Header n header)
include h

theorem length_eq : header.length = 2 := by
  match h with
  | .exec _ | .block _ => rfl

/-- The instruction consists of the two bytes of the header and the script. -/
theorem length_code {code : Stretch} (hcode : code.toList = header ++ rest) :
    Re1Event.length code .m0 = n + 2 := by
  match h with
  | .exec hn =>
    have hstored : (UInt8.ofNat (n + 1)).toNat = n + 1 :=
      UInt8.toNat_ofNat_of_lt' (Nat.lt_of_le_of_lt (Nat.succ_le_succ hn) (by decide))
    rw [Re1Event.length, Stretch.getElem?_eq, Stretch.getElem?_eq, hcode]
    show (UInt8.ofNat (n + 1)).toNat + 1 = n + 2
    rw [hstored]
  | .block hn =>
    have hstored : (UInt8.ofNat (n + 2)).toNat = n + 2 :=
      UInt8.toNat_ofNat_of_lt' (Nat.lt_of_le_of_lt (Nat.add_le_add_right hn 2) (by decide))
    rw [Re1Event.length, Stretch.getElem?_eq, Stretch.getElem?_eq, hcode]
    exact hstored

/-- The fragment is the script. -/
theorem fragment?_eq {i : Instruction} (hbytes : i.bytes.toList = header ++ rest)
    (hmode : i.mode = .m0) : fragment? i = some ⟨2, n, .re1Scd⟩ := by
  match h with
  | .exec hn =>
    have hstored : (i.u8 1).toNat = n + 1 := Instruction.u8_one_of_toList hbytes (by omega)
    have hop : i.opcode = execScd := Instruction.opcode_eq hbytes
    rw [fragment?, if_pos ⟨hmode, hop, by omega⟩, hstored]
    rfl
  | .block hn =>
    have hstored : (i.u8 1).toNat = n + 2 := Instruction.u8_one_of_toList hbytes (by omega)
    have hop : i.opcode = scdBlock := Instruction.opcode_eq hbytes
    have hne : ¬ (i.mode = .m0 ∧ i.opcode = execScd ∧ 1 ≤ (i.u8 1).toNat) := by
      rw [hop]
      rintro ⟨-, hexec, -⟩
      cases hexec
    rw [fragment?, if_neg hne, if_pos ⟨hmode, hop, by omega⟩, hstored]
    rfl

/-- The event stays in the first mode. -/
theorem nextMode_eq {i : Instruction} (hbytes : i.bytes.toList = header ++ rest) :
    nextMode i.opcode .m0 = .m0 := by
  match h with
  | .exec hn | .block hn =>
    rw [Instruction.opcode_eq hbytes]
    rfl

end Re1Event.Header

/-- The fragment of an instruction that carries a script has the bytes of the script. -/
theorem Re1Event.Header.cursor_agrees {header : List UInt8} {script : Stretch} {i : Instruction}
    (h : Header script.size header) (hbytes : i.bytes.toList = header ++ script.toList) :
    ((⟨2, script.size, .re1Scd⟩ : Fragment).cursor i).Agrees (.start (i.offset + 2) script) := by
  have hheader := h.length_eq
  have hlength : i.length = 2 + script.size := by
    rw [Instruction.length, ← Array.length_toList, hbytes, List.length_append, hheader,
      Subarray.length_toList]
  have hstart : (⟨2, script.size, .re1Scd⟩ : Fragment).startIn i = 2 :=
    Nat.min_eq_left (hlength ▸ Nat.le_add_right _ _)
  refine ⟨congrArg (i.offset + ·) hstart, ?_, rfl⟩
  show (Fragment.code _ _).toList = script.toList
  have htake : i.bytes.toList.take (2 + script.size) = header ++ script.toList := by
    rw [List.take_of_length_le (Nat.le_of_eq hlength), hbytes]
  rw [Fragment.code, hstart, Bytes.toList_stretch, htake]
  exact List.drop_left' hheader

/-- Where an event comes to an instruction that carries a script, it reads that instruction; the
script is inside, and what comes behind it is read in the first mode. -/
theorem Cursor.exists_step_of_header {c : Cursor} {header : List UInt8} {script after : Stretch}
    (h : Re1Event.Header script.size header) (hmode : c.mode = .m0)
    (hrest : c.rest.toList = header ++ (script.toList ++ after.toList)) :
    ∃ s, c.step? .re1Event = some s ∧
      s.instruction = ⟨c.offset, (header ++ script.toList).toArray, .m0⟩ ∧ s.isTruncated = false ∧
        (s.inner .re1Event).1 = .re1Scd ∧
          (s.inner .re1Event).2.Agrees (.start (c.offset + 2) script) ∧
            s.next.Agrees (.start (c.offset + 2 + script.size) after) := by
  have hheader := h.length_eq
  have hlength : (header ++ script.toList).length = script.size + 2 := by
    rw [List.length_append, hheader, Subarray.length_toList, Nat.add_comm]
  have hwanted : Language.re1Event.length c.rest c.mode = (header ++ script.toList).length := by
    rw [hmode, hlength]
    exact h.length_code hrest
  rw [← List.append_assoc] at hrest
  obtain ⟨s, hs, hi, hw, hoffset, hnext, hnextMode⟩ :=
    exists_step_of_append (by omega) hwanted hrest
  rw [hmode] at hi hnextMode
  have hbytes : s.instruction.bytes.toList = header ++ script.toList := by rw [hi]
  have hfragment : Language.re1Event.fragment? s.instruction
      = some ⟨2, script.size, .re1Scd⟩ := h.fragment?_eq hbytes (by rw [hi])
  have hinner : s.inner .re1Event
      = (.re1Scd, (⟨2, script.size, .re1Scd⟩ : Fragment).cursor s.instruction) := by
    rw [Step.inner, hfragment]
  refine ⟨s, hs, hi, ?_, by rw [hinner], ?_, ?_, hnext, ?_⟩
  · rw [Step.isTruncated, hw, Instruction.length, ← Array.length_toList, hbytes]
    exact decide_eq_false (Nat.lt_irrefl _)
  · have hagrees := h.cursor_agrees hbytes
    rw [hinner]
    rw [hi] at hagrees ⊢
    exact hagrees
  · show s.next.offset = c.offset + 2 + script.size
    omega
  · exact hnextMode.trans (h.nextMode_eq hbytes)

/-- **What is said about an event from an instruction on that carries a script**: the instruction,
what is said about the script alone, and what is said about the rest as an event of its own. -/
theorem Cursor.callbacks_of_header {c : Cursor} {header : List UInt8} {script after : Stretch}
    (h : Re1Event.Header script.size header) (hmode : c.mode = .m0)
    (hrest : c.rest.toList = header ++ (script.toList ++ after.toList)) :
    let carrier : Visit := ⟨.re1Event, ⟨c.offset, (header ++ script.toList).toArray, .m0⟩, 0⟩
    carrier.truncation? = none ∧ (Language.re1Event.outline c).callbacks 0
      = .visit carrier true ::
        (((Language.re1Scd.outline (.start (c.offset + 2) script)).callbacks 0).map Callback.deeper
          ++ (Language.re1Event.outline
            (.start (c.offset + 2 + script.size) after)).callbacks 0) := by
  obtain ⟨s, hs, hinstruction, hcomplete, hlang, hinner, hnext⟩ :=
    exists_step_of_header h hmode hrest
  refine ⟨?_, ?_⟩
  · rw [← hinstruction, Visit.truncation?]
    refine if_neg fun hlt ↦ ?_
    rw [(truncated_iff hs).2 hlt] at hcomplete
    cases hcomplete
  · rw [callbacks_of_step hs, hinstruction, hlang, Language.outline_congr hinner,
      Outline.callbacks_deeper, Language.outline_congr hnext]

/-- An event that is just such an instruction. -/
theorem Cursor.callbacks_of_header_alone {origin : Nat} {header : List UInt8}
    {script carrier : Stretch} (h : Re1Event.Header script.size header)
    (hcarrier : carrier.toList = header ++ script.toList) :
    (Language.re1Event.outline (.start origin carrier)).callbacks 0
      = .visit ⟨.re1Event, ⟨origin, (header ++ script.toList).toArray, .m0⟩, 0⟩ true ::
        ((Language.re1Scd.outline (.start (origin + 2) script)).callbacks 0).map
          Callback.deeper := by
  have hrest : (start origin carrier).rest.toList
      = header ++ (script.toList ++ (Bytes.whole #[]).toList) := by
    rw [Bytes.toList_whole, List.append_nil]
    exact hcarrier
  have hempty : (start (origin + 2 + script.size) (Bytes.whole #[])).rest.size = 0 := rfl
  obtain ⟨-, hcallbacks⟩ := callbacks_of_header h rfl hrest
  refine hcallbacks.trans (congrArg (_ :: ·) ?_)
  show _ ++ (Language.re1Event.outline
    (start (origin + 2 + script.size) (Bytes.whole #[]))).callbacks 0 = _
  rw [Language.outline_of_size_eq_zero hempty]
  exact List.append_nil _

/-! ## Main statement -/

theorem Report.hitLimit_append (r r' : Report) :
    (r ++ r').hitLimit = (r.hitLimit || r'.hitLimit) := Array.any_append

namespace Execution

variable (e : Execution) {settings : Settings} (hungated : settings.evaluateConditions = false)
  {lang : Language} {origin : Nat} {code : Stretch}
include hungated

/-- Without evaluation of conditions, a run that does not reach its ceiling does everything that the
script says. -/
theorem script_of_length_le
    (h : (Trace.visits ((lang.outline (.start origin code)).callbacks 0)).length
      ≤ settings.maxInstructions.toNat) :
    let effects := Trace.effects ((lang.outline (.start origin code)).callbacks 0) e.room.stage
    (e.script settings lang origin code).room = effects.foldl RoomState.perform e.room ∧
      (e.script settings lang origin code).effects.toList = e.effects.toList ++ effects := by
  obtain ⟨hroom, heffects, -⟩ := e.script_eq settings lang origin code
  have htrace := Runner.thorough_observer.trace_eq_of_length_le h
    { room := e.room, effects := e.effects }
  rw [scriptTrace, hungated, htrace] at hroom heffects
  exact ⟨hroom, heffects⟩

theorem length_le_of_not_hitLimit
    (h : (e.script settings lang origin code).report.hitLimit = false) :
    (Trace.visits ((lang.outline (.start origin code)).callbacks 0)).length
      ≤ settings.maxInstructions.toNat := by
  obtain ⟨-, -, hreport⟩ := e.script_eq settings lang origin code
  rw [hreport, Report.hitLimit_append, Bool.or_eq_false_iff, hungated] at h
  exact Runner.thorough_observer.length_visits_le h.2

/-- **Running an instruction that carries a script is running the script**, wherever the two are. -/
theorem script_of_header {header : List UInt8} {script carrier : Stretch}
    (h : Re1Event.Header script.size header)
    (hcarrier : carrier.toList = header ++ script.toList) (origin' : Nat)
    (hlimit : (e.script settings .re1Event origin carrier).report.hitLimit = false) :
    (e.script settings .re1Event origin carrier).room
        = (e.script settings .re1Scd origin' script).room ∧
      (e.script settings .re1Event origin carrier).effects
        = (e.script settings .re1Scd origin' script).effects := by
  let first : Visit := ⟨.re1Event, ⟨origin, (header ++ script.toList).toArray, .m0⟩, 0⟩
  have hcallbacks : (Language.re1Event.outline (.start origin carrier)).callbacks 0
      = .visit first true :: ((Language.re1Scd.outline
          (.start (origin + 2) script)).callbacks 0).map Callback.deeper :=
    Cursor.callbacks_of_header_alone h hcarrier
  obtain ⟨hlength, hsame⟩ := Language.re1Scd.callbacks_outline_start script origin' (origin + 2)
  have hevent := e.length_le_of_not_hitLimit hungated hlimit
  have halone : (Trace.visits
      ((Language.re1Scd.outline (.start origin' script)).callbacks 0)).length
        ≤ settings.maxInstructions.toNat := by
    rw [hcallbacks, Trace.visits, Trace.visits_map_deeper, List.length_cons,
      List.length_map] at hevent
    rw [hlength]
    exact Nat.le_of_succ_le hevent
  have heffects : Trace.effects ((Language.re1Event.outline (.start origin carrier)).callbacks 0)
        e.room.stage
      = Trace.effects ((Language.re1Scd.outline (.start origin' script)).callbacks 0)
        e.room.stage := by
    rw [hcallbacks, hsame, Trace.effects_cons, Trace.effects_visit, Trace.effects_map_deeper]
    rfl
  obtain ⟨hroom, hdone⟩ := e.script_of_length_le hungated hevent
  obtain ⟨hroom', hdone'⟩ := e.script_of_length_le hungated halone
  rw [heffects] at hroom hdone
  exact ⟨hroom.trans hroom'.symm, Array.ext' (hdone.trans hdone'.symm)⟩

end Execution

namespace Observer

variable {σ τ : Type}

/-- **A script in an event is walked as if it were alone.** -/
theorem embedded_eq_alone {o : Observer σ} (ho : o.Thorough) {o' : Observer τ} (ho' : o'.Thorough)
    {limit origin : Nat} {code script after : Stretch} {c : Cursor} {header : List UInt8}
    (hreaches : (Cursor.start origin code).Reaches c) (hmode : c.mode = .m0)
    (hheader : Re1Event.Header script.size header)
    (hrest : c.rest.toList = header ++ (script.toList ++ after.toList)) (x : σ) (y : τ)
    (hlimit : (o.walk limit .re1Event origin code x).2.hitLimit = false) :
    let carrier : Instruction := ⟨c.offset, (header ++ script.toList).toArray, .m0⟩
    let T := o.trace limit .re1Event origin code x
    let S := o'.trace limit .re1Scd (c.offset + 2) script y
    let A := o'.trace limit .re1Event (c.offset + 2 + script.size) after y
    (∃ before, T = before ++ .visit ⟨.re1Event, carrier, 0⟩ true :: (S.map Callback.deeper ++ A) ∧
      (o.walk limit .re1Event origin code x).2.problems.toList = before.truncations
        ++ ((o'.walk limit .re1Scd (c.offset + 2) script y).2.problems.toList
          ++ (o'.walk limit .re1Event (c.offset + 2 + script.size) after y).2.problems.toList) ∧
      ∀ stage, T.effects stage
        = before.effects stage ++ (S.effects stage ++ A.effects stage)) ∧
    ∀ (e : Execution) (settings : Settings) (origin₁ origin₂ : Nat),
      settings.evaluateConditions = false →
      (e.script settings .re1Event origin₁ carrier.bytes.whole).report.hitLimit = false →
      (e.script settings .re1Event origin₁ carrier.bytes.whole).room
          = (e.script settings .re1Scd origin₂ script).room ∧
        (e.script settings .re1Event origin₁ carrier.bytes.whole).effects
          = (e.script settings .re1Scd origin₂ script).effects := by
  intro carrier T S A
  refine ⟨?_, fun e settings origin₁ origin₂ hungated hnotHit ↦
    e.script_of_header hungated hheader (Bytes.toList_whole _) origin₂ hnotHit⟩
  obtain ⟨before, hbefore⟩ := hreaches.exists_callbacks_eq
  obtain ⟨hcomplete, hcallbacks⟩ := Cursor.callbacks_of_header hheader hmode hrest
  have hlength := ho.length_visits_le hlimit
  have hT := ho.trace_eq_of_length_le hlength x
  rw [hcallbacks] at hbefore
  have hsum := congrArg (fun t ↦ (Trace.visits t).length) hbefore
  simp only [Trace.visits_append, Trace.visits, Trace.visits_map_deeper, List.length_append,
    List.length_cons, List.length_map] at hsum
  have hscript : (Trace.visits ((Language.re1Scd.outline
      (.start (c.offset + 2) script)).callbacks 0)).length ≤ limit := by omega
  have hafter : (Trace.visits ((Language.re1Event.outline
      (.start (c.offset + 2 + script.size) after)).callbacks 0)).length ≤ limit := by omega
  have hS := ho'.trace_eq_of_length_le hscript y
  have hA := ho'.trace_eq_of_length_le hafter y
  rw [hbefore, ← hS, ← hA] at hT
  refine ⟨before, hT, ?_, fun stage ↦ ?_⟩
  · rw [ho.walk_eq_of_length_le hlength, ho'.walk_eq_of_length_le hscript,
      ho'.walk_eq_of_length_le hafter, hbefore]
    simp only [Trace.truncations_append, Trace.truncations_visit, Trace.truncations_map_deeper,
      hcomplete]
    rfl
  · rw [show T = _ from hT, Trace.effects_append, Trace.effects_cons, Trace.effects_visit,
      Trace.effects_append, Trace.effects_map_deeper]
    rfl

/-- An event that changes its mode and changes it back, then carries a conditional that is too short
for its body and an operation on a flag, and then ends in the middle of an instruction. -/
theorem embedded_eq_alone_block :
    let header : List UInt8 := [0x07, 0x0a]
    let bytes : Bytes := #[0x01, 0x04, 0x05, 0x03, 0x05, 0x03, 0x09, 0x01]
    let script := bytes.whole
    let after := Bytes.whole #[0x05, 0x11, 0x22]
    let code := Bytes.whole #[0x01, 0x8b, 0x07, 0x0a, 0x01, 0x04, 0x05, 0x03, 0x05, 0x03, 0x09,
      0x01, 0x05, 0x11, 0x22]
    let c : Cursor := ⟨0x22, (code.drop 1).drop 1, .m0⟩
    let carrier : Bytes := (header ++ bytes.toList).toArray
    let S := counting.trace 15 .re1Scd 0x24 script 0
    let A := counting.trace 15 .re1Event 0x2c after 0
    let running : Execution := { room := {} }
    (Cursor.start 0x20 code).Reaches c ∧ c.mode = .m0 ∧ Re1Event.Header script.size header ∧
      c.rest.toList = header ++ (script.toList ++ after.toList) ∧
      (counting.walk 15 .re1Event 0x20 code 0).2.hitLimit = false ∧
      (∃ before, counting.trace 15 .re1Event 0x20 code 0
        = before ++ .visit ⟨.re1Event, ⟨0x22, carrier, .m0⟩, 0⟩ true
          :: (S.map Callback.deeper ++ A)) ∧
      S.visits.map (fun v ↦ (v.offset, v.depth)) = [(0x24, 0), (0x26, 1), (0x28, 0)] ∧
      A.visits.map (·.offset) = [0x2c] ∧
      (counting.walk 15 .re1Event 0x20 code 0).2.problems
        = #[.truncated 0x26 4 2, .truncated 0x2c 4 3] ∧
      (running.script {} .re1Event 0x20 carrier.whole).effects
        = (running.script {} .re1Scd 0x80 script).effects ∧
      (running.script {} .re1Event 0x20 carrier.whole).effects
        = #[.flag ⟨3, 0, .clear⟩, .flag ⟨3, 9, .set⟩] := by
  intro header bytes script after code c carrier S A running
  have hscript : script.toList = bytes.toList := Bytes.toList_whole bytes
  have hreaches : (Cursor.start 0x20 code).Reaches c := by
    have hfirst : code[0]? = some 0x01 := rfl
    have hsecond : (code.drop 1)[0]? = some 0x8b := rfl
    refine .of_length (n := 0) (by decide +kernel) (by decide) hfirst ?_
    exact .of_length (n := 0) (by decide +kernel) (by decide) hsecond .refl
  have hheader : Re1Event.Header script.size header := .block (by decide)
  have hrest : c.rest.toList = header ++ (script.toList ++ after.toList) := by
    rw [hscript, Subarray.toList_drop, Subarray.toList_drop, Bytes.toList_whole,
      Bytes.toList_whole]
    rfl
  have hlimit : (counting.walk 15 .re1Event 0x20 code 0).2.hitLimit = false := by decide +kernel
  have hrun : (running.script {} .re1Event 0x20 carrier.whole).report.hitLimit = false := by
    decide +kernel
  obtain ⟨⟨before, htrace, -⟩, halone⟩ := embedded_eq_alone thorough_counting thorough_counting
    hreaches rfl hheader hrest 0 0 hlimit
  rw [hscript] at htrace halone
  obtain ⟨-, heffects⟩ := halone running {} 0x20 0x80 rfl hrun
  exact ⟨hreaches, rfl, hheader, hrest, hlimit, ⟨before, htrace⟩, by decide +kernel,
    by decide +kernel, by decide +kernel, heffects, by decide +kernel⟩

end Observer

end RoomScript