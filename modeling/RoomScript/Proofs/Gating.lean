import RoomScript.Listing
import RoomScript.Proofs.Effects
import RoomScript.Proofs.Selection
import RoomScript.Proofs.Wording

/-!
# Running and listing go through the same script

Listing a function and running it are two walks of the same code.  The observer that lists is
thorough, and so is the one that runs as long as it does not evaluate conditions.  Two thorough
observers see the same instructions and report the same problems, under every ceiling; what a
listing reports beyond that are calls that go nowhere, as nothing else can be wrong with the
description of an instruction (`Wording.callsOnly`).

With evaluation of conditions, a run leaves instructions out.  Which ones it leaves out depends on
flags that the script itself may have changed, but leaving out is all that can happen: a run that
evaluates conditions never sees more instructions, and unless the ceiling cut the other run off,
the instructions that it sees, and so the effects that it has, are some of those of the run that
does not evaluate them, in the same order.

`listing_agrees_with_execution` has all of this.
-/

set_option autoImplicit false

namespace RoomScript

/-! ## Thorough walks and others -/

namespace Observer

variable {σ τ : Type} (o : Observer σ) {full : Observer τ} (hfull : full.Thorough)
  (limit : Nat) (lang : Language) (origin : Nat) (code : Stretch) (x : σ) (y : τ)

/-- A walk leaves its observer where its trace does. -/
theorem walk_fst_eq_replay_trace :
    (o.walk limit lang origin code x).1
      = o.replay (o.trace limit lang origin code x) x := by
  obtain ⟨t, -, -, -, htrace, hwalk⟩ := exists_trace o lang origin code x
  rw [htrace, hwalk]

/-- The part of a thorough observer can be taken by any other one. -/
theorem Thorough.walk_snd_eq {o : Observer σ} (ho : o.Thorough) (hfull : full.Thorough) :
    (o.trace limit lang origin code x).visits = (full.trace limit lang origin code y).visits ∧
      (o.walk limit lang origin code x).2 = (full.walk limit lang origin code y).2 := by
  rw [ho.trace_eq, hfull.trace_eq, ho.walk_eq, hfull.walk_eq]
  exact ⟨rfl, rfl⟩

include hfull

/-- No observer gets a walk to count more instructions than a thorough one. -/
theorem instructions_le_of_thorough :
    (o.walk limit lang origin code x).2.instructions
      ≤ (full.walk limit lang origin code y).2.instructions := by
  obtain ⟨t, completed, hruns, -, -, hwalk⟩ := exists_trace o lang origin code x
  have hle := hruns.visits_sublist.length_le
  rw [hwalk, hfull.walk_eq]
  simp only [Trace.report, Outline.visits_callbacks]
  omega

/-- If a thorough observer sees a script to its end, any other one sees a part of it. -/
theorem visits_sublist_of_thorough
    (h : (full.walk limit lang origin code y).2.hitLimit = false) :
    (o.trace limit lang origin code x).visits.Sublist
      (full.trace limit lang origin code y).visits := by
  rw [hfull.visits_of_not_hitLimit h]
  exact o.visits_trace_sublist limit lang origin code x

end Observer

/-! ## The two observers -/

theorem Transcript.thorough_observer (style : ListingStyle) :
    (Transcript.observer style).Thorough where
  visit _ _ _ _ := rfl
  enter _ _ _ _ := rfl

/-- Without evaluation of conditions, nothing is left out. -/
theorem Runner.thorough_observer : (Runner.observer false).Thorough where
  visit _ _ _ _ := rfl
  enter _ kind _ _ := by cases kind <;> rfl

/-! ## Problems of descriptions -/

/-- A call that goes nowhere. -/
def Problem.IsCall (problem : Problem) : Prop :=
  ∃ index count, problem = .functionOutOfRange index count

/-- Whether the only thing that can be wrong with a description is a call that goes nowhere. -/
def Description.CallsOnly (d : Description) : Prop := ∀ problem ∈ d.problem?, problem.IsCall

theorem Description.CallsOnly.describeCall (context : ListingContext) (intro : String)
    (index : UInt8) : (context.describeCall intro index).CallsOnly := by
  intro problem hproblem
  rw [ListingContext.describeCall, callTarget] at hproblem
  cases htarget : context.entries[index.toNat]? with
  | none =>
    rw [htarget] at hproblem
    cases hproblem
    exact ⟨_, _, rfl⟩
  | some target =>
    rw [htarget] at hproblem
    cases hproblem

/-- **Nothing but a call can go wrong in a description.** -/
theorem Wording.callsOnly {callee? : Option UInt8} {describe : ListingContext → Description}
    (h : Wording callee? describe) (context : ListingContext) :
    (describe context).CallsOnly := by
  cases h with
  | line | flag | message => exact nofun
  | call intro index => exact .describeCall context intro.text index

namespace Transcript

/-- Whether all problems of a transcript are calls that go nowhere. -/
def CallsOnly (t : Transcript) : Prop := ∀ problem ∈ t.problems.toList, problem.IsCall

theorem CallsOnly.react {style : ListingStyle} {x : Transcript} (h : x.CallsOnly) (cb : Callback) :
    ((observer style).react cb x).CallsOnly := by
  cases cb with
  | visit v goOn =>
    intro problem hproblem
    have hmem : problem ∈ x.problems.toList ∨
        problem ∈ (v.language.describe v.instruction style.context).problem? := by
      simpa [Observer.react, observer, add] using hproblem
    rcases hmem with hmem | hmem
    · exact h problem hmem
    · exact (v.language.wording v.instruction).callsOnly style.context problem hmem
  | enter => exact h
  | leave => exact h

/-- Describing instructions turns up no other problems. -/
theorem CallsOnly.replay {style : ListingStyle} {x : Transcript} (h : x.CallsOnly) (t : Trace) :
    ((observer style).replay t x).CallsOnly := by
  induction t generalizing x with
  | nil => exact h
  | cons cb t ih => exact ih (h.react cb)

end Transcript

/-! ## Functions -/

/-- Nothing in front of an account changes nothing. -/
@[simp]
theorem Report.empty_append (r : Report) : ({} : Report) ++ r = r := by
  show Report.mk (0 + r.instructions) (#[] ++ r.problems) = r
  rw [Nat.zero_add, Array.empty_append]

namespace Execution

variable (e : Execution) (settings : Settings) (lang : Language) (origin : Nat) (code : Stretch)

/-- What a run of a script says to the observer that runs it. -/
def scriptTrace : Trace :=
  (Runner.observer settings.evaluateConditions).trace settings.maxInstructions.toNat lang origin
    code { room := e.room, effects := e.effects }

/-- A run of a script does what its trace does. -/
theorem script_eq :
    let effects := (e.scriptTrace settings lang origin code).effects e.room.stage
    let after := e.script settings lang origin code
    after.room = effects.foldl RoomState.perform e.room ∧
      after.effects.toList = e.effects.toList ++ effects ∧
        after.report = e.report ++ ((Runner.observer settings.evaluateConditions).walk
          settings.maxInstructions.toNat lang origin code
            { room := e.room, effects := e.effects }).2 := by
  obtain ⟨hroom, heffects⟩ := Runner.replay_observer settings.evaluateConditions
    (e.scriptTrace settings lang origin code) { room := e.room, effects := e.effects }
  rw [scriptTrace, ← Observer.walk_fst_eq_replay_trace] at hroom heffects
  exact ⟨hroom, heffects, rfl⟩

end Execution

namespace ScriptFunction

variable (f : ScriptFunction) (settings : Settings) (lang : Language) (messages : MessageSource)
  (file : Bytes) (indent : Nat) (room : RoomState)

/-- What a run of a function says to the observer that runs it. -/
def runTrace : Trace :=
  (Runner.observer settings.evaluateConditions).trace settings.maxInstructions.toNat lang
    f.entryOffset.toNat (f.code file) { room }

/-- How a function is listed. -/
def listingStyle : ListingStyle where
  context := { entries := f.entries, messages, languages := settings.languages.toNat }
  showBytes := settings.showBytes
  indent

/-- What listing a function says to the observer that lists it. -/
def listTrace : Trace :=
  (Transcript.observer (f.listingStyle settings messages indent)).trace
    settings.maxInstructions.toNat lang f.entryOffset.toNat (f.code file) {}

/-- A listing reports what its walk reports, and then calls that go nowhere. -/
theorem exists_problems_list :
    ∃ calls, (∀ problem ∈ calls, problem.IsCall) ∧
      let walk := ((f.listingStyle settings messages indent).transcribe
        settings.maxInstructions.toNat lang f.entryOffset.toNat (f.code file)).2
      (f.list settings lang messages file indent).report.instructions = walk.instructions ∧
        (f.list settings lang messages file indent).report.problems.toList
          = walk.problems.toList ++ calls := by
  have hempty : ({} : Transcript).CallsOnly := nofun
  have hcalls : ((f.listingStyle settings messages indent).transcribe
      settings.maxInstructions.toNat lang f.entryOffset.toNat (f.code file)).1.CallsOnly := by
    rw [ListingStyle.transcribe, Observer.walk_fst_eq_replay_trace]
    exact hempty.replay _
  exact ⟨_, hcalls, rfl, Array.toList_append⟩

/-- A run of a function does what its trace does. -/
theorem function_eq :
    let effects := (f.runTrace settings lang file room).effects room.stage
    let after := ({ room } : Execution).function settings lang file f
    after.room = effects.foldl RoomState.perform room ∧ after.effects.toList = effects ∧
      after.report = ((Runner.observer settings.evaluateConditions).walk
        settings.maxInstructions.toNat lang f.entryOffset.toNat (f.code file) { room }).2 := by
  obtain ⟨hroom, heffects, hreport⟩ :=
    ({ room } : Execution).script_eq settings lang f.entryOffset.toNat (f.code file)
  exact ⟨hroom, heffects, hreport.trans (Report.empty_append _)⟩

end ScriptFunction

/-! ## Main statement -/

/-- `after` and `after'` both go on where `before` ends, and what `after` adds is a part of what
`after'` adds. -/
def AddsPart {α : Type} (before after after' : Array α) : Prop :=
  ∃ added added', after.toList = before.toList ++ added ∧
    after'.toList = before.toList ++ added' ∧ added.Sublist added'

/-- **Running and listing go through the same instructions.**  Without evaluation of conditions, a
function is run and listed in the same order and at the same depths, and a listing has no problems
beyond those of the run except calls that go nowhere.  Evaluation of conditions never adds to the
number of instructions; and where the ceiling was not reached without it, it leaves a part of the
instructions, of the effects, and of the doors, the items and the messages that were added. -/
theorem listing_agrees_with_execution (f : ScriptFunction) (settings : Settings) (lang : Language)
    (messages : MessageSource) (file : Bytes) (indent : Nat) (room : RoomState) :
    let ungated : Settings := { settings with evaluateConditions := false }
    let gated : Settings := { settings with evaluateConditions := true }
    let listing := f.list settings lang messages file indent
    let all := ({ room } : Execution).function ungated lang file f
    let part := ({ room } : Execution).function gated lang file f
    ((f.runTrace ungated lang file room).visits
        = (f.listTrace settings lang messages file indent).visits ∧
      all.report.instructions = listing.report.instructions ∧
        ∃ calls, listing.report.problems.toList = all.report.problems.toList ++ calls ∧
          ∀ problem ∈ calls, problem.IsCall) ∧
      part.report.instructions ≤ all.report.instructions ∧
        (all.report.hitLimit = false →
          (f.runTrace gated lang file room).visits.Sublist
              (f.runTrace ungated lang file room).visits ∧
            part.effects.toList.Sublist all.effects.toList ∧
              AddsPart room.doors part.room.doors all.room.doors ∧
                AddsPart room.items part.room.items all.room.items ∧
                  AddsPart room.messages part.room.messages all.room.messages) := by
  intro ungated gated listing all part
  have hrunner := Runner.thorough_observer
  have hlister := Transcript.thorough_observer (f.listingStyle settings messages indent)
  obtain ⟨hroom, heffects, hreport⟩ := f.function_eq ungated lang file room
  obtain ⟨hroom', heffects', hreport'⟩ := f.function_eq gated lang file room
  refine ⟨?_, ?_, fun hlimit ↦ ?_⟩
  · obtain ⟨hvisits, hwalk⟩ := hrunner.walk_snd_eq settings.maxInstructions.toNat lang
      f.entryOffset.toNat (f.code file) { room } {} hlister
    obtain ⟨calls, hcalls, hcount, hproblems⟩ :=
      f.exists_problems_list settings lang messages file indent
    have hsame : all.report = ((f.listingStyle settings messages indent).transcribe
        settings.maxInstructions.toNat lang f.entryOffset.toNat (f.code file)).2 :=
      hreport.trans hwalk
    refine ⟨hvisits, ?_, calls, ?_, hcalls⟩
    · rw [hsame, hcount]
    · rw [hsame, hproblems]
  · show part.report.instructions ≤ all.report.instructions
    rw [hreport, hreport']
    exact Observer.instructions_le_of_thorough _ hrunner _ _ _ _ _ _
  · have hvisits : (f.runTrace gated lang file room).visits.Sublist
        (f.runTrace ungated lang file room).visits := by
      rw [show all.report = _ from hreport] at hlimit
      exact Observer.visits_sublist_of_thorough _ hrunner _ _ _ _ _ _ hlimit
    have hpart : ((f.runTrace gated lang file room).effects room.stage).Sublist
        ((f.runTrace ungated lang file room).effects room.stage) := hvisits.filterMap _
    refine ⟨hvisits, ?_, ?_, ?_, ?_⟩
    · rw [heffects, heffects']
      exact hpart
    · refine ⟨_, _, ?_, ?_, hpart.filterMap Effect.door?⟩
      · rw [hroom', RoomState.toList_doors_foldl]
      · rw [hroom, RoomState.toList_doors_foldl]
    · refine ⟨_, _, ?_, ?_, hpart.filterMap Effect.item?⟩
      · rw [hroom', RoomState.toList_items_foldl]
      · rw [hroom, RoomState.toList_items_foldl]
    · refine ⟨_, _, ?_, ?_, hpart.filterMap Effect.message?⟩
      · rw [hroom', RoomState.toList_messages_foldl]
      · rw [hroom, RoomState.toList_messages_foldl]

/-- A conditional whose test fails, with a message behind the test, and a call that goes nowhere. -/
theorem listing_agrees_with_execution_failedTest :
    let file : Bytes := #[0x06, 0x00, 0x0e, 0x00, 0x21, 0x04, 0x12, 0x01, 0x2b, 0x00, 0x07, 0x00,
      0x00, 0x00, 0x07, 0x00, 0x06, 0x00, 0x29, 0x05, 0x08, 0x00, 0x18, 0x05]
    let f : ScriptFunction := { baseOffset := 0, byteLength := 24 }
    let ungated : Settings := { evaluateConditions := false }
    let gated : Settings := { evaluateConditions := true }
    let listing := f.list {} .re2 [] file 0
    let all := ({ room := {} } : Execution).function ungated .re2 file f
    let part := ({ room := {} } : Execution).function gated .re2 file f
    all.report.hitLimit = false ∧ all.report.instructions = 7 ∧ part.report.instructions = 6 ∧
      all.room.messages = #[7] ∧ part.room.messages = #[] ∧
      listing.report.problems = #[.functionOutOfRange 5 0] ∧
      (f.runTrace ungated .re2 file {}).visits = (f.listTrace {} .re2 [] file 0).visits ∧
      part.report.instructions ≤ all.report.instructions ∧
      (f.runTrace gated .re2 file {}).visits.Sublist (f.runTrace ungated .re2 file {}).visits ∧
      part.effects.toList.Sublist all.effects.toList ∧
      AddsPart #[] part.room.messages all.room.messages := by
  intro file f ungated gated listing all part
  have hlimit : all.report.hitLimit = false := by decide +kernel
  obtain ⟨⟨hvisits, -, -⟩, hcount, hpart⟩ := listing_agrees_with_execution f {} .re2 [] file 0 {}
  obtain ⟨hsublist, heffects, -, -, hmessages⟩ := hpart hlimit
  exact ⟨hlimit, by decide +kernel, by decide +kernel, by decide +kernel, by decide +kernel,
    by decide +kernel, hvisits, hcount, hsublist, heffects, hmessages⟩

end RoomScript
