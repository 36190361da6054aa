import RoomScript.Room.Draft
import RoomScript.ScriptSection
import RoomScript.Proofs.Gating

/-!
# Runs that do not look at the game

A run that evaluates conditions looks at the flags.  One that does not still reads the stage, since
the doors of the first generation count their stages from it, and flags and variables are read while
effects are carried out; but what it does next never depends on what it read there.  So there is no
need of a game to tell what such a run does.  A `Routine` tells it: the effects, by stage, and the
account of the walks.

Scripts, functions, sections and rooms have their routines (`Language.routine`, …,
`Room.loadRoutine`), read off the code alone, and running one of them is carrying out its routine
(`Execution.script_eq_carry`, …, `Execution.load_eq_carry`).  `ungated_runs_ignore_store` is what
follows for two games that agree on nothing but their stage.
-/

set_option autoImplicit false

namespace RoomScript

/-! ## What belongs to the room -/

namespace RoomState

/-- What scripts did to the current room: the game without the flags, the variables and the number
of the room. -/
def scene (s : RoomState) : RoomState := { s with room := 0, flags := [], vars := [] }

/-- What an effect does to the room does not depend on flags and variables. -/
theorem scene_perform (s : RoomState) (effect : Effect) :
    (s.perform effect).scene = (s.scene.perform effect).scene := by
  cases effect with
  | flag op =>
    obtain ⟨flags, h⟩ := s.exists_perform_flag op
    obtain ⟨flags', h'⟩ := s.scene.exists_perform_flag op
    rw [h, h']
    rfl
  | var op =>
    obtain ⟨vars, h⟩ := s.exists_perform_var op
    obtain ⟨vars', h'⟩ := s.scene.exists_perform_var op
    rw [h, h']
    rfl
  | _ => rfl

theorem scene_foldl_perform {s s' : RoomState} (h : s.scene = s'.scene) (effects : List Effect) :
    (effects.foldl perform s).scene = (effects.foldl perform s').scene := by
  induction effects generalizing s s' with
  | nil => exact h
  | cons effect effects ih =>
    refine ih ?_
    rw [scene_perform, h, ← scene_perform]

end RoomState

/-! ## Routines -/

theorem Report.append_empty (r : Report) : r ++ {} = r := by
  show Report.mk (r.instructions + 0) (r.problems ++ #[]) = r
  rw [Nat.add_zero, Array.append_empty]

theorem Report.append_assoc (r₁ r₂ r₃ : Report) : r₁ ++ r₂ ++ r₃ = r₁ ++ (r₂ ++ r₃) := by
  show Report.mk (_ + _ + _) (_ ++ _ ++ _) = Report.mk (_ + (_ + _)) (_ ++ (_ ++ _))
  rw [Nat.add_assoc, Array.append_assoc]

/-- What a run does, told without a game. -/
structure Routine where
  /-- The effects in a stage, the earliest first. -/
  effects : UInt8 → List Effect := fun _ ↦ []
  report : Report := {}

namespace Routine

/-- Two routines, one after the other. -/
def append (a b : Routine) : Routine where
  effects stage := a.effects stage ++ b.effects stage
  report := a.report ++ b.report

instance : Append Routine := ⟨append⟩

/-- Carries a routine out. -/
def carry (a : Routine) (e : Execution) : Execution where
  room := (a.effects e.room.stage).foldl RoomState.perform e.room
  effects := e.effects ++ (a.effects e.room.stage).toArray
  report := e.report ++ a.report

variable (a b : Routine) (e : Execution)

theorem carry_empty : ({} : Routine).carry e = e := by
  show Execution.mk e.room (e.effects ++ #[]) (e.report ++ {}) = e
  rw [Array.append_empty, Report.append_empty]

theorem carry_append : (a ++ b).carry e = b.carry (a.carry e) := by
  have hstage : (a.carry e).room.stage = e.room.stage := RoomState.stage_foldl_perform _ _
  rw [carry, carry.eq_1 b, hstage]
  refine congr (congr (congrArg Execution.mk ?_) ?_) ?_
  · exact List.foldl_append
  · show e.effects ++ (a.effects _ ++ b.effects _).toArray = _
    rw [← List.append_toArray, ← Array.append_assoc]
    rfl
  · exact (Report.append_assoc _ _ _).symm

/-- A run of some things, each of which has a routine, has a routine. -/
theorem carry_foldl {α : Type} (run : Execution → α → Execution) (routine : α → Routine)
    (h : ∀ e x, run e x = (routine x).carry e) (xs : List α) :
    xs.foldl run (a.carry e) = (xs.foldl (fun a x ↦ a ++ routine x) a).carry e := by
  induction xs generalizing a with
  | nil => rfl
  | cons x xs ih => rw [List.foldl_cons, h, ← carry_append, ih, List.foldl_cons]

end Routine

/-! ## The routines of scripts and rooms -/

/-- The routine of a script: everything in it, up to the ceiling. -/
def Language.routine (limit : Nat) (lang : Language) (origin : Nat) (code : Stretch) : Routine :=
  let everything := (lang.outline (.start origin code)).callbacks 0
  { effects := Trace.effects (Trace.upTo limit everything)
    report := Trace.report limit everything }

/-- The routine of a function. -/
def ScriptFunction.routine (f : ScriptFunction) (settings : Settings) (lang : Language)
    (file : Bytes) : Routine :=
  lang.routine settings.maxInstructions.toNat f.entryOffset.toNat (f.code file)

namespace Room

variable (r : Room) (settings : Settings)

/-- The routine of a script section. -/
def routine (kind : ScriptKind) : Except NoScriptSection Routine :=
  (r.generation.scriptSection kind).map fun s ↦
    (r.functions s.index s.table).foldl
      (fun a f ↦ a ++ f.routine settings s.language r.bytes) {}

/-- The routine of loading a room. -/
def loadRoutine : Except NoScriptSection Routine :=
  (r.routine settings .init).bind fun a ↦ (r.routine settings .run).map (a ++ ·)

end Room

section Ungated

variable {settings : Settings} (hungated : settings.evaluateConditions = false)

include hungated

/-- Without evaluation of conditions, what is said during a run does not depend on the game. -/
theorem ScriptFunction.runTrace_of_ungated (f : ScriptFunction) (lang : Language) (file : Bytes)
    (room : RoomState) :
    f.runTrace settings lang file room = Trace.upTo settings.maxInstructions.toNat
      ((lang.outline (.start f.entryOffset.toNat (f.code file))).callbacks 0) := by
  rw [runTrace, hungated, Runner.thorough_observer.trace_eq]

namespace Execution

variable (e : Execution)

/-- **A script runs by its routine.** -/
theorem script_eq_carry (lang : Language) (origin : Nat) (code : Stretch) :
    e.script settings lang origin code
      = (lang.routine settings.maxInstructions.toNat origin code).carry e := by
  obtain ⟨hroom, heffects⟩ := Runner.replay_observer false
    (Trace.upTo settings.maxInstructions.toNat ((lang.outline (.start origin code)).callbacks 0))
    { room := e.room, effects := e.effects }
  rw [script, hungated, Runner.thorough_observer.walk_eq]
  refine congr (congr (congrArg Execution.mk hroom) (Array.ext' ?_)) rfl
  rw [Array.toList_append]
  exact heffects

theorem scriptSection_eq_carry (r : Room) (kind : ScriptKind) :
    e.scriptSection settings r kind = (r.routine settings kind).map (·.carry e) := by
  rw [scriptSection, Room.routine]
  cases r.generation.scriptSection kind with
  | error => rfl
  | ok s =>
    have hrun (e : Execution) (f : ScriptFunction) : e.function settings s.language r.bytes f
        = (f.routine settings s.language r.bytes).carry e := e.script_eq_carry hungated _ _ _
    have hfold := Routine.carry_foldl {} e _ _ hrun (r.functions s.index s.table)
    rw [Routine.carry_empty] at hfold
    exact congrArg Except.ok hfold

theorem load_eq_carry (r : Room) :
    e.load settings r = (r.loadRoutine settings).map (·.carry e) := by
  rw [load, Room.loadRoutine, e.scriptSection_eq_carry hungated]
  cases r.routine settings .init with
  | error => rfl
  | ok a =>
    show (a.carry e).scriptSection settings r .run = _
    rw [scriptSection_eq_carry hungated]
    show _ = ((r.routine settings .run).map (a ++ ·)).map (·.carry e)
    cases r.routine settings .run with
    | error => rfl
    | ok b => exact congrArg Except.ok (a.carry_append b e).symm

end Execution

/-! ## Main statement -/

/-- **Without evaluation of conditions, runs do not depend on flags and variables.**  Whatever two
games are, the same is said during a run of a function.  If they are in the same stage, then running
a script section and loading a room fail in both or have the same effects and the same account in
both, whatever else is different.  So once a room of the same stage was entered in both of them,
loading it leaves both with the same camera, doors, items, messages and logs. -/
theorem ungated_runs_ignore_store (r : Room) (s s' : RoomState) :
    let told (e : Execution) := (e.effects, e.report)
    let shown (e : Execution) := (e.room.camera, e.room.doors, e.room.items, e.room.messages,
      e.room.flagOps, e.room.varOps)
    (∀ (f : ScriptFunction) lang file,
      f.runTrace settings lang file s = f.runTrace settings lang file s') ∧
    (s.stage = s'.stage →
      (∀ kind, (({ room := s } : Execution).scriptSection settings r kind).map told
        = (({ room := s' } : Execution).scriptSection settings r kind).map told) ∧
      (({ room := s } : Execution).load settings r).map told
        = (({ room := s' } : Execution).load settings r).map told) ∧
    ∀ stage room room',
      (({ room := s.enterRoom stage room } : Execution).load settings r).map shown
        = (({ room := s'.enterRoom stage room' } : Execution).load settings r).map shown := by
  intro told shown
  have hmap {α : Type} {a? : Except NoScriptSection Routine} {view : Execution → α}
      {e e' : Execution} (h : ∀ a : Routine, view (a.carry e) = view (a.carry e')) :
      (a?.map (·.carry e)).map view = (a?.map (·.carry e')).map view := by
    cases a? with
    | error => rfl
    | ok a => exact congrArg Except.ok (h a)
  refine ⟨fun f lang file ↦ ?_, fun hstage ↦ ?_, fun stage room room' ↦ ?_⟩
  · rw [f.runTrace_of_ungated hungated, f.runTrace_of_ungated hungated]
  · have htold (a : Routine) : told (a.carry { room := s }) = told (a.carry { room := s' }) := by
      simp only [told, Routine.carry, hstage]
    refine ⟨fun kind ↦ ?_, ?_⟩
    · rw [Execution.scriptSection_eq_carry hungated, Execution.scriptSection_eq_carry hungated]
      exact hmap htold
    · rw [Execution.load_eq_carry hungated, Execution.load_eq_carry hungated]
      exact hmap htold
  · rw [Execution.load_eq_carry hungated, Execution.load_eq_carry hungated]
    refine hmap fun a ↦ ?_
    have hscene : (s.enterRoom stage room).scene = (s'.enterRoom stage room').scene := rfl
    exact congrArg
      (fun s ↦ (s.camera, s.doors, s.items, s.messages, s.flagOps, s.varOps))
      (RoomState.scene_foldl_perform hscene (a.effects stage))

end Ungated

/-- A conditional that tests a flag, flips another one, copies a variable and shows a message; and
two games that differ in the flag and the variable. -/
theorem ungated_runs_ignore_store_flippedFlag :
    let file := Room.Draft.Layout.file .re2 1
      { offsets := (List.replicate 21 0).set 16 92
        body := #[0x02, 0x00, 0x06, 0x00, 0x13, 0x00, 0x21, 0x04, 0x12, 0x01, 0x22, 0x01, 0x02,
          0x07, 0x25, 0x01, 0x02, 0x2b, 0x00, 0x07, 0x00, 0x00, 0x00, 0x08, 0x00] }
    let s : RoomState := { stage := 2, flags := [(4, BitVec.twoPow 256 0x12)], vars := [(2, 9)] }
    let s' : RoomState := { stage := 2, room := 3, camera := 4, messages := #[1] }
    let load (r : Room) (s : RoomState) := ({ room := s } : Execution).load {} r
    ∃ r : Room, r.bytes = file ∧ s.flag 4 0x12 ≠ s'.flag 4 0x12 ∧
      (load r s).map (fun e ↦ (e.effects, e.report))
        = (load r s').map (fun e ↦ (e.effects, e.report)) ∧
      (load r (s.enterRoom 2 3)).map (fun e ↦ (e.room.camera, e.room.doors, e.room.items,
          e.room.messages, e.room.flagOps, e.room.varOps))
        = (load r (s'.enterRoom 2 3)).map (fun e ↦ (e.room.camera, e.room.doors, e.room.items,
          e.room.messages, e.room.flagOps, e.room.varOps)) ∧
      ((load r s).map fun e ↦ (e.room.var 1, e.room.messages)).toOption = some (9, #[7]) ∧
      ((load r s').map fun e ↦ (e.room.var 1, e.room.messages)).toOption = some (0, #[1, 7]) := by
  intro file s s' load
  let r : Room :=
    { generation := .re2, bytes := file, offsets := Generation.offsetTable .re2 file,
      offsets_eq := rfl, header_le := by decide +kernel, offsets_valid := by decide +kernel }
  have hungated : ({} : Settings).evaluateConditions = false := rfl
  obtain ⟨-, hstage, hentered⟩ := ungated_runs_ignore_store hungated r s s'
  exact ⟨r, rfl, by decide +kernel, (hstage rfl).2, hentered 2 3 3, by decide +kernel,
    by decide +kernel⟩

end RoomScript
