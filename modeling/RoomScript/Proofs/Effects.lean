import RoomScript.Execution
import RoomScript.Proofs.Playback

/-!
# What a run does to a game

A run carries out one instruction after the other, and what an instruction does depends on the
instruction and on the stage alone.  No effect moves the game to another stage.  So what a run does
can be read off its trace: the effects are those of the instructions that were seen
(`Trace.effects`), in order, and the game is what these effects make of the game before
(`Runner.replay_observer`).  How the run came to see these instructions, what the flags had to do
with it and what it remembers of conditionals is in the trace and plays no part any more.

The lists of a game only grow in a room, each by its own kind of effect
(`RoomState.toList_doors_foldl` and its siblings).
-/

set_option autoImplicit false

namespace RoomScript

/-! ## Effects one after the other -/

namespace Effect

/-- The door that an effect places. -/
def door? : Effect → Option Door
  | door d => some d
  | _ => none

/-- The item that an effect places. -/
def item? : Effect → Option Item
  | item t => some t
  | _ => none

/-- The message that an effect shows. -/
def message? : Effect → Option UInt8
  | message id => some id
  | _ => none

end Effect

namespace RoomState

variable (s : RoomState) (effects : List Effect)

/-- An operation on a flag is logged, and changes nothing but the flags. -/
theorem exists_perform_flag (op : FlagOp) :
    ∃ flags, s.perform (.flag op) = { s with flagOps := s.flagOps.push op, flags } := by
  rw [perform, performFlag]
  split
  · exact ⟨_, rfl⟩
  · exact ⟨_, rfl⟩

/-- An operation on a variable is logged, and changes nothing but the variables. -/
theorem exists_perform_var (op : VarOp) :
    ∃ vars, s.perform (.var op) = { s with varOps := s.varOps.push op, vars } := by
  rw [perform, performVar]
  split
  · exact ⟨_, rfl⟩
  · exact ⟨_, rfl⟩

/-- Effects stay in their room. -/
theorem place_perform (effect : Effect) :
    (s.perform effect).stage = s.stage ∧ (s.perform effect).room = s.room := by
  cases effect with
  | flag op =>
    obtain ⟨flags, h⟩ := s.exists_perform_flag op
    rw [h]
    exact ⟨rfl, rfl⟩
  | var op =>
    obtain ⟨vars, h⟩ := s.exists_perform_var op
    rw [h]
    exact ⟨rfl, rfl⟩
  | _ => exact ⟨rfl, rfl⟩

theorem place_foldl_perform :
    (effects.foldl perform s).stage = s.stage ∧ (effects.foldl perform s).room = s.room := by
  induction effects generalizing s with
  | nil => exact ⟨rfl, rfl⟩
  | cons effect effects ih =>
    obtain ⟨hstage, hroom⟩ := ih (s.perform effect)
    obtain ⟨hstage', hroom'⟩ := s.place_perform effect
    exact ⟨hstage.trans hstage', hroom.trans hroom'⟩

@[simp]
theorem stage_foldl_perform : (effects.foldl perform s).stage = s.stage :=
  (s.place_foldl_perform effects).1

/-- An effect makes the list of its kind longer, and no other. -/
theorem lists_perform (effect : Effect) :
    (s.perform effect).doors.toList = s.doors.toList ++ effect.door?.toList ∧
      (s.perform effect).items.toList = s.items.toList ++ effect.item?.toList ∧
        (s.perform effect).messages.toList = s.messages.toList ++ effect.message?.toList := by
  cases effect with
  | flag op =>
    obtain ⟨flags, h⟩ := s.exists_perform_flag op
    simp [h, Effect.door?, Effect.item?, Effect.message?]
  | var op =>
    obtain ⟨vars, h⟩ := s.exists_perform_var op
    simp [h, Effect.door?, Effect.item?, Effect.message?]
  | _ => simp [perform, Effect.door?, Effect.item?, Effect.message?]

/-- A list that every effect makes longer by what it gains. -/
theorem toList_foldl_perform {α : Type} {field : RoomState → Array α} {gain? : Effect → Option α}
    (h : ∀ s effect, (field (perform s effect)).toList
      = (field s).toList ++ (gain? effect).toList) :
    (field (effects.foldl perform s)).toList = (field s).toList ++ effects.filterMap gain? := by
  induction effects generalizing s with
  | nil => simp
  | cons effect effects ih =>
    rw [List.foldl_cons, ih, h, List.append_assoc]
    cases hgain : gain? effect <;> simp [hgain]

/-- The doors of a game after some effects. -/
theorem toList_doors_foldl :
    (effects.foldl perform s).doors.toList = s.doors.toList ++ effects.filterMap Effect.door? :=
  toList_foldl_perform s effects fun s effect ↦ (s.lists_perform effect).1

/-- The items of a game after some effects. -/
theorem toList_items_foldl :
    (effects.foldl perform s).items.toList = s.items.toList ++ effects.filterMap Effect.item? :=
  toList_foldl_perform s effects fun s effect ↦ (s.lists_perform effect).2.1

/-- The messages of a game after some effects. -/
theorem toList_messages_foldl :
    (effects.foldl perform s).messages.toList
      = s.messages.toList ++ effects.filterMap Effect.message? :=
  toList_foldl_perform s effects fun s effect ↦ (s.lists_perform effect).2.2

end RoomState

/-! ## The effects of a trace -/

/-- What an instruction does in stage `stage`, if it does anything. -/
def Visit.effect? (v : Visit) (stage : UInt8) : Option Effect :=
  (v.language.action v.instruction stage).effect?

namespace Trace

/-- What the instructions of a trace do in stage `stage`, in order. -/
def effects (t : Trace) (stage : UInt8) : List Effect := t.visits.filterMap (·.effect? stage)

theorem effects_visit (v : Visit) (goOn : Bool) (stage : UInt8) :
    effects [.visit v goOn] stage = (v.effect? stage).toList := by
  cases h : v.effect? stage <;> simp [effects, visits, h]

theorem effects_append (t t' : Trace) (stage : UInt8) :
    effects (t ++ t') stage = effects t stage ++ effects t' stage := by
  rw [effects, visits_append, List.filterMap_append]
  rfl

theorem effects_cons (cb : Callback) (t : Trace) (stage : UInt8) :
    effects (cb :: t) stage = effects [cb] stage ++ effects t stage :=
  effects_append [cb] t stage

end Trace

/-! ## Running -/

namespace Runner

theorem room_act (r : Runner) (action : Action) :
    (r.act action).room = action.effect?.toList.foldl RoomState.perform r.room := by
  rw [act]
  split <;> simp [*]

theorem toList_effects_act (r : Runner) (action : Action) :
    (r.act action).effects.toList = r.effects.toList ++ action.effect?.toList := by
  rw [act]
  split <;> simp [*]

theorem outcomes_act (r : Runner) (action : Action) : (r.act action).outcomes = r.outcomes := by
  rw [act]
  split <;> rfl

/-- An instruction does what it does; what is said around a body changes what is remembered of
conditionals, and that is no part of the game. -/
theorem react_observer (evaluate : Bool) (cb : Callback) (r : Runner) :
    let r' := (observer evaluate).react cb r
    let effects := Trace.effects [cb] r.room.stage
    r'.room = effects.foldl RoomState.perform r.room ∧
      r'.effects.toList = r.effects.toList ++ effects := by
  cases cb with
  | visit v goOn =>
    rw [Trace.effects_visit]
    exact ⟨r.room_act _, r.toList_effects_act _⟩
  | enter i kind depth entered =>
    cases kind <;> cases evaluate <;> exact ⟨rfl, (List.append_nil _).symm⟩
  | leave i kind depth completed =>
    cases kind <;> exact ⟨rfl, (List.append_nil _).symm⟩

/-- **A run does what the instructions of its trace do**, in order, whatever made it see them. -/
theorem replay_observer (evaluate : Bool) (t : Trace) (r : Runner) :
    let r' := (observer evaluate).replay t r
    r'.room = (t.effects r.room.stage).foldl RoomState.perform r.room ∧
      r'.effects.toList = r.effects.toList ++ t.effects r.room.stage := by
  induction t generalizing r with
  | nil => simp [Trace.effects, Trace.visits]
  | cons cb t ih =>
    obtain ⟨hroom, heffects⟩ := react_observer evaluate cb r
    obtain ⟨hroom', heffects'⟩ := ih ((observer evaluate).react cb r)
    have hstage : ((observer evaluate).react cb r).room.stage = r.room.stage := by
      rw [hroom, RoomState.stage_foldl_perform]
    rw [hstage, hroom] at hroom'
    rw [hstage, heffects] at heffects'
    rw [Trace.effects_cons, List.foldl_append, ← List.append_assoc]
    exact ⟨hroom', heffects'⟩

end Runner
end RoomScript
