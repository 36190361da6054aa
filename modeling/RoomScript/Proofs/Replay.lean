import Mathlib.Data.List.Induction
import RoomScript.Proofs.Persistence

/-!
# A game is the replay of its logs

A game keeps logs of what was done to its flags and variables since the room was entered, and lists
of the doors, items and messages that came with the room.  The logs are complete: whoever has the
flags and variables from when the room was entered, and the logs, has the flags and variables of
now.  Nothing else is needed, not the code that was run, nor the settings, nor the flags that
decided about bodies.

## What is here

* `FlagOp.applyTo`, `VarOp.applyTo` — what a logged operation does to flags and variables that are
  given as functions.  This is what whoever has the logs would do; there is no game in it.
* `RoomState.Replays` — a game, compared with the game from when the room was entered and with what
  was done since.  `RoomState.Fresh.replays` says that the logs of a game whose logs were empty
  replay whatever is done to it.
* `Call` — all that happens to a game: a room is entered, or an effect is carried out.
* `Execution.GoesOn`, `Task.run_eq` — a run is such calls one after the other, whatever it is a run
  of: a task runs some scripts (`Job`), and a script carries out what its trace says.
* `Session.Passes` — the states that a game is in during a session, in the middle of a run too, each
  with the calls that were heard up to then.  These are a first part of the calls of the session
  (`Session.Passes.isPrefixOf_calls`), and make the state out of the game before
  (`Session.Passes.eq_foldl_receive`).
* `Session.logs_replay` — what is proved about calls, for sessions.

The calls that were heard are an index of `Passes` because a state alone does not say how it came
about: if carrying an effect out changes nothing, it is the same state before and after, and the
logs have to be compared with the right calls.
-/

set_option autoImplicit false

namespace RoomScript

/-! ## Operations without a game -/

/-- The value of an operand, given the variables. -/
def Operand.value (var : UInt8 → Int16) : Operand → Int16
  | immediate value => value
  | .var id => var id

/-- The flags after an operation, which clears a flag, sets it, turns it over or looks at it. -/
def FlagOp.applyTo (flag : UInt8 → UInt8 → Bool) (op : FlagOp) : UInt8 → UInt8 → Bool :=
  fun array bit ↦
    if op.array = array ∧ op.bit = bit then
      match op.action with
      | .clear => false
      | .set => true
      | .toggle => !flag array bit
      | .test => flag array bit
    else flag array bit

/-- The variables after an operation.  An operation that writes nothing leaves them as they are. -/
def VarOp.applyTo (var : UInt8 → Int16) (op : VarOp) : UInt8 → Int16 :=
  fun id ↦
    if op.id = id then (op.action.update (var id) (op.operand.value var)).getD (var id) else var id

namespace Effect

/-- The operation on a flag that an effect is. -/
def flagOp? : Effect → Option FlagOp
  | flag op => some op
  | _ => none

/-- The operation on a variable that an effect is. -/
def varOp? : Effect → Option VarOp
  | var op => some op
  | _ => none

/-- The camera that an effect switches to. -/
def camera? : Effect → Option UInt8
  | camera id => some id
  | _ => none

end Effect

namespace RoomState

variable (s : RoomState) (effect : Effect) (effects : List Effect)

/-! ## What an effect does -/

theorem flag_perform :
    (s.perform effect).flag = effect.flagOp?.toList.foldl FlagOp.applyTo s.flag := by
  match effect with
  | .flag ⟨array', bit', action⟩ =>
    funext array bit
    refine (s.flag_performFlag ⟨array', bit', action⟩ array bit).trans ?_
    cases action <;> rfl
  | .var op =>
    obtain ⟨vars, h⟩ := s.exists_perform_var op
    rw [h]
    rfl
  | .door _ | .item _ | .camera _ | .message _ => rfl

theorem var_perform :
    (s.perform effect).var = effect.varOp?.toList.foldl VarOp.applyTo s.var := by
  match effect with
  | .var op =>
    have hoperand : s.operand op.operand = op.operand.value s.var := by
      cases op.operand <;> rfl
    funext id
    refine (s.var_performVar op id).trans ?_
    rw [hoperand]
    show _ = VarOp.applyTo s.var op id
    rw [VarOp.applyTo]
    by_cases hid : op.id = id
    · rw [if_pos hid, if_pos hid, hid]
    · rw [if_neg hid, if_neg hid]
  | .flag op =>
    obtain ⟨flags, h⟩ := s.exists_perform_flag op
    rw [h]
    rfl
  | .door _ | .item _ | .camera _ | .message _ => rfl

/-- The logs. -/
theorem logs_perform :
    (s.perform effect).flagOps.toList = s.flagOps.toList ++ effect.flagOp?.toList ∧
      (s.perform effect).varOps.toList = s.varOps.toList ++ effect.varOp?.toList := by
  match effect with
  | .flag op =>
    obtain ⟨flags, h⟩ := s.exists_perform_flag op
    simp [h, Effect.flagOp?, Effect.varOp?]
  | .var op =>
    obtain ⟨vars, h⟩ := s.exists_perform_var op
    simp [h, Effect.flagOp?, Effect.varOp?]
  | .door _ | .item _ | .camera _ | .message _ => simp [perform, Effect.flagOp?, Effect.varOp?]

/-- The camera is the last one that was switched to. -/
theorem camera_perform :
    (s.perform effect).camera = effect.camera?.toList.foldl (fun _ id ↦ id) s.camera := by
  match effect with
  | .flag op =>
    obtain ⟨flags, h⟩ := s.exists_perform_flag op
    rw [h]
    rfl
  | .var op =>
    obtain ⟨vars, h⟩ := s.exists_perform_var op
    rw [h]
    rfl
  | .door _ | .item _ | .camera _ | .message _ => rfl

/-! ## What effects do, one after the other -/

/-- What every effect makes of its own part of a game, all of them make of it together. -/
theorem foldl_perform_of_perform {α β : Type} {part : RoomState → α} {own? : Effect → Option β}
    {change : α → β → α}
    (h : ∀ s effect, part (perform s effect) = (own? effect).toList.foldl change (part s)) :
    part (effects.foldl perform s) = (effects.filterMap own?).foldl change (part s) := by
  induction effects generalizing s with
  | nil => rfl
  | cons effect effects ih =>
    rw [List.foldl_cons, ih, h, List.filterMap_cons]
    cases own? effect <;> rfl

/-- Whether a game is in a room where nothing has happened yet. -/
structure Fresh : Prop where
  doors : s.doors = #[]
  items : s.items = #[]
  messages : s.messages = #[]
  flagOps : s.flagOps = #[]
  varOps : s.varOps = #[]
  camera : s.camera = 0

theorem fresh_new (stage room : UInt8) : (new stage room).Fresh := ⟨rfl, rfl, rfl, rfl, rfl, rfl⟩

theorem fresh_enterRoom (stage room : UInt8) : (s.enterRoom stage room).Fresh :=
  ⟨rfl, rfl, rfl, rfl, rfl, rfl⟩

/-- The game `now` is what its own logs make of the game `entered`, in which nothing has happened
yet, and it holds what the effects since then were, in order. -/
structure Replays (entered : RoomState) (effects : List Effect) (now : RoomState) : Prop where
  flag : now.flag = now.flagOps.toList.foldl FlagOp.applyTo entered.flag
  var : now.var = now.varOps.toList.foldl VarOp.applyTo entered.var
  flagOps : now.flagOps.toList = effects.filterMap Effect.flagOp?
  varOps : now.varOps.toList = effects.filterMap Effect.varOp?
  doors : now.doors.toList = effects.filterMap Effect.door?
  items : now.items.toList = effects.filterMap Effect.item?
  messages : now.messages.toList = effects.filterMap Effect.message?
  camera : now.camera = (effects.filterMap Effect.camera?).getLast?.getD 0
  /-- Nobody leaves the room. -/
  place : now.stage = entered.stage ∧ now.room = entered.room

/-- **Whatever is done to a game in a room, the game is the replay of its logs.** -/
theorem Fresh.replays {s : RoomState} (h : s.Fresh) (effects : List Effect) :
    s.Replays effects (effects.foldl perform s) := by
  have hflagOps : (effects.foldl perform s).flagOps.toList = effects.filterMap Effect.flagOp? := by
    rw [toList_foldl_perform s effects fun s effect ↦ (s.logs_perform effect).1, h.flagOps]
    rfl
  have hvarOps : (effects.foldl perform s).varOps.toList = effects.filterMap Effect.varOp? := by
    rw [toList_foldl_perform s effects fun s effect ↦ (s.logs_perform effect).2, h.varOps]
    rfl
  refine ⟨?_, ?_, hflagOps, hvarOps, ?_, ?_, ?_, ?_, place_foldl_perform s effects⟩
  · rw [hflagOps]
    exact foldl_perform_of_perform s effects flag_perform
  · rw [hvarOps]
    exact foldl_perform_of_perform s effects var_perform
  · rw [toList_doors_foldl, h.doors]
    rfl
  · rw [toList_items_foldl, h.items]
    rfl
  · rw [toList_messages_foldl, h.messages]
    rfl
  · rw [foldl_perform_of_perform s effects camera_perform, h.camera]
    induction effects.filterMap Effect.camera? using List.reverseRecOn with
    | nil => rfl
    | append_singleton ids id _ => rw [List.foldl_append, List.getLast?_concat]; rfl

/-! ## What changes the store -/

/-- A flag that an effect changes is the one of an operation, and the operation is logged. -/
theorem exists_flagOp_of_flag_ne {array bit : UInt8}
    (h : (s.perform effect).flag array bit ≠ s.flag array bit) :
    ∃ action, effect = .flag ⟨array, bit, action⟩ ∧
      (s.perform effect).flagOps = s.flagOps.push ⟨array, bit, action⟩ := by
  rw [flag_perform] at h
  match effect with
  | .flag ⟨a, b, action⟩ =>
    have hplace : a = array ∧ b = bit := by
      by_contra hne
      exact h (if_neg hne)
    obtain ⟨rfl, rfl⟩ := hplace
    obtain ⟨flags, hperform⟩ := s.exists_perform_flag ⟨a, b, action⟩
    exact ⟨action, rfl, by rw [hperform]⟩
  | .var _ | .door _ | .item _ | .camera _ | .message _ => exact absurd rfl h

/-- A variable that an effect changes is the one of an operation, and the operation is logged. -/
theorem exists_varOp_of_var_ne {id : UInt8} (h : (s.perform effect).var id ≠ s.var id) :
    ∃ action operand, effect = .var ⟨id, action, operand⟩ ∧
      (s.perform effect).varOps = s.varOps.push ⟨id, action, operand⟩ := by
  rw [var_perform] at h
  match effect with
  | .var ⟨target, action, operand⟩ =>
    have htarget : target = id := by
      by_contra hne
      exact h (if_neg hne)
    subst htarget
    obtain ⟨vars, hperform⟩ := s.exists_perform_var ⟨target, action, operand⟩
    exact ⟨action, operand, rfl, by rw [hperform]⟩
  | .flag _ | .door _ | .item _ | .camera _ | .message _ => exact absurd rfl h

end RoomState

/-! ## Calls -/

/-- What can happen to a game. -/
inductive Call where
  | enterRoom (stage room : UInt8)
  | perform (effect : Effect)
  deriving DecidableEq

/-- The game after a call. -/
def RoomState.receive (s : RoomState) : Call → RoomState
  | .enterRoom stage room => s.enterRoom stage room
  | .perform effect => s.perform effect

theorem RoomState.foldl_receive_perform (s : RoomState) (effects : List Effect) :
    (effects.map Call.perform).foldl receive s = effects.foldl perform s :=
  List.foldl_map

/-- Whether nothing happens in a room after `calls`: there are none, or the last one enters a
room. -/
def Call.Enter (calls : List Call) : Prop :=
  calls = [] ∨ ∃ earlier stage room, calls = earlier ++ [.enterRoom stage room]

/-- Calls consist of those up to the room that was entered last, and of effects. -/
theorem Call.exists_split (calls : List Call) :
    ∃ entry, ∃ effects : List Effect, Enter entry ∧ calls = entry ++ effects.map perform := by
  induction calls using List.reverseRecOn with
  | nil => exact ⟨[], [], .inl rfl, rfl⟩
  | append_singleton calls call ih =>
    obtain ⟨entry, effects, hentry, rfl⟩ := ih
    match call with
    | .enterRoom stage room => exact ⟨_, [], .inr ⟨_, stage, room, rfl⟩, (List.append_nil _).symm⟩
    | .perform effect => exact ⟨entry, effects ++ [effect], hentry, by simp⟩

/-- Where nothing has happened yet, the game is fresh. -/
theorem Call.Enter.fresh {calls : List Call} (h : Enter calls) {s : RoomState} (hs : s.Fresh) :
    (calls.foldl RoomState.receive s).Fresh := by
  rcases h with rfl | ⟨earlier, stage, room, rfl⟩
  · exact hs
  · rw [List.foldl_append]
    exact RoomState.fresh_enterRoom _ stage room

/-! ## Runs as calls -/

/-- A run that goes on where another one ends: what it adds are effects, and it carries them out. -/
def Execution.GoesOn (e e' : Execution) (effects : List Effect) : Prop :=
  e'.room = effects.foldl RoomState.perform e.room ∧ e'.effects.toList = e.effects.toList ++ effects

theorem Execution.GoesOn.trans {e e' e'' : Execution} {effects effects' : List Effect}
    (h : e.GoesOn e' effects) (h' : e'.GoesOn e'' effects') :
    e.GoesOn e'' (effects ++ effects') := by
  obtain ⟨hroom, heffects⟩ := h
  obtain ⟨hroom', heffects'⟩ := h'
  refine ⟨?_, ?_⟩
  · rw [hroom', hroom, List.foldl_append]
  · rw [heffects', heffects, List.append_assoc]

/-- The effects that a run has called for when `said` was said in the script that it is at: those of
the scripts before, and those of the instructions that were seen since. -/
def Execution.effectsAfter (e : Execution) (said : Trace) : List Effect :=
  e.effects.toList ++ said.effects e.room.stage

/-- A script, with all that it takes to run it. -/
structure Job where
  settings : Settings
  language : Language
  origin : Nat
  code : Stretch

namespace Job

/-- Goes on with a script. -/
def run (e : Execution) (job : Job) : Execution :=
  e.script job.settings job.language job.origin job.code

/-- What a run of a script says to the observer that runs it. -/
def trace (e : Execution) (job : Job) : Trace :=
  e.scriptTrace job.settings job.language job.origin job.code

/-- The game during a run of a script, when `said` was said. -/
def roomAfter (e : Execution) (job : Job) (said : Trace) : RoomState :=
  ((Runner.observer job.settings.evaluateConditions).replay said
    { room := e.room, effects := e.effects }).room

theorem roomAfter_eq (e : Execution) (job : Job) (said : Trace) :
    job.roomAfter e said = (said.effects e.room.stage).foldl RoomState.perform e.room :=
  (Runner.replay_observer _ said { room := e.room, effects := e.effects }).1

theorem goesOn_run (e : Execution) (job : Job) :
    e.GoesOn (job.run e) ((job.trace e).effects e.room.stage) := by
  obtain ⟨hroom, heffects, -⟩ := e.script_eq job.settings job.language job.origin job.code
  exact ⟨hroom, heffects⟩

theorem exists_goesOn_foldl (e : Execution) (jobs : List Job) :
    ∃ effects, e.GoesOn (jobs.foldl run e) effects := by
  induction jobs generalizing e with
  | nil => exact ⟨[], rfl, (List.append_nil _).symm⟩
  | cons job jobs ih =>
    obtain ⟨effects, h⟩ := ih (job.run e)
    exact ⟨_, (job.goesOn_run e).trans h⟩

end Job

namespace Task

/-- The scripts that are run, in order. -/
def jobs : Task → Except NoScriptSection (List Job)
  | script settings lang origin code => .ok [⟨settings, lang, origin, code⟩]
  | function settings lang file f => .ok [⟨settings, lang, f.entryOffset.toNat, f.code file⟩]
  | scriptSection settings room kind => sectionJobs settings room kind
  | load settings room =>
    (sectionJobs settings room .init).bind fun jobs ↦
      (sectionJobs settings room .run).map (jobs ++ ·)
where
  /-- The functions of a section. -/
  sectionJobs (settings : Settings) (room : Room) (kind : ScriptKind) :
      Except NoScriptSection (List Job) :=
    (room.generation.scriptSection kind).map fun s ↦
      (room.functions s.index s.table).map fun f ↦
        ⟨settings, s.language, f.entryOffset.toNat, f.code room.bytes⟩

theorem scriptSection_eq (settings : Settings) (room : Room) (kind : ScriptKind) (e : Execution) :
    e.scriptSection settings room kind
      = (jobs.sectionJobs settings room kind).map (·.foldl Job.run e) := by
  rw [Execution.scriptSection, jobs.sectionJobs]
  cases room.generation.scriptSection kind with
  | error => rfl
  | ok s =>
    show Except.ok _ = Except.ok ((List.map _ _).foldl Job.run e)
    rw [List.foldl_map]
    rfl

/-- **Running a task is running some scripts, one after the other.** -/
theorem run_eq (s : RoomState) (task : Task) :
    task.run s = task.jobs.map (·.foldl Job.run { room := s }) := by
  match task with
  | script .. | function .. => rfl
  | scriptSection settings room kind => exact scriptSection_eq settings room kind _
  | load settings room =>
    rw [run, Execution.load, jobs, scriptSection_eq]
    cases jobs.sectionJobs settings room .init with
    | error => rfl
    | ok first =>
      show (first.foldl Job.run _).scriptSection settings room .run = _
      rw [scriptSection_eq]
      cases jobs.sectionJobs settings room .run with
      | error => rfl
      | ok second => exact congrArg Except.ok List.foldl_append.symm

end Task

namespace Session

/-! ## Sessions as calls -/

/-- The calls of a step.  A run calls for its effects. -/
def Step.calls (s : RoomState) : Step → List Call
  | enterRoom stage room => [.enterRoom stage room]
  | perform effect => [.perform effect]
  | run task =>
    match task.run s with
    | .ok e => e.effects.toList.map .perform
    | .error _ => []

/-- The calls of a session, in order. -/
def calls (s : Session) : List Step → List Call
  | [] => []
  | x :: steps => x.calls s.room ++ (s.step x).calls steps

theorem room_step (s : Session) (x : Step) :
    (s.step x).room = (x.calls s.room).foldl RoomState.receive s.room := by
  match x with
  | .enterRoom .. | .perform _ => rfl
  | .run task =>
    show (match task.run s.room with | .ok e => e.room | .error _ => s.room) = _
    rw [Step.calls, task.run_eq]
    cases task.jobs with
    | error => rfl
    | ok jobs =>
      obtain ⟨effects, hroom, heffects⟩ := Job.exists_goesOn_foldl { room := s.room } jobs
      show (jobs.foldl Job.run _).room
        = ((jobs.foldl Job.run _).effects.toList.map Call.perform).foldl _ _
      rw [RoomState.foldl_receive_perform, hroom, heffects]
      rfl

theorem calls_append (s : Session) (steps steps' : List Step) :
    s.calls (steps ++ steps') = s.calls steps ++ (s.play steps).calls steps' := by
  induction steps generalizing s with
  | nil => rfl
  | cons x steps ih =>
    rw [List.cons_append, calls, calls, ih, List.append_assoc]
    rfl

/-- **A session does to its game what its calls do.** -/
theorem room_play (s : Session) (steps : List Step) :
    (s.play steps).room = (s.calls steps).foldl RoomState.receive s.room := by
  induction steps generalizing s with
  | nil => rfl
  | cons x steps ih =>
    rw [calls, List.foldl_append, ← room_step, ← ih]
    rfl

/-- The states that a game is in during a session, each with the calls that came up to then: between
two steps, and while a script is run, at any point of what is said to the observer that runs it. -/
inductive Passes (s : Session) (steps : List Step) : List Call → RoomState → Prop
  | between {done rest : List Step} (hsteps : steps = done ++ rest) :
      Passes s steps (s.calls done) (s.play done).room
  | during {done rest : List Step} {task : Task} {before after : List Job} {job : Job}
      {e : Execution} {said : Trace} (hsteps : steps = done ++ .run task :: rest)
      (hjobs : task.jobs = .ok (before ++ job :: after))
      (he : e = before.foldl Job.run { room := (s.play done).room })
      (hsaid : said <+: job.trace e) :
      Passes s steps (s.calls done ++ (e.effectsAfter said).map .perform) (job.roomAfter e said)

namespace Passes

variable {s : Session} {steps : List Step} {heard : List Call} {r : RoomState}

/-- **At any point of a session, the game is what the calls up to then make of it.** -/
theorem eq_foldl_receive (h : s.Passes steps heard r) :
    r = heard.foldl RoomState.receive s.room := by
  match h with
  | .between _ => exact s.room_play _
  | @during _ _ done _ _ before _ job e said _ _ he _ =>
    obtain ⟨effects, hroom, heffects⟩ :=
      Job.exists_goesOn_foldl { room := (s.play done).room } before
    rw [← he] at hroom heffects
    have hcalled : e.effectsAfter said = effects ++ said.effects e.room.stage := by
      rw [Execution.effectsAfter, heffects]
      rfl
    rw [List.foldl_append, RoomState.foldl_receive_perform, ← room_play, hcalled,
      List.foldl_append, Job.roomAfter_eq, hroom]

/-- What has been called up to some point is the first part of all that is called. -/
theorem isPrefixOf_calls (h : s.Passes steps heard r) : heard <+: s.calls steps := by
  match h with
  | .between hsteps =>
    rw [hsteps, calls_append]
    exact List.prefix_append _ _
  | @during _ _ done rest task before after job e said hsteps hjobs he hsaid =>
    obtain ⟨later, -, hlater⟩ := Job.exists_goesOn_foldl (job.run e) after
    obtain ⟨-, hrun⟩ := job.goesOn_run e
    obtain ⟨unsaid, hunsaid⟩ := hsaid
    -- the run goes on with the rest of the script, and with the scripts behind it
    have hcalls : (Step.run task).calls (s.play done).room
        = (e.effectsAfter said).map Call.perform
          ++ (Trace.effects unsaid e.room.stage ++ later).map Call.perform := by
      rw [Step.calls, task.run_eq, hjobs]
      show ((before ++ job :: after).foldl Job.run _).effects.toList.map Call.perform = _
      rw [List.foldl_append, List.foldl_cons, ← he, hlater, hrun, ← hunsaid, Trace.effects_append,
        Execution.effectsAfter, ← List.map_append]
      simp only [List.append_assoc]
    rw [hsteps, calls_append, calls, hcalls, List.prefix_append_right_inj, List.append_assoc]
    exact List.prefix_append _ _

end Passes

/-! ## Main statement -/

/-- **A game is the replay of its logs.**  Take any session of a new game, and any state that the
game is in during the session, also in the middle of a run.  The calls up to then (`heard`) are a
first part of the calls of the session.  Those since the last room was entered are effects
(`effects`); in front of them there is nothing, or something that ends with entering a room
(`entry`).  Then the flags are those from after `entry`, with the logged operations applied in
order, and so are the variables; the logs, the doors, the items and the messages are the ones of the
effects, in order; and the camera is the last one that was switched to, or 0.

What is called next changes no flag and no variable but by an operation that is logged. -/
theorem logs_replay (stage room : UInt8) (steps : List Step) {heard : List Call} {now : RoomState}
    (hnow : Passes { room := .new stage room } steps heard now) :
    let start := RoomState.new stage room
    heard <+: calls { room := start } steps ∧
    ∃ entry effects, Call.Enter entry ∧ heard = entry ++ effects.map Call.perform ∧
      now = effects.foldl RoomState.perform (entry.foldl RoomState.receive start) ∧
      (entry.foldl RoomState.receive start).Replays effects now ∧
      ∀ call : Call,
        (∀ array bit, (now.receive call).flag array bit ≠ now.flag array bit →
          ∃ action, call = .perform (.flag ⟨array, bit, action⟩) ∧
            (now.receive call).flagOps = now.flagOps.push ⟨array, bit, action⟩) ∧
        ∀ id, (now.receive call).var id ≠ now.var id →
          ∃ action operand, call = .perform (.var ⟨id, action, operand⟩) ∧
            (now.receive call).varOps = now.varOps.push ⟨id, action, operand⟩ := by
  intro start
  obtain ⟨entry, effects, hentry, rfl⟩ := Call.exists_split heard
  have hroom : now = effects.foldl RoomState.perform (entry.foldl RoomState.receive start) := by
    rw [hnow.eq_foldl_receive, List.foldl_append, RoomState.foldl_receive_perform]
  have hfresh := hentry.fresh (RoomState.fresh_new stage room)
  refine ⟨hnow.isPrefixOf_calls, entry, effects, hentry, rfl, hroom, ?_,
    fun call ↦ ⟨fun array bit hne ↦ ?_, fun id hne ↦ ?_⟩⟩
  · rw [hroom]
    exact hfresh.replays effects
  · match call with
    | .enterRoom .. => exact absurd rfl hne
    | .perform effect =>
      obtain ⟨action, rfl, hlog⟩ := now.exists_flagOp_of_flag_ne effect hne
      exact ⟨action, rfl, hlog⟩
  · match call with
    | .enterRoom .. => exact absurd rfl hne
    | .perform effect =>
      obtain ⟨action, operand, rfl, hlog⟩ := now.exists_varOp_of_var_ne effect hne
      exact ⟨action, operand, rfl, hlog⟩

/-- A flag is set, a room is entered, the flag is toggled, and a variable is divided by zero.  Then
a script runs, of which two instructions have been carried out. -/
theorem logs_replay_division :
    let gated : Settings := { evaluateConditions := true }
    let code : Bytes := #[0x29, 0x05, 0x22, 0x01, 0x02, 0x01, 0x2b, 0x00, 0x07, 0x00, 0x00, 0x00]
    let toggle : FlagOp := ⟨4, 0x12, .toggle⟩
    let five : VarOp := ⟨7, .set, .immediate 5⟩
    let division : VarOp := ⟨7, .div, .var 9⟩
    let done : List Step := [.perform (.flag ⟨4, 0x12, .set⟩), .enterRoom 2 3,
      .perform (.flag toggle), .perform (.var five), .perform (.var division)]
    let steps := done ++ [.run (.script gated .re2 0 code.whole)]
    let start : RoomState := .new 1 0
    let running : Execution := { room := (play { room := start } done).room }
    let job : Job := ⟨gated, .re2, 0, code.whole⟩
    let said := (job.trace running).take 2
    let heard : List Call := calls { room := start } done
      ++ (running.effectsAfter said).map .perform
    let now := job.roomAfter running said
    Passes { room := start } steps heard now ∧
      heard = [.perform (.flag ⟨4, 0x12, .set⟩), .enterRoom 2 3, .perform (.flag toggle),
        .perform (.var five), .perform (.var division), .perform (.camera 5),
        .perform (.flag ⟨1, 2, .set⟩)] ∧
      (∃ entry effects, Call.Enter entry ∧ heard = entry ++ effects.map Call.perform ∧
        now = effects.foldl RoomState.perform (entry.foldl RoomState.receive start) ∧
        (entry.foldl RoomState.receive start).Replays effects now) ∧
      now.flagOps = #[toggle, ⟨1, 2, .set⟩] ∧ now.varOps = #[five, division] ∧
      now.flag 4 0x12 = false ∧ now.flag 1 2 = true ∧ now.var 7 = 5 ∧ now.camera = 5 ∧
      now.messages = #[] ∧ (play { room := start } steps).room.messages = #[7] := by
  intro gated code toggle five division done steps start running job said heard now
  have hjobs : (Task.script gated .re2 0 code.whole).jobs = .ok ([] ++ job :: []) := rfl
  have hpasses : Passes { room := start } steps heard now :=
    .during rfl hjobs rfl (List.take_prefix 2 _)
  obtain ⟨-, entry, effects, hentry, hheard, hnow, hreplays, -⟩ := logs_replay 1 0 steps hpasses
  exact ⟨hpasses, by decide +kernel, ⟨entry, effects, hentry, hheard, hnow, hreplays⟩,
    by decide +kernel, by decide +kernel, by decide +kernel, by decide +kernel, by decide +kernel,
    by decide +kernel, by decide +kernel, by decide +kernel⟩

end Session

end RoomScript
