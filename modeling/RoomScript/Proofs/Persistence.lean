import Mathlib.Data.List.Basic
import RoomScript.ScriptSection
import RoomScript.Proofs.Gating

/-!
# Rooms do not reach the store

A game has flags and variables, which outlive a room, and everything else, which does not.  What is
the room's never gets into the store: a game can be played twice, in other rooms, with other stages
and with everything that was done to the rooms lost in between, and the flags and the variables come
out the same, and so does the account of every run.

## What is here

There are three reasons, and a section for each of them.

* `Language.unstaged_action` — of all that is the room's, instructions look at nothing but the
  stage, and from the stage nothing comes but the stage behind a door of the first generation.
* `RoomState.StoreView` — carrying out an effect, or entering a room, does not bring the one into
  the store that the other has.
* `Runner.matches_observer` — the observer that runs scripts answers by flags and by what it
  remembers, so runs with the same store lead the same conversation.

From there it goes to scripts (`Execution.Alike.script`), tasks (`Task.endAlike_run`) and sessions.

* `Session` — anything that can be done to a game, one step after the other.
* `Session.shown_step`, `Session.shown_play` — what a step shows depends on what was shown before,
  and a session shows the same without the rooms that are entered.
* `Session.play_ignores_rooms` — two sessions that differ in the rooms that are entered.

"The same store" can mean two things, the same values or the same cells.  A value of zero may be
kept in a cell or not, so the second says more.  Nothing but `StoreView` is ever used about what is
kept, so the proofs are about any view of the store, and both are cases of it
(`RoomState.storeView_store`, `RoomState.storeView_cells`).
-/

set_option autoImplicit false

namespace RoomScript

/-! ## What depends on the stage -/

/-- An effect without the stage that a door leads to. -/
def Effect.unstaged : Effect → Effect
  | .door d => .door { d with nextStage := 0 }
  | effect => effect

/-- An action without the stage that a door leads to. -/
def Action.unstaged : Action → Action
  | .perform effect => .perform effect.unstaged
  | action => action

theorem Action.map_effect? (a : Action) : a.effect?.map Effect.unstaged = a.unstaged.effect? := by
  cases a with
  | nothing | perform | test => rfl

/-- The generation that a language belongs to. -/
def Language.generation : Language → Generation
  | re1Scd | re1Event => .re1
  | re2 => .re2
  | re3 => .re3

/-- A script section is written in a language of the generation of its room. -/
theorem Generation.generation_language {g : Generation} {kind : ScriptKind} {s : ScriptSection}
    (h : g.scriptSection kind = .ok s) : s.language.generation = g := by
  rw [scriptSection] at h
  split at h
  · cases h
    cases g <;> cases kind <;> rfl
  · cases h

/-- What of an effect of a generation does not depend on the stage. -/
def Generation.unstaged : Generation → Effect → Effect
  | re1 => Effect.unstaged
  | re2 | re3 => id

/-- **Nothing of an action depends on the stage** but the stage behind a door. -/
theorem Language.unstaged_action (lang : Language) (i : Instruction) (stage stage' : UInt8) :
    (lang.action i stage).unstaged = (lang.action i stage').unstaged := by
  match lang with
  | re1Scd =>
    rw [action, action, Re1Scd.action, Re1Scd.action]
    split <;> rfl
  | re1Event | re2 | re3 => rfl

/-- Only doors of the first generation depend on the stage. -/
theorem Visit.map_effect? (v : Visit) (stage stage' : UInt8) :
    (v.effect? stage).map v.language.generation.unstaged
      = (v.effect? stage').map v.language.generation.unstaged := by
  have hunstaged (stage : UInt8) : (v.effect? stage).map Effect.unstaged
      = (v.language.action v.instruction stage).unstaged.effect? := Action.map_effect? _
  obtain ⟨lang, i, depth⟩ := v
  match lang with
  | .re1Scd | .re1Event =>
    refine (hunstaged stage).trans (.trans ?_ (hunstaged stage').symm)
    rw [Language.unstaged_action _ i stage stage']
  | .re2 | .re3 => rfl

/-- What is in a script is of the generation of the script. -/
theorem Decodes.generation_eq {lang : Language} {mode : Mode} {offset depth : Nat}
    {code : List UInt8} {O : Outline} {v : Visit} (h : Decodes lang mode offset code O)
    (hv : v ∈ O.visits depth) : v.language.generation = lang.generation := by
  induction h generalizing depth with
  | done => simp [Outline.visits] at hv
  | @step _ _ _ _ _ _ _ _ _ _ _ fragment _ _ _ _ _ _ _ hfragment _ _ hinner _ _ ihinner ihbody
      ihnext =>
    simp only [Outline.visits, List.mem_cons, List.mem_append] at hv
    rcases hv with rfl | hv | hv | hv
    · rfl
    · by_cases hnil : fragment = []
      · rw [hinner.eq_done hnil] at hv
        cases hv
      · obtain ⟨rfl, rfl, -⟩ := hfragment hnil
        exact ihinner hv
    · exact ihbody hv
    · exact ihnext hv

/-- What a script did depends on the stage in nothing but the stages behind doors. -/
theorem Observer.map_effects_trace {σ : Type} (o : Observer σ) (limit : Nat) (lang : Language)
    (origin : Nat) (code : Stretch) (x : σ) (stage stage' : UInt8) :
    ((o.trace limit lang origin code x).effects stage).map lang.generation.unstaged
      = ((o.trace limit lang origin code x).effects stage').map lang.generation.unstaged := by
  rw [Trace.effects, Trace.effects, List.map_filterMap, List.map_filterMap]
  refine List.filterMap_congr fun v hv ↦ ?_
  rw [← (decodes_outline lang _).generation_eq (mem_visits_of_mem_trace hv)]
  exact v.map_effect? stage stage'

/-! ## Views of the store -/

namespace RoomState

/-- `view` shows the store of a game and nothing else: it shows the flags, what it shows after an
effect depends on what it showed before, and neither the stage behind a door nor a room that is
entered makes a difference. -/
structure StoreView {α : Type} (view : RoomState → α) : Prop where
  flag_eq : ∀ {s s' : RoomState}, view s = view s' → s.flag = s'.flag
  perform_eq : ∀ {s s' : RoomState}, view s = view s' →
    ∀ effect, view (s.perform effect) = view (s'.perform effect)
  unstaged_eq : ∀ (s : RoomState) (effect : Effect),
    view (s.perform effect.unstaged) = view (s.perform effect)
  enterRoom_eq : ∀ (s : RoomState) (stage room : UInt8), view (s.enterRoom stage room) = view s

/-- What can be asked of the store. -/
def store (s : RoomState) : (UInt8 → UInt8 → Bool) × (UInt8 → Int16) := (s.flag, s.var)

/-- What the store is made of. -/
def cells (s : RoomState) : Cells FlagArray × Cells Int16 := (s.flags, s.vars)

theorem operand_congr {s s' : RoomState} (h : s.var = s'.var) (operand : Operand) :
    s.operand operand = s'.operand operand := by
  cases operand with
  | immediate value => rfl
  | var id => exact congrFun h id

/-- The answers of the store do not come from anywhere else. -/
theorem storeView_store : StoreView store where
  flag_eq h := congrArg Prod.fst h
  perform_eq {s s'} h effect := by
    have hflag : s.flag = s'.flag := congrArg Prod.fst h
    have hvar : s.var = s'.var := congrArg Prod.snd h
    cases effect with
    | flag op =>
      obtain ⟨flags, hs⟩ := s.exists_perform_flag op
      obtain ⟨flags', hs'⟩ := s'.exists_perform_flag op
      refine Prod.ext ?_ ?_
      · funext array bit
        exact (flag_performFlag s op array bit).trans
          (by rw [hflag, ← flag_performFlag s' op array bit]; rfl)
      · rw [hs, hs']
        exact hvar
    | var op =>
      obtain ⟨vars, hs⟩ := s.exists_perform_var op
      obtain ⟨vars', hs'⟩ := s'.exists_perform_var op
      refine Prod.ext ?_ ?_
      · rw [hs, hs']
        exact hflag
      · funext id
        refine (var_performVar s op id).trans ?_
        rw [hvar, operand_congr hvar, ← var_performVar s' op id]
        rfl
    | door | item | camera | message => exact h
  unstaged_eq s effect := by cases effect <;> rfl
  enterRoom_eq _ _ _ := rfl

theorem cells_performFlag (s : RoomState) (op : FlagOp) :
    (s.performFlag op).cells =
      (if op.action = .test then s.flags
        else s.flags.put op.array (writeFlag (s.flagArray op.array) op.bit
          (op.action.update (s.flag op.array op.bit))), s.vars) := by
  obtain ⟨array, bit, action⟩ := op
  cases action <;> rfl

theorem cells_performVar (s : RoomState) (op : VarOp) :
    (s.performVar op).cells =
      (s.flags, (op.action.update (s.var op.id) (s.operand op.operand)).elim s.vars
        (s.vars.put op.id)) := by
  have hop : ({ s with varOps := s.varOps.push op } : RoomState).operand op.operand
      = s.operand op.operand := operand_congr rfl _
  unfold performVar
  simp only [hop]
  split
  · next value h =>
    rw [show op.action.update (s.var op.id) (s.operand op.operand) = some value from h]
    rfl
  · next h =>
    rw [show op.action.update (s.var op.id) (s.operand op.operand) = none from h]
    rfl

/-- The cells of the store are not filled from anywhere else. -/
theorem storeView_cells : StoreView cells where
  flag_eq {s s'} h := by
    have hflags : s.flags = s'.flags := congrArg Prod.fst h
    funext array bit
    rw [flag, flag, flagArray, flagArray, hflags]
  perform_eq {s s'} h effect := by
    have hflags : s.flags = s'.flags := congrArg Prod.fst h
    have hvars : s.vars = s'.vars := congrArg Prod.snd h
    cases effect with
    | flag op =>
      refine (s.cells_performFlag op).trans (.trans ?_ (s'.cells_performFlag op).symm)
      simp only [flag, flagArray, hflags, hvars]
    | var op =>
      refine (s.cells_performVar op).trans (.trans ?_ (s'.cells_performVar op).symm)
      have hvar : s.var = s'.var := by
        funext id
        rw [var, var, hvars]
      rw [hflags, hvars, hvar, operand_congr hvar]
    | door | item | camera | message => exact h
  unstaged_eq s effect := by cases effect <;> rfl
  enterRoom_eq _ _ _ := rfl

/-- Effects that differ in nothing but the stages behind doors do the same to the store. -/
theorem StoreView.foldl_perform {α : Type} {view : RoomState → α} (hview : StoreView view)
    {s s' : RoomState} (h : view s = view s') {effects effects' : List Effect}
    (heffects : effects.map Effect.unstaged = effects'.map Effect.unstaged) :
    view (effects.foldl perform s) = view (effects'.foldl perform s') := by
  induction effects generalizing s s' effects' with
  | nil =>
    rw [List.map_nil, eq_comm, List.map_eq_nil_iff] at heffects
    rw [heffects]
    exact h
  | cons effect effects ih =>
    obtain ⟨effect', rest, rfl, heffect, hrest⟩ := List.map_eq_cons_iff.1 heffects.symm
    have hperform : view (s.perform effect) = view (s'.perform effect') := by
      rw [← hview.unstaged_eq s, ← hview.unstaged_eq s', heffect]
      exact hview.perform_eq h _
    exact ih hperform hrest.symm

/-- The answer of an action comes from the flags. -/
theorem answer?_congr {s s' : RoomState} (h : s.flag = s'.flag) {a a' : Action}
    (ha : a.unstaged = a'.unstaged) : s.answer? a = s'.answer? a' := by
  have hunstaged (s : RoomState) (a : Action) : s.answer? a = s.answer? a.unstaged := by
    cases a with
    | nothing | perform | test => rfl
  rw [hunstaged, hunstaged s', ha]
  cases a'.unstaged with
  | test array bit expected => rw [answer?, answer?, h]
  | nothing | perform => rfl

end RoomState

/-! ## Runs with the same store -/

section

variable {α : Type} {view : RoomState → α} (hview : RoomState.StoreView view)

/-- Two runners that have the same store and remember the same. -/
structure Runner.Alike (view : RoomState → α) (r r' : Runner) : Prop where
  view_eq : view r.room = view r'.room
  outcomes_eq : r.outcomes = r'.outcomes

namespace Runner

variable {r r' : Runner}

theorem Alike.remember (h : Alike view r r') (depth : Nat) (outcome : Option Bool) :
    Alike view (r.remember depth outcome) (r'.remember depth outcome) := by
  refine ⟨h.view_eq, ?_⟩
  show r.outcomes.set depth outcome = r'.outcomes.set depth outcome
  rw [h.outcomes_eq]

include hview

theorem Alike.act (h : Alike view r r') {a a' : Action} (ha : a.unstaged = a'.unstaged) :
    Alike view (r.act a) (r'.act a') := by
  refine ⟨?_, ?_⟩
  · rw [room_act, room_act]
    refine hview.foldl_perform h.view_eq ?_
    rw [← Option.toList_map, ← Option.toList_map, Action.map_effect?, Action.map_effect?, ha]
  · rw [outcomes_act, outcomes_act, h.outcomes_eq]

/-- **The answers of a run come from the store** and from what it remembers. -/
theorem matches_observer (evaluate : Bool) :
    (observer evaluate).Matches (observer evaluate) (Alike view) where
  visit lang i depth r r' h := by
    have haction := lang.unstaged_action i r.room.stage r'.room.stage
    have hact := h.act hview haction
    have hanswer := RoomState.answer?_congr (hview.flag_eq hact.view_eq) haction
    refine ⟨?_, hact⟩
    simp only [observer, hanswer]
  enter i kind depth r r' h := by
    match kind with
    | .thenBody => exact ⟨rfl, h.remember depth none⟩
    | .elseBody =>
      match evaluate with
      | true =>
        refine ⟨?_, h.remember depth none⟩
        show decide (r.outcomes.get depth ≠ some true) = decide (r'.outcomes.get depth ≠ some true)
        rw [h.outcomes_eq]
      | false => exact ⟨rfl, h⟩
    | .loopBody | .switchBody | .caseBody => exact ⟨rfl, h⟩
  leave i kind depth completed r r' h := by
    match kind with
    | .thenBody => exact h.remember depth (some completed)
    | .elseBody | .loopBody | .switchBody | .caseBody => exact h

end Runner

/-! ## Executions -/

/-- Two executions that have the same store and the same account, and that had the same effects, as
far as these do not depend on the stage. -/
structure Execution.Alike (view : RoomState → α) (g : Generation) (e e' : Execution) : Prop where
  view_eq : view e.room = view e'.room
  report_eq : e.report = e'.report
  effects_eq : e.effects.toList.map g.unstaged = e'.effects.toList.map g.unstaged

/-- Two executions that could not be carried out for the same reason, or that are alike. -/
inductive Execution.EndAlike (view : RoomState → α) (g : Generation) :
    Except NoScriptSection Execution → Except NoScriptSection Execution → Prop
  | ok {e e' : Execution} (h : e.Alike view g e') : EndAlike view g (.ok e) (.ok e')
  | error (reason : NoScriptSection) : EndAlike view g (.error reason) (.error reason)

namespace Execution

theorem EndAlike.bind {g : Generation} {a a' : Except NoScriptSection Execution}
    (h : EndAlike view g a a') {next : Execution → Except NoScriptSection Execution}
    (hnext : ∀ e e' : Execution, e.Alike view g e' → EndAlike view g (next e) (next e')) :
    EndAlike view g (a.bind next) (a'.bind next) := by
  cases h with
  | ok h => exact hnext _ _ h
  | error reason => exact .error reason

variable {g : Generation} {e e' : Execution} (h : e.Alike view g e') (settings : Settings)
include hview h

/-- **A script does the same in games with the same store**, and they still have the same store
behind it. -/
theorem Alike.script {lang : Language} (hlang : lang.generation = g) (origin : Nat)
    (code : Stretch) :
    (e.script settings lang origin code).Alike view g (e'.script settings lang origin code) := by
  obtain ⟨-, heffects, hreport⟩ := e.script_eq settings lang origin code
  obtain ⟨-, heffects', hreport'⟩ := e'.script_eq settings lang origin code
  obtain ⟨htrace, hwalk, hafter⟩ := (Runner.matches_observer hview
    settings.evaluateConditions).walk_eq (x := { room := e.room, effects := e.effects })
      (y := { room := e'.room, effects := e'.effects }) ⟨h.view_eq, rfl⟩
        settings.maxInstructions.toNat lang origin code
  refine ⟨hafter.view_eq, ?_, ?_⟩
  · rw [hreport, hreport', h.report_eq, hwalk]
  · rw [heffects, heffects', List.map_append, List.map_append, h.effects_eq, scriptTrace,
      scriptTrace, ← htrace, ← hlang, Observer.map_effects_trace]

theorem Alike.foldl_function {lang : Language} (hlang : lang.generation = g) (file : Bytes)
    (functions : List ScriptFunction) :
    (functions.foldl (fun e f ↦ e.function settings lang file f) e).Alike view g
      (functions.foldl (fun e f ↦ e.function settings lang file f) e') := by
  induction functions generalizing e e' with
  | nil => exact h
  | cons f functions ih => exact ih (h.script hview settings hlang _ _)

/-- A section of scripts does the same in both games, or the room has no such section. -/
theorem Alike.scriptSection (room : Room) (hroom : room.generation = g) (kind : ScriptKind) :
    EndAlike view g (e.scriptSection settings room kind) (e'.scriptSection settings room kind) := by
  rw [Execution.scriptSection, Execution.scriptSection]
  cases hsection : room.generation.scriptSection kind with
  | error reason => exact .error reason
  | ok s =>
    have hlang : s.language.generation = g := by
      rw [← hroom]
      exact Generation.generation_language hsection
    exact .ok (h.foldl_function hview settings hlang _ _)

/-- A room is loaded alike. -/
theorem Alike.load (room : Room) (hroom : room.generation = g) :
    EndAlike view g (e.load settings room) (e'.load settings room) :=
  (h.scriptSection hview settings room hroom .init).bind fun _ _ h ↦
    h.scriptSection hview settings room hroom .run

end Execution

end

/-! ## Sessions -/

/-- Something that can be run in a game. -/
inductive Task where
  | script (settings : Settings) (lang : Language) (origin : Nat) (code : Stretch)
  | function (settings : Settings) (lang : Language) (file : Bytes) (f : ScriptFunction)
  | scriptSection (settings : Settings) (room : Room) (kind : ScriptKind)
  | load (settings : Settings) (room : Room)

namespace Task

/-- The generation of what is run. -/
def generation : Task → Generation
  | script _ lang _ _ | function _ lang _ _ => lang.generation
  | scriptSection _ room _ | load _ room => room.generation

/-- Runs a task in a game. -/
def run (s : RoomState) (task : Task) : Except NoScriptSection Execution :=
  let start : Execution := { room := s }
  match task with
  | script settings lang origin code => .ok (start.script settings lang origin code)
  | function settings lang file f => .ok (start.function settings lang file f)
  | scriptSection settings room kind => start.scriptSection settings room kind
  | load settings room => start.load settings room

/-- **A task does the same in games with the same store.** -/
theorem endAlike_run {α : Type} {view : RoomState → α} (hview : RoomState.StoreView view)
    {s s' : RoomState} (h : view s = view s') (task : Task) :
    Execution.EndAlike view task.generation (task.run s) (task.run s') := by
  have hstart : Execution.Alike view task.generation { room := s } { room := s' } := ⟨h, rfl, rfl⟩
  cases task with
  | script settings lang origin code => exact .ok (hstart.script hview settings rfl origin code)
  | function settings lang file f => exact .ok (hstart.script hview settings rfl _ _)
  | scriptSection settings room kind => exact hstart.scriptSection hview settings room rfl kind
  | load settings room => exact hstart.load hview settings room rfl

end Task

/-- A run in a session, with what came of it. -/
structure Run where
  task : Task
  result : Except NoScriptSection Execution

/-- What a run tells about itself: its account and its effects, as far as these do not depend on the
stage. -/
def Run.told (run : Run) : Task × Except NoScriptSection (Report × List Effect) :=
  (run.task,
    run.result.map fun e ↦ (e.report, e.effects.toList.map run.task.generation.unstaged))

theorem Run.told_congr {α : Type} {view : RoomState → α} {task : Task}
    {result result' : Except NoScriptSection Execution}
    (h : Execution.EndAlike view task.generation result result') :
    Run.told ⟨task, result⟩ = Run.told ⟨task, result'⟩ := by
  cases h with
  | ok h => simp only [told, Except.map, h.report_eq, h.effects_eq]
  | error reason => rfl

/-- A game that is played, with the runs so far. -/
structure Session where
  room : RoomState
  /-- The earliest first. -/
  runs : List Run := []

namespace Session

/-- Something that is done in a session.  Looking at the game changes nothing and is no step. -/
inductive Step where
  | enterRoom (stage room : UInt8)
  | perform (effect : Effect)
  | run (task : Task)

/-- Whether a step stays in the room. -/
def Step.stays : Step → Bool
  | enterRoom .. => false
  | perform _ | run _ => true

/-- The session after a run.  What cannot be run leaves the game as it is. -/
def afterRun (s : Session) (run : Run) : Session where
  room :=
    match run.result with
    | .ok e => e.room
    | .error _ => s.room
  runs := s.runs ++ [run]

/-- The session after a step. -/
def step (s : Session) : Step → Session
  | .enterRoom stage room => { s with room := s.room.enterRoom stage room }
  | .perform effect => { s with room := s.room.perform effect }
  | .run task => s.afterRun ⟨task, task.run s.room⟩

/-- The session after some steps. -/
def play (s : Session) (steps : List Step) : Session := steps.foldl step s

section

variable {α : Type} {view : RoomState → α}

/-- What a session shows of its store and its runs. -/
def shown (view : RoomState → α) (s : Session) :
    α × List (Task × Except NoScriptSection (Report × List Effect)) :=
  (view s.room, s.runs.map Run.told)

theorem shown_afterRun {s s' : Session} (h : s.shown view = s'.shown view) {task : Task}
    {result result' : Except NoScriptSection Execution}
    (hresult : Execution.EndAlike view task.generation result result') :
    (s.afterRun ⟨task, result⟩).shown view = (s'.afterRun ⟨task, result'⟩).shown view := by
  obtain ⟨hstore, hruns⟩ := Prod.mk.inj h
  refine Prod.ext ?_ ?_
  · cases hresult with
    | ok h => exact h.view_eq
    | error reason => exact hstore
  · show (s.runs ++ [_]).map Run.told = (s'.runs ++ [_]).map Run.told
    rw [List.map_append, List.map_append, hruns, List.map_singleton, List.map_singleton,
      Run.told_congr hresult]

variable (hview : RoomState.StoreView view)
include hview

/-- Entering a room changes nothing that is shown. -/
theorem shown_enterRoom (s : Session) (stage room : UInt8) :
    (s.step (.enterRoom stage room)).shown view = s.shown view :=
  Prod.ext (hview.enterRoom_eq _ _ _) rfl

/-- **What a step shows depends on what was shown before.** -/
theorem shown_step {s s' : Session} (h : s.shown view = s'.shown view) (x : Step) :
    (s.step x).shown view = (s'.step x).shown view := by
  obtain ⟨hstore, hruns⟩ := Prod.mk.inj h
  match x with
  | .enterRoom stage room =>
    exact (shown_enterRoom hview s stage room).trans
      (h.trans (shown_enterRoom hview s' stage room).symm)
  | .perform effect => exact Prod.ext (hview.perform_eq hstore effect) hruns
  | .run task => exact shown_afterRun h (task.endAlike_run hview hstore)

/-- **A session shows the same without the rooms that are entered.** -/
theorem shown_play {s s' : Session} (h : s.shown view = s'.shown view) (steps : List Step) :
    (s.play steps).shown view = (s'.play (steps.filter Step.stays)).shown view := by
  induction steps generalizing s s' with
  | nil => exact h
  | cons x steps ih =>
    rw [List.filter_cons]
    match x with
    | .enterRoom stage room => exact ih ((shown_enterRoom hview s stage room).trans h)
    | .perform effect => exact ih (shown_step hview h _)
    | .run task => exact ih (shown_step hview h _)

/-- It does not matter which rooms are entered, and when. -/
theorem shown_play_of_filter_eq {s s' : Session} (h : s.shown view = s'.shown view)
    {steps steps' : List Step} (hsteps : steps.filter Step.stays = steps'.filter Step.stays) :
    (s.play steps).shown view = (s'.play steps').shown view := by
  rw [shown_play hview h steps, hsteps, ← shown_play hview rfl steps']

end

/-! ## Main statement -/

/-- **Rooms do not reach the store.**  Take two games with the same flags and variables and two
sessions that do the same, except that other rooms are entered, at other times or none at all.  Then
every run gives the same account in both, has the same effects but for the stages behind doors of
the first generation, or cannot be carried out in either; and the sessions end with the same flags
and variables.  If the flags and variables were not only equal but kept in the same cells, they
still are. -/
theorem play_ignores_rooms {steps steps' : List Step}
    (hsteps : steps.filter Step.stays = steps'.filter Step.stays) {s s' : RoomState}
    (hflag : ∀ array bit, s.flag array bit = s'.flag array bit)
    (hvar : ∀ id, s.var id = s'.var id) :
    let after := play { room := s } steps
    let after' := play { room := s' } steps'
    after.runs.map Run.told = after'.runs.map Run.told ∧
      (∀ array bit, after.room.flag array bit = after'.room.flag array bit) ∧
        (∀ id, after.room.var id = after'.room.var id) ∧
          (s.flags = s'.flags → s.vars = s'.vars →
            after.room.flags = after'.room.flags ∧ after.room.vars = after'.room.vars) := by
  intro after after'
  have hstore : s.store = s'.store :=
    Prod.ext (funext fun array ↦ funext fun bit ↦ hflag array bit) (funext hvar)
  have hstart : ({ room := s } : Session).shown RoomState.store
      = ({ room := s' } : Session).shown RoomState.store := Prod.ext hstore rfl
  obtain ⟨hafter, hruns⟩ :=
    Prod.mk.inj (shown_play_of_filter_eq RoomState.storeView_store hstart hsteps)
  obtain ⟨hflags, hvars⟩ := Prod.mk.inj hafter
  refine ⟨hruns, ?_, congrFun hvars, ?_⟩
  · intro array bit
    exact congrFun (congrFun hflags array) bit
  · intro hsflags hsvars
    have hcells : ({ room := s } : Session).shown RoomState.cells
        = ({ room := s' } : Session).shown RoomState.cells :=
      Prod.ext (Prod.ext hsflags hsvars) rfl
    have hplay := shown_play_of_filter_eq RoomState.storeView_cells hcells hsteps
    exact Prod.mk.inj (Prod.mk.inj hplay).1

/-- A conditional that tests a flag, and a script of the first generation that clears it and has a
door; in one session a room is entered in front of both, in the other one between them. -/
theorem play_ignores_rooms_door :
    let gated : Settings := { evaluateConditions := true }
    let conditional : Bytes := #[0x06, 0x00, 0x10, 0x00, 0x21, 0x04, 0x12, 0x01, 0x22, 0x01, 0x02,
      0x01, 0x2b, 0x00, 0x07, 0x00, 0x00, 0x00, 0x08, 0x00]
    let door : Bytes := #[0x05, 0x04, 0x12, 0x00, 0x0c, 0x01] ++ Array.replicate 13 0x00 ++ #[0x43]
      ++ Array.replicate 10 0x00
    let run : List Step :=
      [.run (.script gated .re2 0 conditional.whole), .run (.script gated .re1Scd 0 door.whole)]
    let steps : List Step := .enterRoom 2 3 :: run
    let steps' : List Step := run.intersperse (.enterRoom 5 0)
    let s : RoomState := { flags := [(4, BitVec.twoPow 256 0x12)] }
    let s' : RoomState := { s with stage := 9, room := 1, camera := 2, messages := #[1] }
    let after := play { room := s } steps
    let after' := play { room := s' } steps'
    steps.filter Step.stays = steps'.filter Step.stays ∧
      (∀ array bit, s.flag array bit = s'.flag array bit) ∧ (∀ id, s.var id = s'.var id) ∧
      after.runs.map Run.told = after'.runs.map Run.told ∧
      after.room.flags = after'.room.flags ∧ after.room.vars = after'.room.vars ∧
      after.room.flag 1 2 = true ∧ after.room.flag 4 0x12 = false ∧
      after.room.messages = #[7] ∧ after'.room.messages = #[] ∧
      after.room.doors.map (·.nextStage) = #[3] ∧
      after'.room.doors.map (·.nextStage) = #[6] := by
  intro gated conditional door run steps steps' s s' after after'
  have hsteps : steps.filter Step.stays = steps'.filter Step.stays := rfl
  have hflag : ∀ array bit, s.flag array bit = s'.flag array bit := fun _ _ ↦ rfl
  have hvar : ∀ id, s.var id = s'.var id := fun _ ↦ rfl
  obtain ⟨htold, -, -, hcells⟩ := play_ignores_rooms hsteps hflag hvar
  obtain ⟨hflags, hvars⟩ := hcells rfl rfl
  exact ⟨hsteps, hflag, hvar, htold, hflags, hvars, by decide +kernel, by decide +kernel,
    by decide +kernel, by decide +kernel, by decide +kernel, by decide +kernel⟩

end Session
end RoomScript
