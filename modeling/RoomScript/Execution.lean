import RoomScript.RoomState
import RoomScript.Settings
import RoomScript.Walk

/-!
# Running scripts

A script runs against a `RoomState`: each instruction is carried out as the walk comes to it.
There is no jumping, and loops run once; calls are not followed.

Unless settings say otherwise, bodies run whatever the flags are.  With evaluation of conditions, a
flag test that fails gives up the body that it sits in — at the outermost level it gives up
nothing — and the body of an `else` is passed over if the last `if` that was closed at its depth
ran to its end.  What is remembered about an `if` is used up by the `else`, and forgotten when
another `if` opens at that depth; it is kept by depth alone.

`Execution` is a run under way: the state reached, the effects carried out so far, and the account
of the walks.
-/

set_option autoImplicit false

namespace RoomScript

/-! ## Asking -/

/-- The answer of an action that asks, and `none` for any other.  Asking changes no flag, so it does
not matter whether the action was carried out before. -/
def RoomState.answer? (s : RoomState) : Action → Option Bool
  | .test array bit expected => some (s.flag array bit = expected)
  | _ => none

/-! ## What a run remembers -/

/-- How the last `if` that was closed at each depth ended: whether its body ran to the end. -/
abbrev Outcomes := Array (Option Bool)

namespace Outcomes

/-- What is remembered at a depth. -/
def get (outcomes : Outcomes) (depth : Nat) : Option Bool := outcomes[depth]?.join

/-- Remembers an outcome at a depth, or forgets it. -/
def set (outcomes : Outcomes) (depth : Nat) (outcome : Option Bool) : Outcomes :=
  if h : depth < outcomes.size then Array.set outcomes depth outcome h
  else (outcomes ++ Array.replicate (depth - outcomes.size) none).push outcome

/-- Remembering at one depth changes nothing at the others. -/
theorem get_set (outcomes : Outcomes) (depth : Nat) (outcome : Option Bool) (other : Nat) :
    (outcomes.set depth outcome).get other
      = if depth = other then outcome else outcomes.get other := by
  unfold set get
  split
  · next h =>
    rw [Array.getElem?_set]
    split <;> simp_all
  · next h =>
    have hle : outcomes.size ≤ depth := Nat.le_of_not_lt h
    rw [Array.getElem?_push]
    have hsize : (outcomes ++ Array.replicate (depth - outcomes.size) (none : Option Bool)).size
        = depth := by
      simp only [Array.size_append, Array.size_replicate]
      omega
    rw [hsize]
    by_cases he : other = depth
    · simp [he]
    · rw [if_neg he, if_neg (Ne.symm he)]
      by_cases hlt : other < outcomes.size
      · rw [Array.getElem?_append_left hlt]
      · have hge : outcomes.size ≤ other := Nat.le_of_not_lt hlt
        rw [Array.getElem?_append_right hge, Array.getElem?_eq_none hge, Array.getElem?_replicate]
        split <;> rfl

end Outcomes

/-- The state of the observer that runs a script. -/
structure Runner where
  room : RoomState
  /-- The effects carried out, the earliest first. -/
  effects : Array Effect := #[]
  outcomes : Outcomes := #[]

namespace Runner

/-- Carries an action out, and keeps its effect. -/
def act (r : Runner) (action : Action) : Runner :=
  match action.effect? with
  | some effect => { r with room := r.room.perform effect, effects := r.effects.push effect }
  | none => r

/-- Remembers how an `if` at a depth ended. -/
def remember (r : Runner) (depth : Nat) (outcome : Option Bool) : Runner :=
  { r with outcomes := r.outcomes.set depth outcome }

/-- The observer that runs a script. -/
def observer (evaluate : Bool) : Observer Runner where
  visit lang i depth r :=
    let action := lang.action i r.room.stage
    let r := r.act action
    (!(evaluate && 0 < depth && r.room.answer? action = some false), r)
  enter _ kind depth r :=
    match kind with
    | .thenBody => (true, r.remember depth none)
    | .elseBody =>
      if evaluate then (r.outcomes.get depth ≠ some true, r.remember depth none) else (true, r)
    | _ => (true, r)
  leave _ kind depth completed r :=
    match kind with
    | .thenBody => r.remember depth (some completed)
    | _ => r

end Runner

/-! ## Scripts and functions -/

/-- A run of some scripts, one after the other. -/
structure Execution where
  room : RoomState
  effects : Array Effect := #[]
  report : Report := {}

namespace Execution

/-- Runs one more script, which starts at offset `origin`. -/
def script (e : Execution) (settings : Settings) (lang : Language) (origin : Nat) (code : Stretch) :
    Execution :=
  match e with
  | ⟨room, effects, before⟩ =>
    let (runner, report) :=
      (Runner.observer settings.evaluateConditions).walk settings.maxInstructions.toNat lang origin
        code { room, effects }
    { room := runner.room, effects := runner.effects, report := before ++ report }

/-- Runs a function of the room file `file`. -/
def function (e : Execution) (settings : Settings) (lang : Language) (file : Bytes)
    (f : ScriptFunction) : Execution :=
  e.script settings lang f.entryOffset.toNat (f.code file)

end Execution
end RoomScript
