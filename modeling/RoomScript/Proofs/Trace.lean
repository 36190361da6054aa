import RoomScript.Walk

/-!
# What an observer is asked and told

A walk talks to its observer: it shows instructions, asks in front of bodies and reports behind
them.  A `Trace` is a record of that conversation, with the answers, and most of what can be said
about walks is said about their traces.

* `Observer.trace` is the trace of a walk.  It is taken by an observer that does what another one
  does and writes everything down (`Observer.recorded`).
* `Observer.replay` is the state that an observer is in after a trace, and `Observer.Answers` says
  that the answers in a trace are the ones that the observer gives.
* `Trace.upTo n` is the part of a trace that comes before its instruction number `n`, counted from
  zero: what a ceiling of `n` instructions leaves of it.
* `Observer.follow` is a trace carried out under a ceiling.  It knows no nesting and no code, and
  `follow_eq` computes it: it is the replay of what the ceiling leaves.
-/

set_option autoImplicit false

namespace RoomScript

/-! ## Visits and callbacks -/

/-- An instruction as an observer sees it. -/
structure Visit where
  language : Language
  instruction : Instruction
  depth : Nat
  deriving DecidableEq, Repr

namespace Visit

/-- The place of the first byte. -/
def offset (v : Visit) : Nat := v.instruction.offset

/-- The bytes of the instruction. -/
def bytes (v : Visit) : List UInt8 := v.instruction.bytes.toList

/-- The place behind the last byte. -/
def stop (v : Visit) : Nat := v.offset + v.instruction.length

/-- The problem of an instruction that has fewer bytes than it asks for. -/
def truncation? (v : Visit) : Option Problem :=
  let wanted := v.language.length v.instruction.bytes.whole v.instruction.mode
  if v.instruction.length < wanted then
    some (.truncated v.offset wanted v.instruction.length)
  else none

end Visit

/-- What a walk says to its observer, with the answer where there is one. -/
inductive Callback where
  | visit (v : Visit) (goOn : Bool)
  | enter (i : Instruction) (kind : BodyKind) (depth : Nat) (entered : Bool)
  | leave (i : Instruction) (kind : BodyKind) (depth : Nat) (completed : Bool)
  deriving DecidableEq, Repr

/-- What was said, in order. -/
abbrev Trace := List Callback

namespace Trace

/-- The instructions that were seen. -/
def visits : Trace → List Visit
  | [] => []
  | .visit v _ :: t => v :: visits t
  | .enter .. :: t | .leave .. :: t => visits t

/-- What comes before the instruction number `n`, counted from zero. -/
def upTo : Nat → Trace → Trace
  | _, [] => []
  | 0, .visit .. :: _ => []
  | n + 1, .visit v goOn :: t => .visit v goOn :: upTo n t
  | n, .enter i kind depth entered :: t => .enter i kind depth entered :: upTo n t
  | n, .leave i kind depth completed :: t => .leave i kind depth completed :: upTo n t

/-- The problems of the instructions that were cut short. -/
def truncations (t : Trace) : List Problem := t.visits.filterMap Visit.truncation?

theorem truncations_visit (v : Visit) (goOn : Bool) (t : Trace) :
    truncations (.visit v goOn :: t) = v.truncation?.toList ++ truncations t := by
  cases h : v.truncation? <;> simp [truncations, visits, h]

@[simp]
theorem visits_append (t t' : Trace) : visits (t ++ t') = visits t ++ visits t' := by
  induction t with
  | nil => rfl
  | cons cb t ih => cases cb <;> simp [visits, ih]

@[simp]
theorem truncations_append (t t' : Trace) :
    truncations (t ++ t') = truncations t ++ truncations t' := by
  rw [truncations, visits_append, List.filterMap_append]
  rfl

theorem mem_visits_iff {v : Visit} {t : Trace} :
    v ∈ t.visits ↔ ∃ goOn, .visit v goOn ∈ t := by
  induction t with
  | nil => simp [visits]
  | cons cb t ih =>
    rcases cb with ⟨w, goOn⟩ | _ | _
    · simp only [visits, List.mem_cons, ih, Callback.visit.injEq, exists_or, exists_and_left,
        exists_eq, and_true]
    · simp [visits, ih]
    · simp [visits, ih]

/-! ### What a ceiling leaves -/

theorem upTo_eq_self {n : Nat} {t : Trace} (h : t.visits.length ≤ n) : t.upTo n = t := by
  fun_induction upTo n t with
  | case1 => rfl
  | case2 => simp [visits] at h
  | case3 n v goOn t ih => rw [ih (by simpa [visits] using h)]
  | case4 n i kind depth entered t ih => rw [ih h]
  | case5 n i kind depth completed t ih => rw [ih h]

theorem length_visits_upTo (n : Nat) (t : Trace) :
    (t.upTo n).visits.length = min n t.visits.length := by
  fun_induction upTo n t with
  | case1 => simp [visits]
  | case2 => simp [visits]
  | case3 n v goOn t ih =>
    simp only [visits, List.length_cons, ih]
    omega
  | case4 n i kind depth entered t ih => simpa only [visits] using ih
  | case5 n i kind depth completed t ih => simpa only [visits] using ih

/-- The lower one of two ceilings counts. -/
theorem upTo_upTo {n m : Nat} (h : n ≤ m) (t : Trace) : (t.upTo m).upTo n = t.upTo n := by
  fun_induction upTo m t generalizing n with
  | case1 => rfl
  | case2 =>
    rw [Nat.le_zero.1 h]
    rfl
  | case3 m v goOn t ih =>
    cases n with
    | zero => rfl
    | succ n => rw [upTo, upTo, ih (Nat.le_of_succ_le_succ h)]
  | case4 m i kind depth entered t ih => rw [upTo, upTo, ih h]
  | case5 m i kind depth completed t ih => rw [upTo, upTo, ih h]

/-- A ceiling leaves a first part. -/
theorem upTo_isPrefixOf (n : Nat) (t : Trace) : t.upTo n <+: t := by
  fun_induction upTo n t with
  | case1 => exact List.prefix_refl _
  | case2 => exact List.nil_prefix
  | case3 n v goOn t ih => exact (List.prefix_cons_inj _).2 ih
  | case4 n i kind depth entered t ih => exact (List.prefix_cons_inj _).2 ih
  | case5 n i kind depth completed t ih => exact (List.prefix_cons_inj _).2 ih

end Trace

namespace Observer

variable {σ : Type} (o : Observer σ)

/-! ## Observers and traces -/

/-- The state after a callback. -/
def react : Callback → σ → σ
  | .visit v _, x => (o.visit v.language v.instruction v.depth x).2
  | .enter i kind depth _, x => (o.enter i kind depth x).2
  | .leave i kind depth completed, x => o.leave i kind depth completed x

/-- The state after a trace. -/
def replay (t : Trace) (x : σ) : σ := t.foldl (fun x cb ↦ o.react cb x) x

/-- In state `x`, the answer of a callback is the answer of the observer. -/
def Gives : Callback → σ → Prop
  | .visit v goOn, x => (o.visit v.language v.instruction v.depth x).1 = goOn
  | .enter i kind depth entered, x => (o.enter i kind depth x).1 = entered
  | .leave .., _ => True

/-- From state `x` on, the answers of a trace are the answers of the observer. -/
def Answers : Trace → σ → Prop
  | [], _ => True
  | cb :: t, x => o.Gives cb x ∧ Answers t (o.react cb x)

@[simp]
theorem replay_nil (x : σ) : o.replay [] x = x := rfl

@[simp]
theorem replay_cons (cb : Callback) (t : Trace) (x : σ) :
    o.replay (cb :: t) x = o.replay t (o.react cb x) := rfl

@[simp]
theorem replay_append (t t' : Trace) (x : σ) :
    o.replay (t ++ t') x = o.replay t' (o.replay t x) := List.foldl_append

theorem answers_append {t t' : Trace} {x : σ} :
    o.Answers (t ++ t') x ↔ o.Answers t x ∧ o.Answers t' (o.replay t x) := by
  induction t generalizing x with
  | nil => simp [Answers]
  | cons cb t ih => simp [Answers, ih, and_assoc]

theorem Answers.of_isPrefixOf {t t' : Trace} {x : σ} (h : o.Answers t' x) (hp : t <+: t') :
    o.Answers t x := by
  obtain ⟨rest, rfl⟩ := hp
  exact ((o.answers_append).1 h).1

theorem Answers.exists_gives {o : Observer σ} {t : Trace} {x : σ} (h : o.Answers t x)
    {cb : Callback} (hcb : cb ∈ t) : ∃ y, o.Gives cb y := by
  induction t generalizing x with
  | nil => cases hcb
  | cons cb' t ih =>
    rcases List.mem_cons.1 hcb with rfl | hcb
    · exact ⟨x, h.1⟩
    · exact ih h.2 hcb

/-! ## Recording -/

/-- Does what `o` does, and writes everything down. -/
def recorded : Observer (σ × Trace) where
  visit lang i depth x :=
    let (goOn, y) := o.visit lang i depth x.1
    (goOn, y, x.2 ++ [.visit ⟨lang, i, depth⟩ goOn])
  enter i kind depth x :=
    let (entered, y) := o.enter i kind depth x.1
    (entered, y, x.2 ++ [.enter i kind depth entered])
  leave i kind depth completed x :=
    (o.leave i kind depth completed x.1, x.2 ++ [.leave i kind depth completed])

/-- The trace of a walk that starts in state `initial`. -/
def trace (limit : Nat) (lang : Language) (origin : Nat) (code : Stretch) (initial : σ) : Trace :=
  (o.recorded.walk limit lang origin code (initial, [])).1.2

theorem recorded_gives {cb : Callback} {x : σ} {t : Trace} :
    o.recorded.Gives cb (x, t) ↔ o.Gives cb x := by
  cases cb <;> rfl

theorem recorded_react {cb : Callback} {x : σ} (h : o.Gives cb x) (t : Trace) :
    o.recorded.react cb (x, t) = (o.react cb x, t ++ [cb]) := by
  cases cb with
  | visit v goOn =>
    cases h
    rfl
  | enter i kind depth entered =>
    cases h
    rfl
  | leave => rfl

/-- Writing things down changes no answers. -/
theorem recorded_answers {t : Trace} {x : σ} {t₀ : Trace} :
    o.recorded.Answers t (x, t₀) ↔ o.Answers t x := by
  induction t generalizing x t₀ with
  | nil => rfl
  | cons cb t ih =>
    refine and_congr o.recorded_gives ?_
    cases cb <;> exact ih

/-- What is written down while a trace is replayed is that trace. -/
theorem recorded_replay {t : Trace} {x : σ} (h : o.Answers t x) (t₀ : Trace) :
    o.recorded.replay t (x, t₀) = (o.replay t x, t₀ ++ t) := by
  induction t generalizing x t₀ with
  | nil => simp
  | cons cb t ih =>
    rw [replay_cons, replay_cons, o.recorded_react h.1, ih h.2, List.append_assoc]
    rfl

/-! ## A trace under a ceiling -/

/-- The walk after a callback. -/
def meet (cb : Callback) (p : Progress σ) : Progress σ :=
  match cb with
  | .visit v _ =>
    { observer := o.react cb p.observer
      instructions := p.instructions + 1
      problems := p.problems ++ v.truncation?.toArray }
  | .enter .. | .leave .. => { p with observer := o.react cb p.observer }

theorem observer_meet (cb : Callback) (p : Progress σ) :
    (o.meet cb p).observer = o.react cb p.observer := by
  cases cb <;> rfl

/-- Carries out a trace under a ceiling.  The flag says whether the ceiling was reached. -/
def follow (limit : Nat) : Trace → Progress σ → Bool × Progress σ
  | [], p => (false, p)
  | .visit v goOn :: t, p =>
    if limit ≤ p.instructions then (true, p.note (.instructionLimit limit))
    else follow limit t (o.meet (.visit v goOn) p)
  | .enter i kind depth entered :: t, p => follow limit t (o.meet (.enter i kind depth entered) p)
  | .leave i kind depth completed :: t, p =>
    follow limit t (o.meet (.leave i kind depth completed) p)

theorem follow_append (limit : Nat) (t t' : Trace) (p : Progress σ) :
    o.follow limit (t ++ t') p =
      if (o.follow limit t p).1 = true then o.follow limit t p
      else o.follow limit t' (o.follow limit t p).2 := by
  induction t generalizing p with
  | nil => rfl
  | cons cb t ih =>
    cases cb with
    | visit v goOn =>
      simp only [List.cons_append, follow]
      by_cases hlimit : limit ≤ p.instructions
      · simp [hlimit]
      · simp only [if_neg hlimit, ih]
    | enter => exact ih _
    | leave => exact ih _

/-- As long as the ceiling is not reached, following a trace is replaying it. -/
theorem observer_follow {limit : Nat} {t : Trace} {p : Progress σ}
    (h : (o.follow limit t p).1 = false) :
    (o.follow limit t p).2.observer = o.replay t p.observer := by
  induction t generalizing p with
  | nil => rfl
  | cons cb t ih =>
    cases cb with
    | visit v goOn =>
      rw [follow] at h ⊢
      by_cases hlimit : limit ≤ p.instructions
      · simp [hlimit] at h
      · rw [if_neg hlimit] at h ⊢
        exact ih h
    | enter => exact ih h
    | leave => exact ih h

/-- **What a ceiling makes of a trace.**  With room for `n` more instructions, everything that
comes before instruction number `n` is carried out, and only that. -/
theorem follow_eq (limit : Nat) (t : Trace) (p : Progress σ) (n : Nat)
    (hn : p.instructions + n = limit) :
    o.follow limit t p =
      (decide (n < t.visits.length),
        { observer := o.replay (t.upTo n) p.observer
          instructions := p.instructions + min n t.visits.length
          problems := p.problems ++ (t.upTo n).truncations.toArray
            ++ if n < t.visits.length then #[Problem.instructionLimit limit] else #[] }) := by
  induction t generalizing p n with
  | nil => simp [follow, Trace.upTo, Trace.visits, Trace.truncations]
  | cons cb t ih =>
    cases cb with
    | visit v goOn =>
      cases n with
      | zero =>
        have hlimit : limit ≤ p.instructions := by omega
        simp [follow, hlimit, Progress.note, Trace.upTo, Trace.visits, Trace.truncations]
      | succ n =>
        have hlimit : ¬ limit ≤ p.instructions := by omega
        have htruncation : v.truncation?.toArray = v.truncation?.toList.toArray := by simp
        rw [follow, if_neg hlimit, ih _ n (by simp only [meet]; omega)]
        simp only [meet, Trace.visits, Trace.upTo, Trace.truncations_visit, List.length_cons,
          Nat.add_lt_add_iff_right, Nat.add_min_add_right, htruncation, List.append_toArray,
          Array.append_assoc, Nat.add_assoc, Nat.add_comm 1, replay_cons]
    | enter i kind depth entered =>
      rw [follow, ih (o.meet (.enter i kind depth entered) p) n hn]
      rfl
    | leave i kind depth completed =>
      rw [follow, ih (o.meet (.leave i kind depth completed) p) n hn]
      rfl

end Observer
end RoomScript
