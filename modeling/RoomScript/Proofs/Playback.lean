import RoomScript.Proofs.Outline

/-!
# A walk is a conversation about an outline

A walk says things to its observer and goes on by the answers.  Written down, this is a conversation
(`Trace`).  Which conversations there can be is a matter of the outline of the script, and which one
it is, of the observer.

## What is here

* `Outline.Runs` — which conversations about an outline are possible: what follows what, given the
  answers.  There is no observer in it, and no ceiling.
* `Observer.exists_runs` — an observer picks one of these conversations, by its answers
  (`Observer.Answers`), and it always picks one.
* `Observer.Thorough` — an observer that never gives up and enters every body.  The conversation
  that it picks is `Outline.callbacks` (`Observer.Thorough.answers_callbacks`).
* `Observer.level_eq_carry` — a level goes through the conversation that its observer picks, as far
  as the ceiling lets it.
* `Observer.exists_trace` — the same for a walk: there is one conversation, and under every ceiling
  the walk is what the ceiling leaves of it.  This is how all that follows learns about walks.
* `Observer.Matches.walk_eq` — observers that answer alike take part in the same walk.

A conversation cannot be read off a walk, as a walk that reached its ceiling does not tell what
would have come.  So it is the other way around: the conversation comes from the outline, and the
walk is a first part of it.
-/

set_option autoImplicit false

namespace RoomScript

/-! ## Conversations -/

/-- The conversation `t` is possible about an outline whose own instructions are `depth` levels
deep; `completed` says whether the outline was gone through to its end. -/
inductive Outline.Runs : Outline → (depth : Nat) → (t : Trace) → (completed : Bool) → Prop
  /-- There is nothing left to say. -/
  | done {depth offset : Nat} {unread : List UInt8} : Runs (.done offset unread) depth [] true
  /-- The observer gives the level up. -/
  | stop {depth : Nat} {lang : Language} {i : Instruction} {inner body next : Outline}
      {kind? : Option BodyKind} :
      Runs (.step lang i inner kind? body next) depth [.visit ⟨lang, i, depth⟩ false] false
  /-- An instruction that opens no body. -/
  | plain {depth : Nat} {lang : Language} {i : Instruction} {inner body next : Outline}
      {t₁ t₂ t₃ : Trace} {b₁ b₂ b₃ : Bool} (hinner : inner.Runs (depth + 1) t₁ b₁)
      (hbody : body.Runs (depth + 1) t₂ b₂) (hnext : next.Runs depth t₃ b₃) :
      Runs (.step lang i inner none body next) depth
        (.visit ⟨lang, i, depth⟩ true :: (t₁ ++ (t₂ ++ t₃))) b₃
  /-- The observer passes over the body. -/
  | pass {depth : Nat} {lang : Language} {i : Instruction} {inner body next : Outline}
      {kind : BodyKind} {t₁ t₃ : Trace} {b₁ b₃ : Bool} (hinner : inner.Runs (depth + 1) t₁ b₁)
      (hnext : next.Runs depth t₃ b₃) :
      Runs (.step lang i inner (some kind) body next) depth
        (.visit ⟨lang, i, depth⟩ true :: (t₁ ++ .enter i kind depth false :: t₃)) b₃
  /-- The body is walked. -/
  | enter {depth : Nat} {lang : Language} {i : Instruction} {inner body next : Outline}
      {kind : BodyKind} {t₁ t₂ t₃ : Trace} {b₁ b₂ b₃ : Bool}
      (hinner : inner.Runs (depth + 1) t₁ b₁) (hbody : body.Runs (depth + 1) t₂ b₂)
      (hnext : next.Runs depth t₃ b₃) :
      Runs (.step lang i inner (some kind) body next) depth
        (.visit ⟨lang, i, depth⟩ true ::
          (t₁ ++ .enter i kind depth true :: (t₂ ++ .leave i kind depth b₂ :: t₃))) b₃

namespace Outline

/-- Whoever goes on and enters every time hears everything. -/
theorem runs_callbacks (O : Outline) (depth : Nat) : O.Runs depth (O.callbacks depth) true := by
  induction O generalizing depth with
  | done => exact .done
  | step lang i inner kind? body next ihinner ihbody ihnext =>
    rw [callbacks]
    cases kind? with
    | none => exact .plain (ihinner _) (ihbody _) (ihnext _)
    | some kind =>
      simp only [framed, List.cons_append, List.append_assoc]
      exact .enter (ihinner _) (ihbody _) (ihnext _)

theorem Runs.of_size_eq_zero {lang : Language} {c : Cursor} {depth : Nat} {t : Trace}
    {completed : Bool} (h : (lang.outline c).Runs depth t completed) (hc : c.rest.size = 0) :
    t = [] := by
  rw [Language.outline_of_size_eq_zero hc] at h
  cases h
  rfl

end Outline

/-! ## Observers in conversation -/

namespace Observer

variable {σ : Type} (o : Observer σ)

/-- An observer that never gives up a level and never passes over a body. -/
structure Thorough : Prop where
  visit : ∀ lang i depth x, (o.visit lang i depth x).1 = true
  enter : ∀ i kind depth x, (o.enter i kind depth x).1 = true

/-- Counts instructions, and goes through everything. -/
def counting : Observer Nat where
  visit _ _ _ n := (true, n + 1)
  enter _ _ _ n := (true, n)
  leave _ _ _ _ n := n

theorem thorough_counting : counting.Thorough where
  visit _ _ _ _ := rfl
  enter _ _ _ _ := rfl

/-- **Every observer leads a conversation about every outline.** -/
theorem exists_runs (O : Outline) (depth : Nat) (x : σ) :
    ∃ t completed, O.Runs depth t completed ∧ o.Answers t x := by
  induction O generalizing depth x with
  | done => exact ⟨[], true, .done, trivial⟩
  | step lang i inner kind? body next ihinner ihbody ihnext =>
    cases hvisit : (o.visit lang i depth x).1 with
    | false => exact ⟨_, _, .stop, hvisit, trivial⟩
    | true =>
      obtain ⟨t₁, b₁, hinner, ht₁⟩ := ihinner (depth + 1) (o.visit lang i depth x).2
      cases kind? with
      | none =>
        obtain ⟨t₂, b₂, hbody, ht₂⟩ := ihbody (depth + 1) (o.replay t₁ (o.visit lang i depth x).2)
        obtain ⟨t₃, b₃, hnext, ht₃⟩ :=
          ihnext depth (o.replay t₂ (o.replay t₁ (o.visit lang i depth x).2))
        refine ⟨_, _, .plain hinner hbody hnext, hvisit, ?_⟩
        exact (o.answers_append).2 ⟨ht₁, (o.answers_append).2 ⟨ht₂, ht₃⟩⟩
      | some kind =>
        cases henter : (o.enter i kind depth (o.replay t₁ (o.visit lang i depth x).2)).1 with
        | false =>
          obtain ⟨t₃, b₃, hnext, ht₃⟩ :=
            ihnext depth (o.enter i kind depth (o.replay t₁ (o.visit lang i depth x).2)).2
          refine ⟨_, _, .pass hinner hnext, hvisit, ?_⟩
          exact (o.answers_append).2 ⟨ht₁, henter, ht₃⟩
        | true =>
          obtain ⟨t₂, b₂, hbody, ht₂⟩ := ihbody (depth + 1)
            (o.enter i kind depth (o.replay t₁ (o.visit lang i depth x).2)).2
          obtain ⟨t₃, b₃, hnext, ht₃⟩ := ihnext depth (o.leave i kind depth b₂
            (o.replay t₂ (o.enter i kind depth (o.replay t₁ (o.visit lang i depth x).2)).2))
          refine ⟨_, _, .enter hinner hbody hnext, hvisit, ?_⟩
          exact (o.answers_append).2 ⟨ht₁, henter, (o.answers_append).2 ⟨ht₂, trivial, ht₃⟩⟩

/-- A thorough observer hears everything. -/
theorem Thorough.answers_callbacks {o : Observer σ} (ho : o.Thorough) (O : Outline) (depth : Nat)
    (x : σ) : o.Answers (O.callbacks depth) x := by
  induction O generalizing depth x with
  | done => trivial
  | step lang i inner kind? body next ihinner ihbody ihnext =>
    refine ⟨ho.visit _ _ _ _, (o.answers_append).2 ⟨ihinner _ _, (o.answers_append).2 ⟨?_, ?_⟩⟩⟩
    · cases kind? with
      | none => exact ihbody _ _
      | some kind =>
        exact ⟨ho.enter _ _ _ _, (o.answers_append).2 ⟨ihbody _ _, trivial, trivial⟩⟩
    · exact ihnext _ _

end Observer

/-! ## The walk of a level -/

/-- How a level ended, by whether the ceiling was reached and whether it was walked to its end. -/
def Ending.of (halted completed : Bool) : Ending :=
  if halted then .halted else if completed then .completed else .stopped

theorem Ending.of_eq_completed (completed : Bool) :
    decide (Ending.of false completed = .completed) = completed := by
  cases completed <;> rfl

namespace Progress

variable {σ : Type}

/-- Goes on after a level, unless the walk is over. -/
def andThen (r : Ending × Progress σ) (k : Ending → Progress σ → Ending × Progress σ) :
    Ending × Progress σ :=
  if r.1 = .halted then (.halted, r.2) else k r.1 r.2

end Progress

open Progress

namespace Observer

variable {σ : Type} (o : Observer σ) (limit : Nat)

/-- A trace carried out under a ceiling, as the walk of a level that is `completed` at its end. -/
def carry (t : Trace) (completed : Bool) (p : Progress σ) : Ending × Progress σ :=
  (Ending.of (o.follow limit t p).1 completed, (o.follow limit t p).2)

theorem carry_visit (v : Visit) (goOn : Bool) (t : Trace) (b : Bool) (p : Progress σ) :
    o.carry limit (.visit v goOn :: t) b p =
      if limit ≤ p.instructions then (.halted, p.note (.instructionLimit limit))
      else o.carry limit t b (o.meet (.visit v goOn) p) := by
  rw [carry, follow]
  split <;> rfl

/-- The first part of a trace is carried out first, and decides in which state the second part
is. -/
theorem carry_append {t t' : Trace} {b b' : Bool} {p : Progress σ}
    {k : Ending → Progress σ → Ending × Progress σ}
    (hk : ∀ p', p'.observer = o.replay t p.observer →
      k (Ending.of false b') p' = o.carry limit t' b p') :
    andThen (o.carry limit t b' p) k = o.carry limit (t ++ t') b p := by
  rw [carry, carry, follow_append]
  cases hhalted : (o.follow limit t p).1 with
  | true =>
    rw [if_pos rfl, hhalted]
    rfl
  | false =>
    have hof : Ending.of false b' ≠ .halted := by cases b' <;> decide
    rw [andThen, if_neg hof, hk _ (o.observer_follow hhalted)]
    rfl

variable {lang : Language} {c : Cursor} {s : Step}

/-- Counting an instruction and showing it to the observer is meeting the visit. -/
theorem ask_visit (hs : c.step? lang = some s) (depth : Nat) (p : Progress σ) (goOn : Bool) :
    (p.count s).ask (o.visit lang s.instruction depth) =
      ((o.visit lang s.instruction depth p.observer).1,
        o.meet (.visit ⟨lang, s.instruction, depth⟩ goOn) p) := by
  have htruncated := Cursor.truncated_iff hs
  rw [Progress.count]
  by_cases ht : s.isTruncated = true
  · have hlt : s.instruction.length < s.wanted := by simpa [Step.isTruncated] using ht
    simp [ht, Progress.ask, Progress.note, meet, react, Visit.truncation?, Visit.offset, hlt,
      Cursor.length_bytes_of_truncated hs ht]
  · simp [ht, Progress.ask, meet, react, Visit.truncation?, mt htruncated.2 ht]

theorem fragment_eq_inner (depth : Nat) (p : Progress σ) :
    o.fragment limit lang depth s.instruction p =
      o.level limit (s.inner lang).1 (depth + 1) (s.inner lang).2 p := by
  cases hf : lang.fragment? s.instruction with
  | none =>
    have hnone : (s.next.body 0).step? lang = none := by
      rw [Cursor.step?_eq_none_iff]
      exact Language.length_eq_zero (by simp [Cursor.body])
    simp only [fragment, Step.inner, hf, o.level_eq_of_none limit (depth + 1) p hnone]
  | some f => simp only [fragment, Step.inner, hf]

/-- A level, unfolded by one instruction, in terms of the parts that an outline has. -/
theorem level_eq_of_step (hs : c.step? lang = some s) (depth : Nat) (p : Progress σ) :
    o.level limit lang depth c p =
      if limit ≤ p.instructions then (.halted, p.note (.instructionLimit limit))
      else if (o.visit lang s.instruction depth p.observer).1 then
        andThen (o.level limit (s.inner lang).1 (depth + 1) (s.inner lang).2
          (o.meet (.visit ⟨lang, s.instruction, depth⟩ true) p)) fun _ p ↦
            match (s.opened lang).1 with
            | none => o.level limit lang depth (s.after lang) p
            | some kind =>
              if (o.enter s.instruction kind depth p.observer).1 then
                andThen (o.level limit lang (depth + 1) (s.body lang)
                  (o.meet (.enter s.instruction kind depth true) p)) fun ending p ↦
                    o.level limit lang depth (s.after lang)
                      (o.meet (.leave s.instruction kind depth (ending = .completed)) p)
              else
                o.level limit lang depth (s.after lang)
                  (o.meet (.enter s.instruction kind depth false) p)
      else (.stopped, o.meet (.visit ⟨lang, s.instruction, depth⟩ false) p) := by
  rw [o.level_eq_of_some limit depth p hs, Step.body, Step.after, Step.opened]
  simp only [o.ask_visit hs depth p true, o.fragment_eq_inner]
  cases lang.body? s.instruction s.next.rest with
  | none =>
    have hskip : s.next.Agrees (s.next.skip 0) :=
      ⟨by simp [Cursor.skip], by simp [Cursor.skip, Subarray.toList_drop], rfl⟩
    simp only [o.level_congr limit depth _ hskip]
    rfl
  | some b => rfl

/-- **A level goes through the conversation that its observer picks**, as far as the ceiling lets
it. -/
theorem level_eq_carry {O : Outline} {depth : Nat} {t : Trace} {completed : Bool}
    (h : O.Runs depth t completed) {lang : Language} {c : Cursor} (hO : lang.outline c = O)
    {p : Progress σ} (ht : o.Answers t p.observer) :
    o.level limit lang depth c p = o.carry limit t completed p := by
  induction h generalizing lang c p with
  | done => rw [o.level_eq_of_none limit _ p (Language.outline_eq_done hO)]; rfl
  | stop =>
    obtain ⟨s, hs, rfl, rfl, -⟩ := Language.outline_eq_step hO
    obtain ⟨hvisit, -⟩ := ht
    rw [o.level_eq_of_step limit hs, carry_visit]
    refine congrArg (ite _ _) ?_
    rw [if_neg (by simp [show _ = false from hvisit])]
    rfl
  | @plain _ _ _ _ _ _ t₁ t₂ t₃ _ _ _ _ hbody _ ihinner _ ihnext =>
    obtain ⟨s, hs, rfl, rfl, hkind, hinner', hbody', hnext'⟩ := Language.outline_eq_step hO
    -- a body of no kind is empty, and there is nothing to say about it
    have ht₂ : t₂ = [] := by
      rw [← hbody'] at hbody
      refine hbody.of_size_eq_zero ?_
      rw [← Subarray.length_toList, (s.opened_eq _).2 hkind.symm]
      rfl
    rw [ht₂, List.nil_append] at ht ⊢
    obtain ⟨hvisit, htail⟩ := ht
    obtain ⟨ht₁, ht₃⟩ := (o.answers_append).1 htail
    rw [o.level_eq_of_step limit hs, carry_visit]
    refine congrArg (ite _ _) ?_
    rw [if_pos (show _ = true from hvisit), ihinner hinner' ht₁]
    refine o.carry_append limit fun p' hp' ↦ ?_
    rw [← hkind]
    exact ihnext hnext' (by rw [hp', observer_meet]; exact ht₃)
  | pass _ _ ihinner ihnext =>
    obtain ⟨s, hs, rfl, rfl, hkind, hinner', -, hnext'⟩ := Language.outline_eq_step hO
    obtain ⟨hvisit, htail⟩ := ht
    obtain ⟨ht₁, henter, ht₃⟩ := (o.answers_append).1 htail
    rw [o.level_eq_of_step limit hs, carry_visit]
    refine congrArg (ite _ _) ?_
    rw [if_pos (show _ = true from hvisit), ihinner hinner' ht₁]
    refine o.carry_append limit fun p' hp' ↦ ?_
    rw [observer_meet] at hp'
    rw [← hp'] at henter ht₃
    simp only [← hkind]
    rw [if_neg (by simp [show _ = false from henter])]
    exact ihnext hnext' ht₃
  | @enter _ _ _ _ _ _ _ _ _ _ _ b₂ _ _ _ _ ihinner ihbody ihnext =>
    obtain ⟨s, hs, rfl, rfl, hkind, hinner', hbody', hnext'⟩ := Language.outline_eq_step hO
    obtain ⟨hvisit, htail⟩ := ht
    obtain ⟨ht₁, henter, htail⟩ := (o.answers_append).1 htail
    rw [o.level_eq_of_step limit hs, carry_visit]
    refine congrArg (ite _ _) ?_
    rw [if_pos (show _ = true from hvisit), ihinner hinner' ht₁]
    refine o.carry_append limit fun p' hp' ↦ ?_
    rw [observer_meet] at hp'
    rw [← hp'] at henter htail
    obtain ⟨ht₂, -, ht₃⟩ := (o.answers_append).1 htail
    simp only [← hkind]
    rw [if_pos (show _ = true from henter), ihbody hbody' ht₂]
    refine o.carry_append limit fun p'' hp'' ↦ ?_
    rw [Ending.of_eq_completed]
    exact ihnext hnext' (by rw [observer_meet, hp'', observer_meet]; exact ht₃)

end Observer

/-! ## Walks and their traces -/

/-- What is reported of a trace that is cut off by a ceiling. -/
def Trace.report (limit : Nat) (t : Trace) : Report where
  instructions := min limit t.visits.length
  problems := (t.upTo limit).truncations.toArray
    ++ if limit < t.visits.length then #[.instructionLimit limit] else #[]

namespace Observer

variable {σ : Type} {o : Observer σ} {lang : Language} {origin : Nat} {code : Stretch} {x : σ}
  {t : Trace} {completed : Bool}

/-- **A walk is what its ceiling leaves of the conversation that the observer picks.** -/
theorem walk_eq (h : (lang.outline (.start origin code)).Runs 0 t completed) (ht : o.Answers t x)
    (limit : Nat) :
    o.walk limit lang origin code x = (o.replay (t.upTo limit) x, t.report limit) := by
  rw [walk, o.level_eq_carry limit h rfl ht, carry, o.follow_eq limit t _ limit (Nat.zero_add _)]
  simp [Progress.report, Trace.report]

/-- The trace that is taken of a walk is that part of the conversation. -/
theorem trace_eq (h : (lang.outline (.start origin code)).Runs 0 t completed)
    (ht : o.Answers t x) (limit : Nat) : o.trace limit lang origin code x = t.upTo limit := by
  rw [trace, walk_eq h (o.recorded_answers.2 ht)]
  rw [o.recorded_replay (Answers.of_isPrefixOf o ht (Trace.upTo_isPrefixOf limit t)) []]
  rfl

variable (o lang origin code x) in
/-- There is one conversation for all ceilings. -/
theorem exists_trace :
    ∃ t completed, (lang.outline (.start origin code)).Runs 0 t completed ∧ o.Answers t x ∧
      (∀ limit, o.trace limit lang origin code x = t.upTo limit) ∧
        ∀ limit, o.walk limit lang origin code x =
          (o.replay (t.upTo limit) x, t.report limit) := by
  obtain ⟨t, completed, h, ht⟩ := o.exists_runs (lang.outline (.start origin code)) 0 x
  exact ⟨t, completed, h, ht, trace_eq h ht, walk_eq h ht⟩

/-- Writing things down changes neither what a walk does to the observer nor what it reports. -/
theorem walk_recorded (limit : Nat) :
    o.recorded.walk limit lang origin code (x, []) =
      (((o.walk limit lang origin code x).1, o.trace limit lang origin code x),
        (o.walk limit lang origin code x).2) := by
  obtain ⟨t, completed, h, ht, htrace, hwalk⟩ := exists_trace o lang origin code x
  rw [walk_eq h (o.recorded_answers.2 ht), htrace, hwalk]
  rw [o.recorded_replay (Answers.of_isPrefixOf o ht (Trace.upTo_isPrefixOf limit t)) []]
  rfl

/-- The answers that are written down are the answers of the observer. -/
theorem answers_trace (limit : Nat) :
    o.Answers (o.trace limit lang origin code x) x := by
  obtain ⟨t, completed, h, ht, htrace, -⟩ := exists_trace o lang origin code x
  rw [htrace]
  exact Answers.of_isPrefixOf o ht (Trace.upTo_isPrefixOf limit t)

/-- A thorough observer takes part in the conversation that leaves nothing out. -/
theorem Thorough.trace_eq (ho : o.Thorough) (limit : Nat) :
    o.trace limit lang origin code x =
      Trace.upTo limit ((lang.outline (.start origin code)).callbacks 0) :=
  Observer.trace_eq (Outline.runs_callbacks _ 0) (ho.answers_callbacks _ 0 x) limit

theorem Thorough.walk_eq (ho : o.Thorough) (limit : Nat) :
    o.walk limit lang origin code x =
      (o.replay (Trace.upTo limit ((lang.outline (.start origin code)).callbacks 0)) x,
        Trace.report limit ((lang.outline (.start origin code)).callbacks 0)) :=
  Observer.walk_eq (Outline.runs_callbacks _ 0) (ho.answers_callbacks _ 0 x) limit

/-! ## Observers that answer alike -/

section

variable {σ τ : Type} {o : Observer σ} {o' : Observer τ} {R : σ → τ → Prop}

/-- In states that `R` relates, `o` and `o'` give the same answers, and get into states that `R`
relates. -/
structure Matches (o : Observer σ) (o' : Observer τ) (R : σ → τ → Prop) : Prop where
  visit : ∀ lang i depth {x y}, R x y →
    (o.visit lang i depth x).1 = (o'.visit lang i depth y).1 ∧
      R (o.visit lang i depth x).2 (o'.visit lang i depth y).2
  enter : ∀ i kind depth {x y}, R x y →
    (o.enter i kind depth x).1 = (o'.enter i kind depth y).1 ∧
      R (o.enter i kind depth x).2 (o'.enter i kind depth y).2
  leave : ∀ i kind depth completed {x y}, R x y →
    R (o.leave i kind depth completed x) (o'.leave i kind depth completed y)

namespace Matches

variable (h : o.Matches o' R) {x : σ} {y : τ} (hxy : R x y)
include h hxy

theorem react (cb : Callback) : R (o.react cb x) (o'.react cb y) := by
  cases cb with
  | visit v goOn => exact (h.visit _ _ _ hxy).2
  | enter i kind depth entered => exact (h.enter _ _ _ hxy).2
  | leave i kind depth completed => exact h.leave _ _ _ _ hxy

theorem gives_iff (cb : Callback) : o.Gives cb x ↔ o'.Gives cb y := by
  cases cb with
  | visit v goOn => rw [Gives, Gives, (h.visit _ _ _ hxy).1]
  | enter i kind depth entered => rw [Gives, Gives, (h.enter _ _ _ hxy).1]
  | leave i kind depth completed => exact Iff.rfl

theorem replay (t : Trace) : R (o.replay t x) (o'.replay t y) := by
  induction t generalizing x y with
  | nil => exact hxy
  | cons cb t ih => exact ih (h.react hxy cb)

theorem answers_iff (t : Trace) : o.Answers t x ↔ o'.Answers t y := by
  induction t generalizing x y with
  | nil => exact Iff.rfl
  | cons cb t ih => exact and_congr (h.gives_iff hxy cb) (ih (h.react hxy cb))

/-- **Observers that answer alike take part in the same walk.** -/
theorem walk_eq (limit : Nat) (lang : Language) (origin : Nat) (code : Stretch) :
    o.trace limit lang origin code x = o'.trace limit lang origin code y ∧
      (o.walk limit lang origin code x).2 = (o'.walk limit lang origin code y).2 ∧
        R (o.walk limit lang origin code x).1 (o'.walk limit lang origin code y).1 := by
  obtain ⟨t, completed, hruns, ht⟩ := o.exists_runs (lang.outline (.start origin code)) 0 x
  have ht' := (h.answers_iff hxy t).1 ht
  rw [trace_eq hruns ht, trace_eq hruns ht', Observer.walk_eq hruns ht, Observer.walk_eq hruns ht']
  exact ⟨rfl, rfl, h.replay hxy _⟩

end Matches

end

end Observer
end RoomScript
