import RoomScript.Proofs.Effects
import RoomScript.Proofs.Selection

/-!
# Which `if` an `else` belongs to

A run that evaluates conditions passes over the body of an `else` if the last `if` that was closed
ran to its end, and the last one is looked up by depth (`Outcomes`).  This file says which one that
is.

What is remembered at a depth can be read off the conversation so far: an `if` was closed there, and
nothing came after it at that depth (`Runner.get_replay_eq_some_true`).  A conversation goes through
the instructions of one depth in order (`Callback.Precedes`), and the instructions of a body are
next to each other.  So if there was any `if` or `else` in the body of an `else`, in front of it,
then the last one at its depth is one of that body, and no other body has a say
(`Runner.else_follows_last`).

An `else` with nothing of that kind in front of it in its body has no `if` of its own.  It is
decided by what the last body at its depth left behind, which may be a body that was closed long
ago (`Runner.else_follows_other_body`).
-/

set_option autoImplicit false

namespace RoomScript

/-! ## The order of a conversation -/

namespace Callback

theorem offset_eq (cb : Callback) : cb.offset = cb.instruction.offset := by
  cases cb <;> rfl

theorem Precedes.offset_le {a b : Callback} (h : a.Precedes b) (hdepth : a.depth = b.depth) :
    a.offset ≤ b.offset := by
  rcases h with h | h | ⟨h, -⟩
  · exact Nat.le_of_lt h
  · omega
  · exact Nat.le_of_eq h

/-- What is said behind a body is the last thing that is said about its opener. -/
theorem Precedes.offset_lt {i : Instruction} {kind : BodyKind} {depth : Nat} {completed : Bool}
    {b : Callback} (h : (leave i kind depth completed).Precedes b) (hdepth : b.depth = depth) :
    i.offset < b.offset := by
  rcases h with h | h | ⟨-, h⟩
  · exact h
  · exact absurd h (Nat.not_lt.2 (Nat.le_of_eq hdepth.symm))
  · cases b <;> simp [rank] at h

theorem affirmed_precedes {a b : Callback} : a.affirmed.Precedes b.affirmed ↔ a.Precedes b := by
  cases a <;> cases b <;> rfl

end Callback

namespace Outline

variable {O : Outline} {depth : Nat}

/-- A body that is left was entered. -/
theorem Runs.enter_mem_of_leave_mem {t : Trace} {completed : Bool}
    (h : O.Runs depth t completed) {i : Instruction} {kind : BodyKind} {d : Nat} {b : Bool}
    (hleave : .leave i kind d b ∈ t) : .enter i kind d true ∈ t := by
  induction h with
  | done => cases hleave
  | stop => cases List.mem_singleton.1 hleave
  | plain _ _ _ ihinner ihbody ihnext =>
    simp only [List.mem_cons, List.mem_append, reduceCtorEq, false_or] at hleave ⊢
    exact hleave.imp ihinner (Or.imp ihbody ihnext)
  | pass _ _ ihinner ihnext =>
    simp only [List.mem_cons, List.mem_append, reduceCtorEq, false_or] at hleave ⊢
    exact hleave.imp ihinner fun h ↦ .inr (ihnext h)
  | enter _ _ _ ihinner ihbody ihnext =>
    simp only [List.mem_cons, List.mem_append, reduceCtorEq, false_or] at hleave ⊢
    rcases hleave with h | h | h | h
    · exact .inl (ihinner h)
    · exact .inr (.inr (.inl (ihbody h)))
    · cases h
      exact .inr (.inl rfl)
    · exact .inr (.inr (.inr (ihnext h)))

/-! ## The instructions of a body -/

/-- What is as deep as the outline is in no body and no fragment. -/
theorem mem_direct_of_depth {v : Visit} (hv : v ∈ O.visits depth) (hdepth : v.depth = depth) :
    v ∈ O.direct depth := by
  induction O with
  | done => cases hv
  | step lang i inner kind? body next _ _ ihnext =>
    simp only [visits, List.mem_cons, List.mem_append] at hv
    rcases hv with rfl | hv | hv | hv
    · exact List.mem_cons_self
    · have hle := depth_le hv
      omega
    · have hle := depth_le hv
      omega
    · exact List.mem_cons_of_mem _ (ihnext hv)

/-- **What is as deep as a level, and lies between two instructions of it, is in it.** -/
theorem mem_direct_of_between (hoffset : (O.visits depth).Pairwise (·.offset < ·.offset))
    {opener? : Option (Instruction × BodyKind)} {b : Level}
    (hb : b ∈ Level.all ⟨opener?, depth, O⟩) {u v w : Visit} (hu : u ∈ b.direct)
    (hw : w ∈ b.direct) (hv : v ∈ O.visits depth) (hdepth : v.depth = b.depth)
    (hle : u.offset ≤ v.offset) (hle' : v.offset ≤ w.offset) : v ∈ b.direct := by
  obtain ⟨before, after, hparts⟩ := visits_infix_of_mem_all hb
  rw [← hparts] at hv hoffset
  rw [List.pairwise_append, List.pairwise_append] at hoffset
  obtain ⟨⟨-, -, hbefore⟩, -, hafter⟩ := hoffset
  have hu' : u ∈ b.visits := mem_visits_of_mem_direct hu
  have hw' : w ∈ b.visits := mem_visits_of_mem_direct hw
  refine mem_direct_of_depth ?_ hdepth
  rcases List.mem_append.1 hv with hv | hv
  · rcases List.mem_append.1 hv with hv | hv
    · have hlt := hbefore v hv u hu'
      omega
    · exact hv
  · have hlt := hafter w (List.mem_append_right _ hw') v hv
    omega

end Outline

/-! ## What a run remembers -/

/-- Whether a body is one of the two of a conditional. -/
def BodyKind.IsBranch (kind : BodyKind) : Prop := kind = .thenBody ∨ kind = .elseBody

namespace Callback

/-- Whether a callback changes what is remembered at a depth. -/
def Touches (d : Nat) : Callback → Prop
  | .visit .. => False
  | .enter _ kind depth _ => depth = d ∧ kind.IsBranch
  | .leave _ kind depth _ => depth = d ∧ kind = .thenBody

end Callback

/-- Whether an `if` was closed at a depth with a completed body, and nothing that belongs to a
conditional came after it at that depth. -/
def Trace.Completed (d : Nat) (t : Trace) : Prop :=
  ∃ t₁ j t₂, t = t₁ ++ .leave j .thenBody d true :: t₂ ∧ ∀ cb ∈ t₂, ¬ cb.Touches d

theorem Trace.completed_cons {d : Nat} {cb : Callback} {t : Trace} :
    Completed d (cb :: t) ↔ Completed d t ∨
      (∃ j, cb = .leave j .thenBody d true) ∧ ∀ cb' ∈ t, ¬ cb'.Touches d := by
  constructor
  · rintro ⟨_ | ⟨_, t₁⟩, j, t₂, heq, htouches⟩
    · cases heq
      exact .inr ⟨⟨j, rfl⟩, htouches⟩
    · cases heq
      exact .inl ⟨t₁, j, t₂, rfl, htouches⟩
  · rintro (⟨t₁, j, t₂, rfl, htouches⟩ | ⟨⟨j, rfl⟩, htouches⟩)
    · exact ⟨cb :: t₁, j, t₂, rfl, htouches⟩
    · exact ⟨[], j, t, rfl, htouches⟩

namespace Runner

variable (d : Nat)

theorem get_remember (r : Runner) (depth : Nat) (outcome : Option Bool) :
    (r.remember depth outcome).outcomes.get d
      = if depth = d then outcome else r.outcomes.get d := Outcomes.get_set _ _ _ _

/-- A callback that touches a depth decides what is remembered there. -/
theorem get_react (cb : Callback) (r : Runner) :
    ((observer true).react cb r).outcomes.get d = some true ↔
      (∃ j, cb = .leave j .thenBody d true) ∨ ¬ cb.Touches d ∧ r.outcomes.get d = some true := by
  have hforget (depth : Nat) : (r.remember depth none).outcomes.get d = some true ↔
      depth ≠ d ∧ r.outcomes.get d = some true := by
    rw [get_remember]
    by_cases hdepth : depth = d <;> simp [hdepth]
  have hremember (depth : Nat) (completed : Bool) :
      (r.remember depth (some completed)).outcomes.get d = some true ↔
        (depth = d ∧ completed = true) ∨ depth ≠ d ∧ r.outcomes.get d = some true := by
    rw [get_remember]
    by_cases hdepth : depth = d <;> simp [hdepth]
  cases cb with
  | visit v goOn =>
    show (r.act _).outcomes.get d = some true ↔ _
    rw [outcomes_act]
    simp [Callback.Touches]
  | enter i kind depth entered =>
    cases kind with
    | thenBody | elseBody =>
      refine (hforget depth).trans ?_
      simp [Callback.Touches, BodyKind.IsBranch]
    | loopBody | switchBody | caseBody =>
      show r.outcomes.get d = some true ↔ _
      simp [Callback.Touches, BodyKind.IsBranch]
  | leave i kind depth completed =>
    cases kind with
    | thenBody =>
      refine (hremember depth completed).trans ?_
      simp [Callback.Touches]
    | elseBody | loopBody | switchBody | caseBody =>
      show r.outcomes.get d = some true ↔ _
      simp [Callback.Touches]

/-- **What is remembered is what came last.** -/
theorem get_replay_eq_some_true (t : Trace) (r : Runner) :
    ((observer true).replay t r).outcomes.get d = some true ↔
      t.Completed d ∨ (∀ cb ∈ t, ¬ cb.Touches d) ∧ r.outcomes.get d = some true := by
  induction t generalizing r with
  | nil => simp [Trace.Completed]
  | cons cb t ih =>
    rw [Observer.replay_cons, ih, get_react, Trace.completed_cons, List.forall_mem_cons, or_assoc]
    refine or_congr_right ?_
    rw [and_or_left, and_comm, and_assoc, and_left_comm]

end Runner

/-! ## Which `if` came last -/

/-- Whether an `if` among the instructions `own` was closed at a depth with a completed body, and no
other `if` or `else` among them was reached at that depth since. -/
def Trace.Settled (d : Nat) (own : Instruction → Prop) (t : Trace) : Prop :=
  ∃ t₁ j t₂, t = t₁ ++ .leave j .thenBody d true :: t₂ ∧ own j ∧
    ∀ k kind entered, .enter k kind d entered ∈ t₂ → own k → ¬ kind.IsBranch

/-- Whether an instruction is directly in a level. -/
def Level.Owns (b : Level) (i : Instruction) : Prop := ∃ w ∈ b.direct, w.instruction = i

namespace Outline

variable {O : Outline} {depth : Nat} {t pre post : Trace} {completed : Bool}
  (h : O.Runs depth t completed) (hoffset : (O.visits depth).Pairwise (·.offset < ·.offset))

include h in
/-- What is said in a conversation is about an instruction that is there. -/
theorem Runs.exists_visit {cb : Callback} (hcb : cb ∈ t) :
    ∃ v ∈ O.visits depth, v.instruction = cb.instruction ∧ v.depth = cb.depth := by
  have hmem := h.map_affirmed_sublist.subset (List.mem_map_of_mem hcb)
  obtain ⟨v, hv, -, hinstruction, hdepth⟩ := exists_visit_of_mem_callbacks hmem
  refine ⟨v, hv, ?_, ?_⟩
  · rw [hinstruction]
    cases cb <;> rfl
  · rw [hdepth]
    cases cb <;> rfl

include h hoffset

theorem Runs.pairwise_precedes : t.Pairwise Callback.Precedes := by
  have hmap := (O.pairwise_precedes hoffset).sublist h.map_affirmed_sublist
  exact (List.pairwise_map.1 hmap).imp Callback.affirmed_precedes.1

/-- What is remembered at a depth is told by what was reached there: an `if` that is closed behind
another one was also opened behind it. -/
theorem Runs.completed_iff_settled (d : Nat) (ht : t = pre ++ post) :
    pre.Completed d ↔ pre.Settled d fun _ ↦ True := by
  constructor
  · rintro ⟨t₁, j, t₂, hpre, htouches⟩
    exact ⟨t₁, j, t₂, hpre, trivial, fun k kind entered hk _ hbranch ↦
      htouches _ hk ⟨rfl, hbranch⟩⟩
  rintro ⟨t₁, j, t₂, rfl, -, hnone⟩
  refine ⟨t₁, j, t₂, rfl, fun cb hcb htouches ↦ ?_⟩
  cases cb with
  | visit => exact htouches
  | enter k kind depth entered =>
    obtain ⟨rfl, hbranch⟩ := htouches
    exact hnone k kind entered hcb trivial hbranch
  | leave k kind depth completed =>
    -- it was opened between the two reports, and that is ruled out
    obtain ⟨rfl, rfl⟩ := htouches
    have hleave : .leave k .thenBody depth completed ∈ t := by
      rw [ht]
      simp [hcb]
    have henter := h.enter_mem_of_leave_mem hleave
    have hordered := h.pairwise_precedes hoffset
    rw [ht] at henter hordered
    obtain ⟨hpre, -, hpost⟩ := List.pairwise_append.1 hordered
    obtain ⟨-, htail, hfront⟩ := List.pairwise_append.1 hpre
    obtain ⟨hbehind, -⟩ := List.pairwise_cons.1 htail
    have hlt : j.offset < k.offset := (hbehind _ hcb).offset_lt rfl
    rcases List.mem_append.1 henter with henter | henter
    · rcases List.mem_append.1 henter with henter | henter
      · have hle : k.offset ≤ j.offset := (hfront _ henter _ List.mem_cons_self).offset_le rfl
        omega
      · rcases List.mem_cons.1 henter with heq | henter
        · cases heq
        · exact hnone k .thenBody true henter trivial (.inl rfl)
    · have hmem : .leave k .thenBody depth completed ∈ t₁ ++ .leave j .thenBody depth true :: t₂ :=
        List.mem_append_right _ (List.mem_cons_of_mem _ hcb)
      have hlt' : k.offset < k.offset := (hpost _ hmem _ henter).offset_lt rfl
      omega

/-- **The body of an `else` decides**, if it has an `if` or an `else` in front of it. -/
theorem Runs.settled_iff_settled_owns {opener? : Option (Instruction × BodyKind)} {b : Level}
    (hb : b ∈ Level.all ⟨opener?, depth, O⟩) {v : Visit} (hv : v ∈ b.direct) {kind : BodyKind}
    {entered : Bool}
    (ht : t = pre ++ .enter v.instruction kind b.depth entered :: post)
    (hreached : ∃ k kind entered, b.Owns k ∧ kind.IsBranch ∧ .enter k kind b.depth entered ∈ pre) :
    (pre.Settled b.depth fun _ ↦ True) ↔ pre.Settled b.depth b.Owns := by
  have hordered := h.pairwise_precedes hoffset
  rw [ht] at hordered
  obtain ⟨hpre, -, hpost⟩ := List.pairwise_append.1 hordered
  -- what is at the depth of the `else`, between something in its body and itself, is in its body
  have howns {u : Visit} (hu : u ∈ b.direct) {cb : Callback} (hcb : cb ∈ pre)
      (hdepth : cb.depth = b.depth) (hle : u.offset ≤ cb.offset) : b.Owns cb.instruction := by
    have hcb' : cb ∈ t := by
      rw [ht]
      exact List.mem_append_left _ hcb
    obtain ⟨w, hw, hinstruction, hdepth'⟩ := h.exists_visit hcb'
    have hwoffset : w.offset = cb.offset := by
      rw [cb.offset_eq, ← hinstruction]
      rfl
    have hle' : cb.offset ≤ v.offset := (hpost cb hcb _ List.mem_cons_self).offset_le hdepth
    rw [← hwoffset] at hle hle'
    exact ⟨w, mem_direct_of_between hoffset hb hu hv hw (hdepth'.trans hdepth) hle hle',
      hinstruction⟩
  constructor
  · rintro ⟨t₁, j, t₂, rfl, -, hnone⟩
    obtain ⟨k, kind', entered', ⟨u, hu, rfl⟩, hbranch, hk⟩ := hreached
    refine ⟨t₁, j, t₂, rfl, ?_, fun k kind entered hk _ ↦ hnone k kind entered hk trivial⟩
    have hfront : .enter u.instruction kind' b.depth entered' ∈ t₁ := by
      rcases List.mem_append.1 hk with hk | hk
      · exact hk
      · rcases List.mem_cons.1 hk with heq | hk
        · cases heq
        · exact absurd hbranch (hnone _ _ _ hk trivial)
    have hle : u.offset ≤ j.offset :=
      ((List.pairwise_append.1 hpre).2.2 _ hfront _ List.mem_cons_self).offset_le rfl
    have hj : .leave j .thenBody b.depth true ∈ t₁ ++ .leave j .thenBody b.depth true :: t₂ :=
      List.mem_append_right _ List.mem_cons_self
    exact howns hu hj rfl hle
  · rintro ⟨t₁, j, t₂, rfl, ⟨w, hw, rfl⟩, hnone⟩
    refine ⟨t₁, w.instruction, t₂, rfl, trivial, fun k kind entered hk _ ↦ ?_⟩
    obtain ⟨-, htail, -⟩ := List.pairwise_append.1 hpre
    have hle : w.offset ≤ k.offset := ((List.pairwise_cons.1 htail).1 _ hk).offset_le rfl
    have hk' : .enter k kind b.depth entered
        ∈ t₁ ++ .leave w.instruction .thenBody b.depth true :: t₂ :=
      List.mem_append_right _ (List.mem_cons_of_mem _ hk)
    exact hnone k kind entered hk (howns hw hk' rfl hle)

end Outline

/-! ## Main statement -/

namespace Runner

/-- **An `else` follows the last `if` at its depth.**  In a run that evaluates conditions, the body
of an `else` is passed over if and only if the last `if` or `else` that was reached before it at its
depth is an `if` whose body was completed.  If an `if` or an `else` was reached before it in its own
body, then it is the last one of those that decides: an `else` never follows an `if` of another body
if there was anything of that kind in its own. -/
theorem else_follows_last (limit : Nat) (lang : Language) (origin : Nat) (code : Stretch)
    (room : RoomState) :
    let T := (observer true).trace limit lang origin code { room }
    ∀ b ∈ lang.levels origin code, ∀ v ∈ b.direct, ∀ (pre : Trace) entered post,
      T = pre ++ .enter v.instruction .elseBody b.depth entered :: post →
        (entered = false ↔ pre.Settled b.depth fun _ ↦ True) ∧
        ((∃ k kind entered', b.Owns k ∧ kind.IsBranch ∧ .enter k kind b.depth entered' ∈ pre) →
          (entered = false ↔ pre.Settled b.depth b.Owns)) := by
  intro T b hb v hv pre entered post hT
  obtain ⟨t, completed, hruns, -, htrace, -⟩ :=
    (observer true).exists_trace lang origin code { room }
  have hoffset := (decodes_outline lang (.start origin code)).pairwise_offset 0
  obtain ⟨rest, hrest⟩ : T <+: t := by
    rw [show T = t.upTo limit from htrace limit]
    exact Trace.upTo_isPrefixOf limit t
  have ht : t = pre ++ .enter v.instruction .elseBody b.depth entered :: (post ++ rest) := by
    rw [← hrest, hT, List.append_assoc, List.cons_append]
  have hanswers : (observer true).Answers T { room } := (observer true).answers_trace limit
  rw [hT, Observer.answers_append] at hanswers
  have hgives : decide (((observer true).replay pre { room }).outcomes.get b.depth ≠ some true)
      = entered := hanswers.2.1
  have hfresh : ({ room } : Runner).outcomes.get b.depth ≠ some true := by simp [Outcomes.get]
  have hlast : entered = false ↔ pre.Settled b.depth fun _ ↦ True := by
    rw [← hruns.completed_iff_settled hoffset b.depth ht, ← hgives, decide_eq_false_iff_not,
      ne_eq, Decidable.not_not, get_replay_eq_some_true]
    exact or_iff_left fun h ↦ hfresh h.2
  refine ⟨hlast, fun hreached ↦ hlast.trans ?_⟩
  exact hruns.settled_iff_settled_owns hoffset hb hv ht hreached

/-- A conditional whose first body is completed. -/
theorem else_follows_last_completed :
    let code := Bytes.whole
      #[0x06, 0x00, 0x06, 0x00, 0x00, 0x00, 0x07, 0x00, 0x06, 0x00, 0x29, 0x05]
    let T := (observer true).trace 8 .re2 0 code { room := {} }
    ∃ b ∈ Language.re2.levels 0 code, ∃ v ∈ b.direct, ∃ pre post : Trace,
      T = pre ++ .enter v.instruction .elseBody b.depth false :: post ∧
        (∃ k kind entered, b.Owns k ∧ kind.IsBranch ∧ .enter k kind b.depth entered ∈ pre) ∧
          pre.Settled b.depth b.Owns := by
  intro code T
  let b : Level := ⟨none, 0, Language.re2.outline (.start 0 code)⟩
  let u : Visit := ⟨.re2, { offset := 0, bytes := #[0x06, 0x00, 0x06, 0x00] }, 0⟩
  let v : Visit := ⟨.re2, { offset := 6, bytes := #[0x07, 0x00, 0x06, 0x00] }, 0⟩
  have hb : b ∈ Language.re2.levels 0 code := List.mem_cons_self
  have hu : u ∈ b.direct := by decide +kernel
  have hv : v ∈ b.direct := by decide +kernel
  have hT : T = T.take 6 ++ .enter v.instruction .elseBody b.depth false :: [] := by
    decide +kernel
  have hreached : ∃ k kind entered, b.Owns k ∧ kind.IsBranch ∧
      .enter k kind b.depth entered ∈ T.take 6 :=
    ⟨u.instruction, .thenBody, true, ⟨u, hu, rfl⟩, .inl rfl, by decide +kernel⟩
  obtain ⟨-, howns⟩ := else_follows_last 8 .re2 0 code {} b hb v hv _ _ _ hT
  exact ⟨b, hb, v, hv, _, _, hT, hreached, (howns hreached).1 rfl⟩

/-- Two loops, the first one with an `if` in it and the second one with an `else`: the `if` decides
about the `else`, although they are not in the same body. -/
theorem else_follows_other_body :
    ¬ ∀ (limit : Nat) (lang : Language) (origin : Nat) (code : Stretch) (room : RoomState),
      ((observer true).walk limit lang origin code { room }).2.hitLimit = false →
      ∀ b ∈ lang.levels origin code, ∀ v ∈ b.direct, ∀ (pre : Trace) entered post,
        (observer true).trace limit lang origin code { room }
          = pre ++ .enter v.instruction .elseBody b.depth entered :: post →
        (entered = false ↔ pre.Settled b.depth b.Owns) := by
  intro h
  let code := Bytes.whole
    #[0x0f, 0x00, 0x08, 0x00, 0x06, 0x00, 0x02, 0x00, 0x08, 0x00, 0x10, 0x00,
      0x0f, 0x00, 0x08, 0x00, 0x07, 0x00, 0x06, 0x00, 0x29, 0x05, 0x10, 0x00]
  let T := (observer true).trace 24 .re2 0 code { room := {} }
  let v : Visit := ⟨.re2, { offset := 16, bytes := #[0x07, 0x00, 0x06, 0x00] }, 1⟩
  have hlimit : ((observer true).walk 24 .re2 0 code { room := {} }).2.hitLimit = false := by
    decide +kernel
  obtain ⟨b, hb, hv, hdepth, hforeign⟩ : ∃ b ∈ Language.re2.levels 0 code, v ∈ b.direct ∧
      b.depth = 1 ∧ ∀ w ∈ b.direct, .leave w.instruction .thenBody 1 true ∉ T := by
    decide +kernel
  have hT : T = T.take 11 ++ .enter v.instruction .elseBody b.depth false :: T.drop 12 := by
    rw [hdepth]
    decide +kernel
  obtain ⟨t₁, j, t₂, hpre, ⟨w, hw, rfl⟩, -⟩ := (h 24 .re2 0 code {} hlimit b hb v hv _ _ _ hT).1 rfl
  refine hforeign w hw ?_
  rw [hdepth] at hpre
  refine List.mem_of_mem_take (i := 11) ?_
  rw [hpre]
  simp

end Runner
end RoomScript
