import Mathlib.Data.List.Nodup
import RoomScript.Proofs.Pairing

/-!
# Bodies in a conversation

A walk asks in front of a body, goes through the body, and says that it left it.  Bodies are in
bodies, so one such episode lies inside another one, but two of them are never interleaved: what is
said between the question and the report is about the body and nothing else, and nothing that is
said anywhere else is about it.  A body that is passed over has no part in the conversation.

## What is here

* `Outline.Episode` — such an episode, with what is said before it, in it and after it.
* `Outline.Middle` — what is said between an instruction and what comes behind its body.  This is
  where an episode is, if there is one, and by it conversations are taken apart.
* `Outline.Runs.exists_episode` — there is an episode for every question that is asked.
* `Outline.Runs.exists_leave`, `Outline.Runs.not_mem_of_refused` — a body that is entered is left
  once, right behind what is said in it; a body that is passed over is neither left nor spoken of.
* `Outline.Runs.completed_eq_false_iff` — the report says whether the body was completed, and only
  the instructions directly in the body have a say in that.
* `Outline.Runs.within_of_visit` — an instruction of a body is seen between the question and the
  report.
* `Outline.Runs.not_left_iff` — a ceiling cuts the conversation off right in front of an
  instruction.  The bodies that the instruction lies in have been entered by then and are not left
  any more.  All other bodies that were entered have been left.
* `Observer.callbacks_well_nested` — all this for the trace of a walk.

All of it is proved by going through the conversations that are possible (`Outline.Runs`), so it
holds for every observer, and no proof looks at a walk.  A part of a script has instructions of its
own, and what is said about the other parts stays outside (`Outline.apart_of_step`); for this, the
offsets of a script have to grow, which is the one thing that is needed of the bytes.
-/

set_option autoImplicit false

namespace RoomScript

/-! ## Episodes -/

namespace Level

/-- The level is the body of kind `kind` behind the instruction `i`, which is `d` levels deep. -/
structure IsBody (b : Level) (i : Instruction) (kind : BodyKind) (d : Nat) : Prop where
  opener : b.opener? = some (i, kind)
  depth : b.depth = d + 1

/-- Nobody is asked in front of a whole script, nor in front of a fragment. -/
theorem IsBody.mem_levels {b : Level} {i : Instruction} {kind : BodyKind} {d : Nat}
    (h : b.IsBody i kind d) {depth : Nat} {O : Outline} (hb : b ∈ all ⟨none, depth, O⟩) :
    b ∈ O.levels depth := by
  rcases List.mem_cons.1 hb with rfl | hb
  · cases h.opener
  · exact hb

/-- Whether a callback is about an instruction of a level. -/
def Hosts (b : Level) (cb : Callback) : Prop :=
  ∃ v ∈ b.visits, v.instruction = cb.instruction ∧ v.depth = cb.depth

/-- What comes after the question in front of a body until the walk is behind the body: nothing, or
what is said in the body and the report. -/
inductive Account (b : Level) (i : Instruction) (kind : BodyKind) (d : Nat) : Bool → Trace → Prop
  | passed : Account b i kind d false []
  | entered {inside : Trace} {completed : Bool}
      (hinside : b.outline.Runs b.depth inside completed) :
      Account b i kind d true (inside ++ [.leave i kind d completed])

end Level

namespace Outline

/-- Whether a callback is about none of the instructions of an outline, going by their places. -/
def Apart (O : Outline) (depth : Nat) (cb : Callback) : Prop :=
  ∀ v ∈ O.visits depth, v.offset ≠ cb.offset

/-- The conversation `t` comes to the body `b`: after `pre` there is the question in front of it,
what is said about it follows, and the rest is `post`. -/
structure Episode (O : Outline) (depth : Nat) (t : Trace) (i : Instruction) (kind : BodyKind)
    (d : Nat) (entered : Bool) (b : Level) (pre account post : Trace) : Prop where
  mem : b ∈ O.levels depth
  isBody : b.IsBody i kind d
  eq : t = pre ++ .enter i kind d entered :: (account ++ post)
  account : b.Account i kind d entered account
  apart : ∀ cb ∈ pre ++ post, b.outline.Apart b.depth cb

variable {O P : Outline} {depth d depth' : Nat} {t : Trace} {completed entered : Bool}
  {i : Instruction} {kind : BodyKind} {b : Level} {pre account post : Trace}

/-- The callbacks of a conversation are about places of its outline. -/
theorem Runs.exists_offset (h : O.Runs depth t completed) {cb : Callback} (hcb : cb ∈ t) :
    ∃ v ∈ O.visits depth, v.offset = cb.offset := by
  obtain ⟨v, hv, hinstruction, -⟩ := h.exists_visit hcb
  refine ⟨v, hv, ?_⟩
  rw [cb.offset_eq, ← hinstruction]
  rfl

theorem Runs.depth_le (h : O.Runs depth t completed) {cb : Callback} (hcb : cb ∈ t) :
    depth ≤ cb.depth := by
  obtain ⟨v, hv, -, hdepth⟩ := h.exists_visit hcb
  rw [← hdepth]
  exact Outline.depth_le hv

/-- An episode of a part is an episode of the whole, if what is said around the part is not about
it. -/
theorem Episode.extend (h : P.Episode depth' t i kind d entered b pre account post)
    (hmem : P.levels depth' ⊆ O.levels depth) (before after : Trace) {t' : Trace}
    (ht : t' = before ++ (t ++ after)) (hapart : ∀ cb ∈ before ++ after, P.Apart depth' cb) :
    O.Episode depth t' i kind d entered b (before ++ pre) account (post ++ after) where
  mem := hmem h.mem
  isBody := h.isBody
  eq := by
    rw [ht, h.eq]
    simp
  account := h.account
  apart := by
    intro cb hcb v hv
    have hcb' : cb ∈ before ++ after ∨ cb ∈ pre ++ post := by
      simp only [List.mem_append] at hcb ⊢
      tauto
    rcases hcb' with hcb' | hcb'
    · have hb : b ∈ Level.all ⟨none, depth', P⟩ := List.mem_cons_of_mem _ h.mem
      exact hapart cb hcb' v (mem_visits_of_mem_all hb hv)
    · exact h.apart cb hcb' v hv

/-- What is said around an episode is not about its body. -/
theorem Episode.not_hosts (h : O.Episode depth t i kind d entered b pre account post)
    {cb : Callback} (hcb : cb ∈ pre ++ post) : ¬ b.Hosts cb := by
  rintro ⟨v, hv, hinstruction, -⟩
  refine h.apart cb hcb v hv ?_
  rw [cb.offset_eq, ← hinstruction]
  rfl

/-! ### Conversations about a script that begins with an instruction -/

section

variable {lang : Language} {inner body next : Outline} {kind? : Option BodyKind}
  {t₁ middle t₃ : Trace}

/-- What is said between an instruction with the script inside it and what comes after its body: if
there is no body, then nothing; otherwise the question in front of the body begins an episode. -/
inductive Middle (i : Instruction) (depth : Nat) (body : Outline) : Option BodyKind → Trace → Prop
  | plain {t₂ : Trace} {completed : Bool} (hbody : body.Runs (depth + 1) t₂ completed) :
      Middle i depth body none t₂
  | asked {kind : BodyKind} {entered : Bool} {account : Trace}
      (haccount : Level.Account ⟨some (i, kind), depth + 1, body⟩ i kind depth entered account) :
      Middle i depth body (some kind) (.enter i kind depth entered :: account)

theorem Middle.offset_eq_or (h : Middle i depth body kind? middle) {cb : Callback}
    (hcb : cb ∈ middle) :
    cb.offset = i.offset ∨ ∃ v ∈ body.visits (depth + 1), v.offset = cb.offset := by
  match h with
  | .plain hbody => exact .inr (hbody.exists_offset hcb)
  | .asked haccount =>
    rcases List.mem_cons.1 hcb with rfl | hrest
    · exact .inl rfl
    match haccount with
    | .passed => cases hrest
    | .entered hinside =>
      rcases List.mem_append.1 hrest with hrest | hrest
      · exact .inr (hinside.exists_offset hrest)
      · rw [List.mem_singleton.1 hrest]
        exact .inl rfl

theorem Middle.depth_lt (h : Middle i depth body kind? middle) {v : Visit} {goOn : Bool}
    (hv : .visit v goOn ∈ middle) : depth < v.depth := by
  match h with
  | .plain hbody => exact hbody.depth_le hv
  | .asked .passed => simp at hv
  | .asked (.entered hinside) =>
    simp only [List.mem_cons, List.mem_append, reduceCtorEq, List.not_mem_nil, or_false,
      false_or] at hv
    exact hinside.depth_le hv

/-- A question between the parts is the one in front of the body, or it is asked in the body. -/
theorem Middle.enter_mem {j : Instruction} (h : Middle j depth body kind? middle)
    (henter : .enter i kind d entered ∈ middle) :
    (∃ account, i = j ∧ d = depth ∧ kind? = some kind ∧
        middle = .enter i kind d entered :: account ∧
          Level.Account ⟨some (i, kind), d + 1, body⟩ i kind d entered account) ∨
      ∃ before t₂ after completed, body.Runs (depth + 1) t₂ completed ∧
        .enter i kind d entered ∈ t₂ ∧ middle = before ++ (t₂ ++ after) ∧
          ∀ cb ∈ before ++ after, cb.offset = j.offset := by
  match h with
  | .plain hbody => exact .inr ⟨[], _, [], _, hbody, henter, by simp, nofun⟩
  | @Middle.asked _ _ _ kind' entered' account haccount =>
    rcases List.mem_cons.1 henter with heq | hrest
    · cases heq
      exact .inl ⟨account, rfl, rfl, rfl, rfl, haccount⟩
    · rcases haccount with _ | ⟨hinside⟩
      · cases hrest
      · simp only [List.mem_append, List.mem_singleton, reduceCtorEq, or_false] at hrest
        refine .inr ⟨[_], _, [_], _, hinside, hrest, rfl, fun cb hcb ↦ ?_⟩
        simp only [List.cons_append, List.nil_append, List.mem_cons, List.not_mem_nil,
          or_false] at hcb
        rcases hcb with rfl | rfl <;> rfl

/-- A script that begins with an instruction is given up there, or its three parts are talked about
one after the other. -/
theorem Runs.eq_or_exists_middle
    (h : (step lang i inner kind? body next).Runs depth t completed) :
    (t = [.visit ⟨lang, i, depth⟩ false] ∧ completed = false) ∨ ∃ t₁ middle t₃ completed₁,
      inner.Runs (depth + 1) t₁ completed₁ ∧ Middle i depth body kind? middle ∧
        next.Runs depth t₃ completed ∧
          t = .visit ⟨lang, i, depth⟩ true :: (t₁ ++ (middle ++ t₃)) := by
  rcases h with _ | _ | ⟨hinner, hbody, hnext⟩ | ⟨hinner, hnext⟩ | ⟨hinner, hbody, hnext⟩
  · exact .inl ⟨rfl, rfl⟩
  · exact .inr ⟨_, _, _, _, hinner, .plain hbody, hnext, rfl⟩
  · exact .inr ⟨_, _, _, _, hinner, .asked .passed, hnext, rfl⟩
  · exact .inr ⟨_, _, _, _, hinner, .asked (.entered hbody), hnext, by simp⟩

/-- The three parts of the script are at different places, and none of them is at the place of the
instruction. -/
theorem apart_of_step
    (hoffset : ((step lang i inner kind? body next).visits depth).Pairwise (·.offset < ·.offset))
    (h₁ : ∀ cb ∈ t₁, ∃ v ∈ inner.visits (depth + 1), v.offset = cb.offset)
    (h₂ : ∀ cb ∈ middle, cb.offset = i.offset ∨
      ∃ v ∈ body.visits (depth + 1), v.offset = cb.offset)
    (h₃ : ∀ cb ∈ t₃, ∃ v ∈ next.visits depth, v.offset = cb.offset) :
    (∀ cb : Callback, cb.offset = i.offset ∨ cb ∈ middle ∨ cb ∈ t₃ → inner.Apart (depth + 1) cb) ∧
      (∀ cb : Callback, cb.offset = i.offset ∨ cb ∈ t₁ ∨ cb ∈ t₃ → body.Apart (depth + 1) cb) ∧
      ∀ cb : Callback, cb.offset = i.offset ∨ cb ∈ t₁ ∨ cb ∈ middle → next.Apart depth cb := by
  rw [visits, List.pairwise_cons, List.pairwise_append, List.pairwise_append] at hoffset
  obtain ⟨hown, -, ⟨-, -, hbodynext⟩, hbehind⟩ := hoffset
  simp only [List.forall_mem_append] at hown hbehind
  obtain ⟨hinner, hbody, hnext⟩ := hown
  have hbehind₁ {v : Visit} (hv : v ∈ inner.visits (depth + 1)) : i.offset < v.offset := hinner v hv
  have hbehind₂ {v : Visit} (hv : v ∈ body.visits (depth + 1)) : i.offset < v.offset := hbody v hv
  have hbehind₃ {v : Visit} (hv : v ∈ next.visits depth) : i.offset < v.offset := hnext v hv
  refine ⟨fun cb hcb v hv ↦ ?_, fun cb hcb v hv ↦ ?_, fun cb hcb v hv ↦ ?_⟩
  · have hlt := hbehind₁ hv
    rcases hcb with hcb | hcb | hcb
    · omega
    · rcases h₂ cb hcb with heq | ⟨w, hw, heq⟩
      · omega
      · have hlt' := (hbehind v hv).1 w hw
        omega
    · obtain ⟨w, hw, heq⟩ := h₃ cb hcb
      have hlt' := (hbehind v hv).2 w hw
      omega
  · have hlt := hbehind₂ hv
    rcases hcb with hcb | hcb | hcb
    · omega
    · obtain ⟨w, hw, heq⟩ := h₁ cb hcb
      have hlt' := (hbehind w hw).1 v hv
      omega
    · obtain ⟨w, hw, heq⟩ := h₃ cb hcb
      have hlt' := hbodynext v hv w hw
      omega
  · have hlt := hbehind₃ hv
    rcases hcb with hcb | hcb | hcb
    · omega
    · obtain ⟨w, hw, heq⟩ := h₁ cb hcb
      have hlt' := (hbehind w hw).2 v hv
      omega
    · rcases h₂ cb hcb with heq | ⟨w, hw, heq⟩
      · omega
      · have hlt' := hbodynext w hw v hv
        omega

theorem levels_inner_subset :
    inner.levels (depth + 1) ⊆ (step lang i inner kind? body next).levels depth :=
  fun _ hb ↦ List.mem_append_left _ (List.mem_cons_of_mem _ hb)

theorem levels_body_subset :
    body.levels (depth + 1) ⊆ (step lang i inner kind? body next).levels depth :=
  fun _ hb ↦ List.mem_append_right _ (List.mem_append_left _ (List.mem_cons_of_mem _ hb))

theorem levels_next_subset :
    next.levels depth ⊆ (step lang i inner kind? body next).levels depth :=
  fun _ hb ↦ List.mem_append_right _ (List.mem_append_right _ hb)

/-- What a script consists of, apart from the instruction that it begins with. -/
theorem mem_levels_step (hb : b ∈ (step lang i inner kind? body next).levels depth) :
    b ∈ Level.all ⟨none, depth + 1, inner⟩ ∨
      b ∈ Level.all ⟨kind?.map (i, ·), depth + 1, body⟩ ∨ b ∈ Level.all ⟨none, depth, next⟩ := by
  simp only [levels, List.mem_append] at hb
  exact hb.imp id (Or.imp id (List.mem_cons_of_mem _))

end

/-- **Every question in front of a body begins an episode.** -/
theorem Runs.exists_episode (h : O.Runs depth t completed)
    (hoffset : (O.visits depth).Pairwise (·.offset < ·.offset))
    (henter : .enter i kind d entered ∈ t) :
    ∃ b pre account post, O.Episode depth t i kind d entered b pre account post := by
  induction O generalizing depth t completed with
  | done =>
    cases h
    cases henter
  | step lang j inner kind? body next ihinner ihbody ihnext =>
    rcases h.eq_or_exists_middle with
      ⟨rfl, -⟩ | ⟨t₁, middle, t₃, _, hinner, hmiddle, hnext, rfl⟩
    · cases List.mem_singleton.1 henter
    obtain ⟨hapart₁, hapart₂, hapart₃⟩ := apart_of_step hoffset (fun _ ↦ hinner.exists_offset)
      (fun _ ↦ hmiddle.offset_eq_or) (fun _ ↦ hnext.exists_offset)
    rw [visits, List.pairwise_cons, List.pairwise_append, List.pairwise_append] at hoffset
    obtain ⟨-, hoffset₁, ⟨hoffset₂, hoffset₃, -⟩, -⟩ := hoffset
    let first : Callback := .visit ⟨lang, j, depth⟩ true
    have hfirst : first.offset = j.offset := rfl
    simp only [List.mem_cons, List.mem_append, reduceCtorEq, false_or] at henter
    rcases henter with henter | henter | henter
    · obtain ⟨b, _, _, _, h⟩ := ihinner hinner hoffset₁ henter
      refine ⟨b, _, _, _, h.extend levels_inner_subset [first] (middle ++ t₃) rfl ?_⟩
      exact fun cb hcb ↦ hapart₁ cb (by grind)
    · rcases hmiddle.enter_mem henter with
        ⟨account, rfl, rfl, rfl, rfl, haccount⟩ | ⟨before, t₂, after, _, hbody, hasked, rfl, hown⟩
      · refine ⟨⟨some (i, kind), d + 1, body⟩, first :: t₁, account, t₃,
          ⟨?_, ⟨rfl, rfl⟩, rfl, haccount, fun cb hcb ↦ hapart₂ cb ?_⟩⟩
        · exact List.mem_append_right _ List.mem_cons_self
        · grind
      · obtain ⟨b, _, _, _, h⟩ := ihbody hbody hoffset₂ hasked
        refine ⟨b, _, _, _, h.extend levels_body_subset (first :: (t₁ ++ before)) (after ++ t₃)
          (by simp [first]) fun cb hcb ↦ hapart₂ cb (by grind)⟩
    · obtain ⟨b, _, _, _, h⟩ := ihnext hnext hoffset₃ henter
      refine ⟨b, _, _, _, h.extend levels_next_subset (first :: (t₁ ++ middle)) []
        (by simp [first]) ?_⟩
      exact fun cb hcb ↦ hapart₃ cb (by grind)

/-! ## What is in a body -/

/-- The callback `cb` comes between the question in front of a body and the report behind it. -/
def Within (i : Instruction) (kind : BodyKind) (d : Nat) (cb : Callback) (t : Trace) : Prop :=
  ∃ pre inside completed behind,
    t = pre ++ .enter i kind d true :: (inside ++ .leave i kind d completed :: behind) ∧
      cb ∈ inside

theorem Within.extend {cb : Callback} (h : Within i kind d cb t) (before after : Trace) :
    Within i kind d cb (before ++ (t ++ after)) := by
  obtain ⟨pre, inside, completed, behind, rfl, hcb⟩ := h
  exact ⟨before ++ pre, inside, completed, behind ++ after, by simp, hcb⟩

/-- What is said in a body comes between the question and the report, if that is so for the bodies
in it. -/
theorem Middle.within {j : Instruction} {body : Outline} {kind? : Option BodyKind} {middle : Trace}
    (h : Middle j depth body kind? middle)
    (hb : b ∈ Level.all ⟨kind?.map (j, ·), depth + 1, body⟩) (hbody : b.IsBody i kind d)
    {v : Visit} {goOn : Bool} (hvisit : .visit v goOn ∈ middle)
    (hlevels : ∀ t₂ completed, body.Runs (depth + 1) t₂ completed →
      b ∈ body.levels (depth + 1) → .visit v goOn ∈ t₂ → Within i kind d (.visit v goOn) t₂) :
    Within i kind d (.visit v goOn) middle := by
  cases h with
  | plain htext => exact hlevels _ _ htext (hbody.mem_levels hb) hvisit
  | @asked kind' _ _ haccount =>
    cases haccount with
    | passed => simp at hvisit
    | @entered inside completed htext =>
      simp only [List.mem_cons, List.mem_append, reduceCtorEq, List.not_mem_nil, or_false,
        false_or] at hvisit
      rcases List.mem_cons.1 hb with rfl | hb
      · cases hbody.opener
        cases hbody.depth
        exact ⟨[], inside, completed, [], by simp, hvisit⟩
      · exact (hlevels _ _ htext hb hvisit).extend [.enter j kind' depth true]
          [.leave j kind' depth completed]

/-- **An instruction of a body is seen while the body is walked.** -/
theorem Runs.within_of_visit (h : O.Runs depth t completed)
    (hoffset : (O.visits depth).Pairwise (·.offset < ·.offset)) (hb : b ∈ O.levels depth)
    (hbody : b.IsBody i kind d) {v : Visit} (hv : v ∈ b.visits) {goOn : Bool}
    (hvisit : .visit v goOn ∈ t) : Within i kind d (.visit v goOn) t := by
  induction O generalizing depth t completed with
  | done => cases hb
  | step lang j inner kind? body next ihinner ihbody ihnext =>
    have hparts :
        v ∈ inner.visits (depth + 1) ++ (body.visits (depth + 1) ++ next.visits depth) := by
      rcases mem_levels_step hb with hb | hb | hb <;>
        simp [mem_visits_of_mem_all hb hv]
    have hlt : j.offset < v.offset := (List.pairwise_cons.1 hoffset).1 v hparts
    rcases h.eq_or_exists_middle with
      ⟨rfl, -⟩ | ⟨t₁, middle, t₃, _, hinner, hmiddle, hnext, rfl⟩
    · cases List.mem_singleton.1 hvisit
      exact absurd hlt (Nat.lt_irrefl _)
    obtain ⟨hapart₁, hapart₂, hapart₃⟩ := apart_of_step hoffset (fun _ ↦ hinner.exists_offset)
      (fun _ ↦ hmiddle.offset_eq_or) (fun _ ↦ hnext.exists_offset)
    rw [visits, List.pairwise_cons, List.pairwise_append, List.pairwise_append] at hoffset
    obtain ⟨-, hoffset₁, ⟨hoffset₂, hoffset₃, -⟩, -⟩ := hoffset
    let first : Callback := .visit ⟨lang, j, depth⟩ true
    have hvisit' : .visit v goOn ∈ t₁ ∨ .visit v goOn ∈ middle ∨ .visit v goOn ∈ t₃ := by
      rcases List.mem_cons.1 hvisit with heq | hvisit
      · cases heq
        exact absurd hlt (Nat.lt_irrefl _)
      · simpa using hvisit
    let cb : Callback := .visit v goOn
    rcases mem_levels_step hb with hb | hb | hb
    · have hinside : cb ∈ t₁ := by
        by_contra hnot
        exact hapart₁ cb (.inr (by tauto)) v (mem_visits_of_mem_all hb hv) rfl
      exact (ihinner hinner hoffset₁ (hbody.mem_levels hb) hinside).extend [first] (middle ++ t₃)
    · have hinside : cb ∈ middle := by
        by_contra hnot
        exact hapart₂ cb (.inr (by tauto)) v (mem_visits_of_mem_all hb hv) rfl
      have hwithin := hmiddle.within hb hbody hinside fun t₂ completed hbody hb hvisit ↦
        ihbody hbody hoffset₂ hb hvisit
      exact hwithin.extend (first :: t₁) t₃
    · have hinside : cb ∈ t₃ := by
        by_contra hnot
        exact hapart₃ cb (.inr (by tauto)) v (mem_visits_of_mem_all hb hv) rfl
      have hwithin := ihnext hnext hoffset₃ (hbody.mem_levels hb) hinside
      simpa [first] using hwithin.extend (first :: (t₁ ++ middle)) []

/-! ## Who completes a body -/

/-- **Only the instructions directly in a script decide whether it is completed.** -/
theorem Runs.completed_eq_false_iff (h : O.Runs depth t completed) :
    completed = false ↔ ∃ v ∈ O.direct depth, .visit v false ∈ t := by
  -- it is enough to look for a visit at the depth of the script
  suffices hdepth : completed = false ↔ ∃ v, v.depth = depth ∧ .visit v false ∈ t by
    rw [hdepth]
    constructor
    · rintro ⟨v, hv, hmem⟩
      have hvisit : v ∈ O.visits depth :=
        h.visits_sublist.subset (Trace.mem_visits_iff.2 ⟨false, hmem⟩)
      exact ⟨v, mem_direct_of_depth hvisit hv, hmem⟩
    · rintro ⟨v, hv, hmem⟩
      exact ⟨v, depth_of_mem_direct hv, hmem⟩
  induction O generalizing depth t completed with
  | done =>
    cases h
    simp
  | step lang i inner kind? body next _ _ ihnext =>
    rcases h.eq_or_exists_middle with
      ⟨rfl, rfl⟩ | ⟨t₁, middle, t₃, _, hinner, hmiddle, hnext, rfl⟩
    · exact iff_of_true rfl ⟨⟨lang, i, depth⟩, rfl, List.mem_singleton_self _⟩
    rw [ihnext hnext]
    refine exists_congr fun v ↦ and_congr_right fun hv ↦ ?_
    have h₁ : .visit v false ∉ t₁ := fun hmem ↦ by
      have hle : depth + 1 ≤ v.depth := hinner.depth_le hmem
      omega
    have h₂ : .visit v false ∉ middle := fun hmem ↦ by
      have hlt := hmiddle.depth_lt hmem
      omega
    simp [h₁, h₂]

/-! ## Questions and reports -/

section

variable (h : O.Runs depth t completed) (hoffset : (O.visits depth).Pairwise (·.offset < ·.offset))
include h hoffset

theorem Runs.nodup : t.Nodup := (h.pairwise_precedes hoffset).imp Callback.Precedes.ne

/-- The parts of a conversation before and after a question belong to its episode. -/
theorem Runs.episode_of_eq {rest : Trace} (ht : t = pre ++ .enter i kind d entered :: rest) :
    ∃ b account post, rest = account ++ post ∧
      O.Episode depth t i kind d entered b pre account post := by
  have henter : .enter i kind d entered ∈ t := by simp [ht]
  obtain ⟨b, pre', account, post, hepisode⟩ := h.exists_episode hoffset henter
  have hnodup := h.nodup hoffset
  rw [ht, List.nodup_middle, List.nodup_cons, List.mem_append, not_or] at hnodup
  obtain ⟨rfl, -, hrest⟩ := (List.append_cons_inj_of_notMem hnodup.1.1 hnodup.1.2).1
    (ht.symm.trans hepisode.eq)
  exact ⟨b, account, post, hrest, hepisode⟩

/-- A body that is entered is walked, and left. -/
theorem Runs.episode_of_entered {rest : Trace} (ht : t = pre ++ .enter i kind d true :: rest) :
    ∃ b inside completed behind, rest = inside ++ .leave i kind d completed :: behind ∧
      b.outline.Runs b.depth inside completed ∧
        O.Episode depth t i kind d true b pre (inside ++ [.leave i kind d completed]) behind := by
  obtain ⟨b, account, behind, rfl, hepisode⟩ := h.episode_of_eq hoffset ht
  match hepisode.account with
  | .entered hinside => exact ⟨b, _, _, behind, by simp, hinside, hepisode⟩

/-- A body is left once. -/
theorem Runs.leave_notMem {inside behind : Trace} {completed' : Bool}
    (ht : t = pre ++ .enter i kind d true :: (inside ++ .leave i kind d completed' :: behind))
    (c : Bool) : .leave i kind d c ∉ pre ++ (inside ++ behind) := by
  intro hc
  have ht' : t = pre ++ .enter i kind d true :: inside
      ++ .leave i kind d completed' :: behind := by simp [ht]
  have hleave : .leave i kind d completed' ∈ t := by simp [ht]
  have hleave' : .leave i kind d c ∈ t := by
    rw [ht]
    simp only [List.mem_append, List.mem_cons] at hc ⊢
    tauto
  -- all reports about a body are the same, and nothing is said twice
  rw [h.eq_of_affirmed_eq hoffset hleave' hleave rfl] at hc
  have hnodup := h.nodup hoffset
  rw [ht', List.nodup_middle, List.nodup_cons] at hnodup
  refine hnodup.1 ?_
  simp only [List.mem_append, List.mem_cons] at hc ⊢
  tauto

/-- **A body that is entered is left once**, right after everything that is said in it. -/
theorem Runs.exists_leave {rest : Trace} (ht : t = pre ++ .enter i kind d true :: rest) :
    ∃ b ∈ O.levels depth, b.IsBody i kind d ∧ ∃ inside completed behind,
      rest = inside ++ .leave i kind d completed :: behind ∧
        (∀ cb ∈ inside, d + 1 ≤ cb.depth ∧ b.Hosts cb) ∧ (∀ cb ∈ pre ++ behind, ¬ b.Hosts cb) ∧
          (∀ c, .leave i kind d c ∉ pre ++ (inside ++ behind)) ∧
            (completed = false ↔ ∃ v ∈ b.direct, .visit v false ∈ inside) := by
  obtain ⟨b, inside, completed, behind, rfl, hinside, hepisode⟩ := h.episode_of_entered hoffset ht
  refine ⟨b, hepisode.mem, hepisode.isBody, inside, completed, behind, rfl,
    fun cb hcb ↦ ⟨?_, hinside.exists_visit hcb⟩, fun cb hcb ↦ hepisode.not_hosts hcb,
    h.leave_notMem hoffset ht, hinside.completed_eq_false_iff⟩
  rw [← hepisode.isBody.depth]
  exact hinside.depth_le hcb

/-- **A body that is passed over has no part in the conversation.** -/
theorem Runs.not_mem_of_refused (henter : .enter i kind d false ∈ t) :
    (∀ c, .leave i kind d c ∉ t) ∧
      ∃ b ∈ O.levels depth, b.IsBody i kind d ∧ ∀ cb ∈ t, ¬ b.Hosts cb := by
  refine ⟨fun c hc ↦ ?_, ?_⟩
  · cases h.eq_of_affirmed_eq hoffset henter (h.enter_mem_of_leave_mem hc) rfl
  · obtain ⟨b, pre, account, post, hepisode⟩ := h.exists_episode hoffset henter
    refine ⟨b, hepisode.mem, hepisode.isBody, fun cb hcb ↦ ?_⟩
    have haccount : account = [] := by
      match hepisode.account with
      | .passed => rfl
    rw [hepisode.eq, haccount, List.nil_append] at hcb
    rcases List.mem_append.1 hcb with hcb | hcb
    · exact hepisode.not_hosts (List.mem_append_left _ hcb)
    rcases List.mem_cons.1 hcb with rfl | hcb
    · rintro ⟨v, hv, -, hdepth⟩
      have hle := Outline.depth_le hv
      rw [hdepth, hepisode.isBody.depth] at hle
      exact Nat.not_succ_le_self d hle
    · exact hepisode.not_hosts (List.mem_append_right _ hcb)

/-- Where a conversation is cut off in front of an instruction, a body that was entered is not left
yet if the instruction is in it. -/
theorem Runs.mem_visits_of_not_left {T rest : Trace} {w : Visit} {goOn : Bool}
    (ht : t = T ++ .visit w goOn :: rest) (henter : .enter i kind d true ∈ T)
    (hopen : ∀ c, .leave i kind d c ∉ T) :
    ∃ b ∈ O.levels depth, b.IsBody i kind d ∧ w ∈ b.visits := by
  obtain ⟨pre, q, rfl⟩ := List.append_of_mem henter
  rw [List.append_assoc, List.cons_append] at ht
  obtain ⟨b, inside, completed, behind, hrest, hinside, hepisode⟩ :=
    h.episode_of_entered hoffset ht
  refine ⟨b, hepisode.mem, hepisode.isBody, ?_⟩
  have hleave : .leave i kind d completed ∉ q := fun hmem ↦
    hopen completed (List.mem_append_right _ (List.mem_cons_of_mem _ hmem))
  rcases List.append_eq_append_iff.1 hrest with ⟨tail, rfl, htail⟩ | ⟨tail, rfl, htail⟩
  · -- the cut is in the body
    rcases tail with _ | ⟨_, tail⟩
    · cases htail
    cases htail
    refine hinside.visits_sublist.subset (Trace.mem_visits_iff.2 ⟨goOn, ?_⟩)
    simp
  · -- the cut is behind the body
    rcases tail with _ | ⟨_, tail⟩
    · cases htail
    cases htail
    simp at hleave

/-- In front of an instruction, the bodies that it is in have been entered, and they have not been
left. -/
theorem Runs.enter_mem_of_mem_visits {T rest : Trace} {w : Visit} {goOn : Bool}
    (ht : t = T ++ .visit w goOn :: rest) (hb : b ∈ O.levels depth) (hbody : b.IsBody i kind d)
    (hw : w ∈ b.visits) : .enter i kind d true ∈ T ∧ ∀ c, .leave i kind d c ∉ T := by
  have hvisit : .visit w goOn ∈ t := by simp [ht]
  obtain ⟨pre, inside, completed, behind, ht', hinside⟩ :=
    h.within_of_visit hoffset hb hbody hw hvisit
  obtain ⟨q, q', rfl⟩ := List.append_of_mem hinside
  have hnodup := h.nodup hoffset
  rw [ht, List.nodup_middle, List.nodup_cons, List.mem_append, not_or] at hnodup
  -- the instruction is seen once, so that the cut is in the body
  have hcut : T ++ .visit w goOn :: rest = pre ++ .enter i kind d true :: q
      ++ .visit w goOn :: (q' ++ .leave i kind d completed :: behind) := by
    rw [← ht, ht']
    simp
  obtain ⟨rfl, -, -⟩ := (List.append_cons_inj_of_notMem hnodup.1.1 hnodup.1.2).1 hcut
  refine ⟨by simp, fun c hc ↦ ?_⟩
  have honce := h.leave_notMem hoffset ht' c
  simp only [List.mem_append, List.mem_cons, reduceCtorEq, false_or] at hc honce
  tauto

/-- **Where a conversation is cut off in front of an instruction**, the bodies that were entered and
not left are those that the instruction is in. -/
theorem Runs.not_left_iff {T rest : Trace} {w : Visit} {goOn : Bool}
    (ht : t = T ++ .visit w goOn :: rest) (i : Instruction) (kind : BodyKind) (d : Nat) :
    (.enter i kind d true ∈ T ∧ ∀ c, .leave i kind d c ∉ T) ↔
      ∃ b ∈ O.levels depth, b.IsBody i kind d ∧ w ∈ b.visits := by
  constructor
  · rintro ⟨henter, hopen⟩
    exact h.mem_visits_of_not_left hoffset ht henter hopen
  · rintro ⟨b, hb, hbody, hw⟩
    exact h.enter_mem_of_mem_visits hoffset ht hb hbody hw

end

end Outline

/-! ## Main statement -/

namespace Observer

variable {σ : Type}

/-- **What is said around bodies is well nested.**  Take any observer, any script and any ceiling,
and let `T` be the trace of the walk.

If the ceiling is not reached, then after every body that is entered, `T` goes on with callbacks
about instructions in the body, which are deeper, and then with the one report that the body was
left.  Nothing else in `T` is about the body.  The report says that the body was not completed if
and only if the body was given up at an instruction directly in it.

A body that is passed over is not left, and nothing is said about its instructions.

If the ceiling is reached, then `T` is all that is said, and under every higher ceiling the walk
would go on with the same instruction `w`.  The bodies that were entered and not left are those that
`w` is in. -/
theorem callbacks_well_nested (o : Observer σ) (limit : Nat) (lang : Language) (origin : Nat)
    (code : Stretch) (x : σ) :
    let T := o.trace limit lang origin code x
    let hit := (o.walk limit lang origin code x).2.hitLimit
    (hit = false → ∀ (pre : Trace) i kind d rest, T = pre ++ .enter i kind d true :: rest →
      ∃ b ∈ lang.levels origin code, b.IsBody i kind d ∧ ∃ inside completed behind,
        rest = inside ++ .leave i kind d completed :: behind ∧
          (∀ cb ∈ inside, d + 1 ≤ cb.depth ∧ b.Hosts cb) ∧ (∀ cb ∈ pre ++ behind, ¬ b.Hosts cb) ∧
            (∀ c, .leave i kind d c ∉ pre ++ (inside ++ behind)) ∧
              (completed = false ↔ ∃ v ∈ b.direct, .visit v false ∈ inside)) ∧
    (∀ i kind d, .enter i kind d false ∈ T → (∀ c, .leave i kind d c ∉ T) ∧
      ∃ b ∈ lang.levels origin code, b.IsBody i kind d ∧ ∀ cb ∈ T, ¬ b.Hosts cb) ∧
    (hit = true → ∃ w goOn,
      (∀ limit' > limit, ∃ rest, o.trace limit' lang origin code x = T ++ .visit w goOn :: rest) ∧
        ∀ i kind d, (.enter i kind d true ∈ T ∧ ∀ c, .leave i kind d c ∉ T) ↔
          ∃ b ∈ lang.levels origin code, b.IsBody i kind d ∧ w ∈ b.visits) := by
  intro T hit
  obtain ⟨t, completed, hruns, -, htrace, hwalk⟩ := o.exists_trace lang origin code x
  have hoffset := (decodes_outline lang (.start origin code)).pairwise_offset 0
  have hT : T = t.upTo limit := htrace limit
  have hhit : hit = true ↔ limit < t.visits.length := by
    rw [show hit = (t.report limit).hitLimit from congrArg (·.2.hitLimit) (hwalk limit)]
    exact Trace.hitLimit_report limit t
  refine ⟨fun hnot pre i kind d rest heq ↦ ?_, fun i kind d henter ↦ ?_, fun hlimit ↦ ?_⟩
  · have hfull : t.upTo limit = t := by
      refine Trace.upTo_eq_self (Nat.le_of_not_lt fun hlt ↦ ?_)
      rw [hhit.2 hlt] at hnot
      cases hnot
    obtain ⟨b, hb, hall⟩ := hruns.exists_leave hoffset (hfull.symm.trans (hT.symm.trans heq))
    exact ⟨b, List.mem_cons_of_mem _ hb, hall⟩
  · have hsubset : T ⊆ t := by
      rw [hT]
      exact (Trace.upTo_isPrefixOf limit t).subset
    obtain ⟨hleave, b, hb, hbody, hhosts⟩ := hruns.not_mem_of_refused hoffset (hsubset henter)
    exact ⟨fun c hc ↦ hleave c (hsubset hc), b, List.mem_cons_of_mem _ hb, hbody,
      fun cb hcb ↦ hhosts cb (hsubset hcb)⟩
  · obtain ⟨w, goOn, rest, ht⟩ := Trace.exists_upTo_append (hhit.1 hlimit)
    refine ⟨w, goOn, fun limit' hlt ↦ ?_, fun i kind d ↦ ?_⟩
    · rw [hT, htrace limit']
      exact Trace.exists_upTo_eq hlt (hhit.1 hlimit) ht
    · rw [hT, hruns.not_left_iff hoffset ht]
      refine exists_congr fun b ↦ and_congr_left fun ⟨hbody, _⟩ ↦ ?_
      exact ⟨List.mem_cons_of_mem _, hbody.mem_levels⟩

/-- Gives up what is two levels deep, and enters no bodies from a place on. -/
def wary : Observer Nat where
  visit _ _ depth n := (decide (depth < 2), n + 1)
  enter i _ _ n := (decide (i.offset < 0x4e), n)
  leave _ _ _ _ n := n

/-- A conditional in a conditional, and a third one behind them.  The body of the inner one is given
up and the body of the last one is passed over; and a ceiling of three instructions strikes in the
outer body, behind the inner one. -/
theorem callbacks_well_nested_if :
    let code := Bytes.whole
      #[0x06, 0x00, 0x0a, 0x00, 0x06, 0x00, 0x04, 0x00, 0x00, 0x00, 0x08, 0x00, 0x08, 0x00,
        0x06, 0x00, 0x04, 0x00, 0x00, 0x00, 0x08, 0x00]
    let T := wary.trace 16 .re2 0x40 code 0
    let T' := wary.trace 3 .re2 0x40 code 0
    let outer : Instruction := { offset := 0x40, bytes := #[0x06, 0x00, 0x0a, 0x00] }
    let inner : Instruction := { offset := 0x44, bytes := #[0x06, 0x00, 0x04, 0x00] }
    let last : Instruction := { offset := 0x4e, bytes := #[0x06, 0x00, 0x04, 0x00] }
    (wary.walk 16 .re2 0x40 code 0).2.hitLimit = false ∧
      (∃ pre rest : Trace, T = pre ++ .enter inner .thenBody 1 true :: rest ∧
        ∃ b ∈ Language.re2.levels 0x40 code, b.IsBody inner .thenBody 1 ∧
          ∃ inside completed behind, rest = inside ++ .leave inner .thenBody 1 completed :: behind ∧
            (completed = false ↔ ∃ v ∈ b.direct, .visit v false ∈ inside)) ∧
      (∃ b ∈ Language.re2.levels 0x40 code, b.IsBody last .thenBody 0 ∧ ∀ cb ∈ T, ¬ b.Hosts cb) ∧
      (wary.walk 3 .re2 0x40 code 0).2.hitLimit = true ∧
      ∃ w goOn, (∃ rest, T = T' ++ .visit w goOn :: rest) ∧
        ∃ b ∈ Language.re2.levels 0x40 code, b.IsBody outer .thenBody 0 ∧ w ∈ b.visits := by
  intro code T T' outer inner last
  have hhit : (wary.walk 16 .re2 0x40 code 0).2.hitLimit = false := by decide +kernel
  have hhit' : (wary.walk 3 .re2 0x40 code 0).2.hitLimit = true := by decide +kernel
  have hinner : T = T.take 3 ++ .enter inner .thenBody 1 true :: T.drop 4 := by decide +kernel
  have hlast : .enter last .thenBody 0 false ∈ T := by decide +kernel
  have houter : .enter outer .thenBody 0 true ∈ T' := by decide +kernel
  have hopen : ∀ c, .leave outer .thenBody 0 c ∉ T' := by decide +kernel
  obtain ⟨hentered, hrefused, -⟩ := callbacks_well_nested wary 16 .re2 0x40 code 0
  obtain ⟨-, -, hcut⟩ := callbacks_well_nested wary 3 .re2 0x40 code 0
  obtain ⟨b, hb, hbody, inside, completed, behind, hrest, -, -, -, hiff⟩ :=
    hentered hhit _ _ _ _ _ hinner
  obtain ⟨w, goOn, hnext, hbodies⟩ := hcut hhit'
  exact ⟨hhit, ⟨_, _, hinner, b, hb, hbody, inside, completed, behind, hrest, hiff⟩,
    (hrefused _ _ _ hlast).2, hhit', w, goOn, hnext 16 (by decide),
    (hbodies _ _ _).1 ⟨houter, hopen⟩⟩

end Observer
end RoomScript
