import RoomScript.Proofs.Placement
import RoomScript.Proofs.Ceiling

/-!
# What an observer misses

An observer steers a walk by its answers, but all that it can do is to leave things out.  What it
sees is a part of what everyone could see, in the same order, and each instruction looks the same
from wherever it is reached: the same place, the same bytes, the same mode and the same depth.

What it misses is exactly what it asked for.  An instruction is missed if it is in a level that was
not entered, or behind an instruction that its level was given up at.  Neither the code nor anything
else in the answers has a part in this.

## What is here

* `Outline.pairwise_precedes` — a conversation goes through the instructions of a script in order.
  So nothing is said twice (`Outline.nodup_callbacks`).
* `Outline.Runs.eq_of_affirmed_eq` — a question has one answer: two callbacks of a conversation that
  differ in their answers at most are the same.  The answers of an observer depend on its state, but
  by this they are functions of what was asked (`Callback.Follows`).
* `Outline.heard` — what is heard with given answers, by recursion on the outline.  There is no
  observer in it and no order in which things are said.  `Outline.Runs.visits_eq_heard` says that it
  is what is seen.
* `Outline.not_mem_heard`, `Outline.exists_loses` — what is behind a refusal, or behind the
  instruction that its level was given up at (`Level.Loses`), is missed, and nothing else is.
* `Observer.not_mem_visits_iff_of_thorough` — the same for walks, next to what an observer sees that
  goes through everything.

Taking the answers for functions is what makes the induction on the outline possible: the parts of a
script do not share a state then, and each can be looked at by itself.
-/

set_option autoImplicit false

namespace RoomScript

/-! ## The order of a conversation -/

namespace Callback

/-- The callback, with the answer that leaves nothing out. -/
def affirmed : Callback → Callback
  | .visit v _ => .visit v true
  | .enter i kind depth _ => .enter i kind depth true
  | .leave i kind depth _ => .leave i kind depth true

/-- The place of the instruction that a callback is about. -/
def offset : Callback → Nat
  | .visit v _ => v.offset
  | .enter i .. | .leave i .. => i.offset

/-- The instruction that a callback is about. -/
def instruction : Callback → Instruction
  | .visit v _ => v.instruction
  | .enter i .. | .leave i .. => i

/-- The depth of that instruction. -/
def depth : Callback → Nat
  | .visit v _ => v.depth
  | .enter _ _ depth _ | .leave _ _ depth _ => depth

/-- The order in which things are said about one instruction. -/
def rank : Callback → Nat
  | .visit .. => 0
  | .enter .. => 1
  | .leave .. => 2

/-- What comes first in a conversation: what is about an instruction further in front.  But what is
said behind a body comes later than all that is deeper. -/
def Precedes (a b : Callback) : Prop :=
  a.offset < b.offset ∨ b.depth < a.depth ∨ a.offset = b.offset ∧ a.rank < b.rank

theorem Precedes.ne {a b : Callback} (h : a.Precedes b) : a ≠ b := by
  rintro rfl
  rcases h with h | h | ⟨-, h⟩
  · exact Nat.lt_irrefl _ h
  · exact Nat.lt_irrefl _ h
  · exact Nat.lt_irrefl _ h

/-- Whether the answer of a callback is the one that `goOn` or `entered` gives. -/
def Follows (goOn : Visit → Bool) (entered : Instruction → BodyKind → Nat → Bool) :
    Callback → Prop
  | .visit v b => goOn v = b
  | .enter i kind depth b => entered i kind depth = b
  | .leave .. => True

end Callback

theorem Trace.visits_map_affirmed (t : Trace) :
    Trace.visits (t.map Callback.affirmed) = t.visits := by
  induction t with
  | nil => rfl
  | cons cb t ih => cases cb <;> simp [visits, Callback.affirmed, ih]

theorem Trace.visits_sublist {t t' : Trace} (h : t.Sublist t') :
    (Trace.visits t).Sublist (Trace.visits t') := by
  induction h with
  | slnil => exact .slnil
  | cons cb _ ih =>
    cases cb with
    | visit v goOn => exact .cons _ ih
    | enter => exact ih
    | leave => exact ih
  | cons_cons cb _ ih =>
    cases cb with
    | visit v goOn => exact .cons_cons _ ih
    | enter => exact ih
    | leave => exact ih

namespace Outline

variable {O : Outline} {depth : Nat} {t : Trace} {completed : Bool}

/-- Every conversation is a part of the one that leaves nothing out, if the answers are set
aside. -/
theorem Runs.map_affirmed_sublist (h : O.Runs depth t completed) :
    (t.map Callback.affirmed).Sublist (O.callbacks depth) := by
  induction h with
  | done => exact .slnil
  | stop => exact .cons_cons _ (List.nil_sublist _)
  | plain _ _ _ ihinner ihbody ihnext =>
    simp only [List.map_cons, List.map_append, callbacks, framed]
    exact .cons_cons _ (ihinner.append (ihbody.append ihnext))
  | pass _ _ ihinner ihnext =>
    simp only [List.map_cons, List.map_append, callbacks, framed, List.cons_append]
    refine .cons_cons _ (ihinner.append (.cons_cons _ ?_))
    exact ihnext.trans (List.sublist_append_right _ _)
  | enter _ _ _ ihinner ihbody ihnext =>
    simp only [List.map_cons, List.map_append, callbacks, framed, List.cons_append,
      List.append_assoc, List.nil_append]
    exact .cons_cons _ (ihinner.append (.cons_cons _ (ihbody.append (.cons_cons _ ihnext))))

theorem Runs.visits_sublist (h : O.Runs depth t completed) :
    t.visits.Sublist (O.visits depth) := by
  rw [← t.visits_map_affirmed, ← visits_callbacks]
  exact Trace.visits_sublist h.map_affirmed_sublist

/-- What is seen under a ceiling is a part of all there is to see. -/
theorem Runs.visits_upTo_sublist (h : O.Runs depth t completed) (limit : Nat) :
    (t.upTo limit).visits.Sublist (O.visits depth) :=
  (Trace.visits_sublist (t.upTo_isPrefixOf limit).sublist).trans h.visits_sublist

/-- No observer comes to more instructions of a script than it has bytes. -/
theorem Runs.length_visits_le {lang : Language} {origin : Nat} {code : Stretch}
    (h : (lang.outline (.start origin code)).Runs 0 t completed) : t.visits.length ≤ code.size :=
  Nat.le_trans h.visits_sublist.length_le (lang.length_visits_outline_le origin code)

theorem mem_framed {cb : Callback} {i : Instruction} {kind? : Option BodyKind} :
    cb ∈ framed i depth kind? t ↔ cb ∈ t ∨ ∃ kind, kind? = some kind ∧
      (cb = .enter i kind depth true ∨ cb = .leave i kind depth true) := by
  cases kind? with
  | none => simp [framed]
  | some kind =>
    simp only [framed, List.mem_cons, List.mem_append, List.not_mem_nil, or_false,
      Option.some.injEq, exists_eq_left']
    exact or_left_comm

/-- Nothing is said about instructions that are not there. -/
theorem exists_visit_of_mem_callbacks {cb : Callback} (h : cb ∈ O.callbacks depth) :
    ∃ v ∈ O.visits depth, v.offset = cb.offset ∧ v.instruction = cb.instruction ∧
      v.depth = cb.depth := by
  induction O generalizing depth with
  | done => cases h
  | step lang i inner kind? body next ihinner ihbody ihnext =>
    have hown : ∃ v ∈ (step lang i inner kind? body next).visits depth,
        v.offset = i.offset ∧ v.instruction = i ∧ v.depth = depth :=
      ⟨⟨lang, i, depth⟩, List.mem_cons_self, rfl, rfl, rfl⟩
    simp only [callbacks, List.mem_cons, List.mem_append, mem_framed] at h
    rcases h with rfl | h | (h | ⟨kind, -, rfl | rfl⟩) | h
    · exact hown
    · obtain ⟨v, hv, heq⟩ := ihinner h
      exact ⟨v, by simp [visits, hv], heq⟩
    · obtain ⟨v, hv, heq⟩ := ihbody h
      exact ⟨v, by simp [visits, hv], heq⟩
    · exact hown
    · exact hown
    · obtain ⟨v, hv, heq⟩ := ihnext h
      exact ⟨v, by simp [visits, hv], heq⟩

theorem depth_le_of_mem_callbacks {cb : Callback} (h : cb ∈ O.callbacks depth) :
    depth ≤ cb.depth := by
  obtain ⟨v, hv, -, -, hdepth⟩ := exists_visit_of_mem_callbacks h
  rw [← hdepth]
  exact depth_le hv

/-- What is said about instructions further in front has smaller offsets. -/
theorem offset_lt_of_mem_callbacks {O' : Outline} {depth' : Nat} {cb cb' : Callback}
    (h : ∀ v ∈ O.visits depth, ∀ w ∈ O'.visits depth', v.offset < w.offset)
    (hcb : cb ∈ O.callbacks depth) (hcb' : cb' ∈ O'.callbacks depth') : cb.offset < cb'.offset := by
  obtain ⟨v, hv, hoffset, -⟩ := exists_visit_of_mem_callbacks hcb
  obtain ⟨w, hw, hoffset', -⟩ := exists_visit_of_mem_callbacks hcb'
  rw [← hoffset, ← hoffset']
  exact h v hv w hw

/-- What is said around a body comes in front of what is said in it, or behind. -/
theorem pairwise_precedes_framed {i : Instruction} (kind? : Option BodyKind)
    (ht : t.Pairwise Callback.Precedes)
    (hinside : ∀ cb ∈ t, i.offset < cb.offset ∧ depth < cb.depth) :
    (framed i depth kind? t).Pairwise Callback.Precedes := by
  cases kind? with
  | none => exact ht
  | some kind =>
    rw [framed, List.pairwise_cons, List.pairwise_append]
    refine ⟨fun cb hcb ↦ ?_, ht, List.pairwise_singleton _ _, fun a ha b hb ↦ ?_⟩
    · rcases List.mem_append.1 hcb with hcb | hcb
      · exact .inl (hinside cb hcb).1
      · rw [List.mem_singleton.1 hcb]
        exact .inr (.inr ⟨rfl, Nat.one_lt_two⟩)
    · rw [List.mem_singleton.1 hb]
      exact .inr (.inl (hinside a ha).2)

/-- **A conversation goes through the instructions of a depth in order.** -/
theorem pairwise_precedes (h : (O.visits depth).Pairwise (·.offset < ·.offset)) :
    (O.callbacks depth).Pairwise Callback.Precedes := by
  induction O generalizing depth with
  | done => exact .nil
  | step lang i inner kind? body next ihinner ihbody ihnext =>
    rw [visits, List.pairwise_cons, List.pairwise_append, List.pairwise_append] at h
    obtain ⟨hown, hinner, ⟨hbody, hnext, hbodynext⟩, hbehind⟩ := h
    -- the three parts are behind the instruction, one behind the other
    have hpart {P : Outline} {d : Nat} (hP : ∀ v ∈ P.visits d, v ∈ inner.visits (depth + 1)
        ++ (body.visits (depth + 1) ++ next.visits depth)) :
        ∀ cb ∈ P.callbacks d, i.offset < cb.offset := by
      intro cb hcb
      obtain ⟨v, hv, hoffset, -⟩ := exists_visit_of_mem_callbacks hcb
      rw [← hoffset]
      exact hown v (hP v hv)
    have hinner' := hpart (P := inner) (d := depth + 1) fun v hv ↦ by simp [hv]
    have hbody' := hpart (P := body) (d := depth + 1) fun v hv ↦ by simp [hv]
    have hnext' := hpart (P := next) (d := depth) fun v hv ↦ by simp [hv]
    rw [callbacks, List.pairwise_cons, List.pairwise_append, List.pairwise_append]
    refine ⟨fun cb hcb ↦ ?_, ihinner hinner, ⟨?_, ihnext hnext, fun a ha b hb ↦ ?_⟩,
      fun a ha b hb ↦ ?_⟩
    · simp only [List.mem_append, mem_framed] at hcb
      rcases hcb with hcb | (hcb | ⟨kind, -, rfl | rfl⟩) | hcb
      · exact .inl (hinner' cb hcb)
      · exact .inl (hbody' cb hcb)
      · exact .inr (.inr ⟨rfl, Nat.zero_lt_one⟩)
      · exact .inr (.inr ⟨rfl, Nat.zero_lt_two⟩)
      · exact .inl (hnext' cb hcb)
    · exact pairwise_precedes_framed kind? (ihbody hbody) fun cb hcb ↦
        ⟨hbody' cb hcb, depth_le_of_mem_callbacks hcb⟩
    · rcases mem_framed.1 ha with ha | ⟨kind, -, rfl | rfl⟩
      · exact .inl (offset_lt_of_mem_callbacks hbodynext ha hb)
      · exact .inl (hnext' b hb)
      · exact .inl (hnext' b hb)
    · simp only [List.mem_append, mem_framed] at hb
      rcases hb with (hb | ⟨kind, -, rfl | rfl⟩) | hb
      · refine .inl (offset_lt_of_mem_callbacks (fun v hv w hw ↦ ?_) ha hb)
        exact hbehind v hv w (List.mem_append_left _ hw)
      · exact .inr (.inl (depth_le_of_mem_callbacks ha))
      · exact .inr (.inl (depth_le_of_mem_callbacks ha))
      · refine .inl (offset_lt_of_mem_callbacks (fun v hv w hw ↦ ?_) ha hb)
        exact hbehind v hv w (List.mem_append_right _ hw)

/-- **Nothing is said twice.** -/
theorem nodup_callbacks (h : (O.visits depth).Pairwise (·.offset < ·.offset)) :
    (O.callbacks depth).Nodup :=
  (pairwise_precedes h).imp Callback.Precedes.ne

/-- **A question has one answer.** -/
theorem Runs.eq_of_affirmed_eq (h : O.Runs depth t completed)
    (hoffset : (O.visits depth).Pairwise (·.offset < ·.offset)) {cb cb' : Callback} (hcb : cb ∈ t)
    (hcb' : cb' ∈ t) (heq : cb.affirmed = cb'.affirmed) : cb = cb' := by
  have hnodup : (t.map Callback.affirmed).Nodup :=
    h.map_affirmed_sublist.nodup (nodup_callbacks hoffset)
  have hne : t.Pairwise fun a b ↦ a.affirmed ≠ b.affirmed := List.pairwise_map.1 hnodup
  refine List.Pairwise.forall_of_forall_of_flip
    (R := fun a b : Callback ↦ a.affirmed = b.affirmed → a = b) ?_ ?_ ?_ hcb hcb' heq
  · exact fun _ _ _ ↦ rfl
  · exact hne.imp fun hab heq ↦ absurd heq hab
  · exact hne.imp fun hab heq ↦ absurd heq.symm hab

/-! ## What is heard with given answers -/

section

variable (goOn : Visit → Bool) (entered : Instruction → BodyKind → Nat → Bool)

/-- The instructions that are seen if `goOn` and `entered` are the answers. -/
def heard : Outline → Nat → List Visit
  | done .., _ => []
  | step lang i inner kind? body next, depth =>
    ⟨lang, i, depth⟩ ::
      if goOn ⟨lang, i, depth⟩ then
        inner.heard (depth + 1)
          ++ ((if kind?.all (entered i · depth) then body.heard (depth + 1) else [])
            ++ next.heard depth)
      else []

end

variable {goOn : Visit → Bool} {entered : Instruction → BodyKind → Nat → Bool}

/-- What is seen in a conversation follows from the answers. -/
theorem Runs.visits_eq_heard (h : O.Runs depth t completed)
    (hanswers : ∀ cb ∈ t, cb.Follows goOn entered) : t.visits = O.heard goOn entered depth := by
  induction h with
  | done => rfl
  | stop =>
    have hvisit := hanswers _ List.mem_cons_self
    rw [heard, show goOn _ = false from hvisit]
    rfl
  | plain _ _ _ ihinner ihbody ihnext =>
    simp only [List.forall_mem_cons, List.forall_mem_append] at hanswers
    obtain ⟨hvisit, h₁, h₂, h₃⟩ := hanswers
    rw [heard, show goOn _ = true from hvisit, ← ihinner h₁, ← ihbody h₂, ← ihnext h₃]
    simp [Trace.visits]
  | pass _ _ ihinner ihnext =>
    simp only [List.forall_mem_cons, List.forall_mem_append] at hanswers
    obtain ⟨hvisit, h₁, henter, h₃⟩ := hanswers
    rw [heard, show goOn _ = true from hvisit, Option.all_some,
      show entered _ _ _ = false from henter, ← ihinner h₁, ← ihnext h₃]
    simp [Trace.visits]
  | enter _ _ _ ihinner ihbody ihnext =>
    simp only [List.forall_mem_cons, List.forall_mem_append] at hanswers
    obtain ⟨hvisit, h₁, henter, h₂, -, h₃⟩ := hanswers
    rw [heard, show goOn _ = true from hvisit, Option.all_some,
      show entered _ _ _ = true from henter, ← ihinner h₁, ← ihbody h₂, ← ihnext h₃]
    simp [Trace.visits]

theorem mem_visits_of_mem_heard {v : Visit} (h : v ∈ O.heard goOn entered depth) :
    v ∈ O.visits depth := by
  induction O generalizing depth with
  | done => cases h
  | step lang i inner kind? body next ihinner ihbody ihnext =>
    rcases List.mem_cons.1 h with rfl | h
    · exact List.mem_cons_self
    · refine List.mem_cons_of_mem _ ?_
      split at h
      · rcases List.mem_append.1 h with h | h
        · exact List.mem_append_left _ (ihinner h)
        · rcases List.mem_append.1 h with h | h
          · split at h
            · exact List.mem_append_right _ (List.mem_append_left _ (ihbody h))
            · cases h
          · exact List.mem_append_right _ (List.mem_append_right _ (ihnext h))
      · cases h

end Outline

/-! ## What is missed -/

namespace Level

variable (goOn : Visit → Bool) (entered : Instruction → BodyKind → Nat → Bool)

/-- Whether a level is passed over. -/
def Refused (b : Level) : Prop :=
  ∃ i kind depth, b.opener? = some (i, kind) ∧ b.depth = depth + 1 ∧ entered i kind depth = false

/-- Whether a level is given up before the instruction `v`. -/
def GivenUp (b : Level) (v : Visit) : Prop := ∃ w ∈ b.direct, goOn w = false ∧ w.offset < v.offset

/-- Whether the instruction `v` of a level is missed because of that level. -/
def Loses (b : Level) (v : Visit) : Prop :=
  v ∈ b.visits ∧ (b.Refused entered ∨ b.GivenUp goOn v)

end Level

namespace Outline

variable {O : Outline} {depth : Nat} {goOn : Visit → Bool}
  {entered : Instruction → BodyKind → Nat → Bool} {opener? : Option (Instruction × BodyKind)}
  {b : Level} {v : Visit}

/-- The levels of a script that begins with an instruction. -/
theorem mem_all_step {lang : Language} {i : Instruction} {inner body next : Outline}
    {kind? : Option BodyKind} :
    b ∈ Level.all ⟨opener?, depth, step lang i inner kind? body next⟩ ↔
      b = ⟨opener?, depth, step lang i inner kind? body next⟩ ∨
        b ∈ Level.all ⟨none, depth + 1, inner⟩ ∨
          b ∈ Level.all ⟨kind?.map (i, ·), depth + 1, body⟩ ∨ b ∈ next.levels depth := by
  simp [Level.all, levels, or_assoc]

/-- The instructions of a level are next to each other. -/
theorem visits_infix_of_mem_all (hb : b ∈ Level.all ⟨opener?, depth, O⟩) :
    b.visits <:+: O.visits depth := by
  induction O generalizing opener? depth with
  | done =>
    rw [List.mem_singleton.1 hb]
    exact List.infix_refl _
  | step lang i inner kind? body next ihinner ihbody ihnext =>
    let first : Visit := ⟨lang, i, depth⟩
    rcases mem_all_step.1 hb with rfl | hb | hb | hb
    · exact List.infix_refl _
    · refine (ihinner hb).trans ⟨[first], body.visits (depth + 1) ++ next.visits depth, ?_⟩
      simp [visits, first]
    · refine (ihbody hb).trans ⟨first :: inner.visits (depth + 1), next.visits depth, ?_⟩
      simp [visits, first]
    · have hb' : b ∈ Level.all ⟨opener?, depth, next⟩ := List.mem_cons_of_mem _ hb
      refine (ihnext hb').trans
        ⟨first :: (inner.visits (depth + 1) ++ body.visits (depth + 1)), [], ?_⟩
      simp [visits, first]

/-- What is in a level is in everything that the level is in. -/
theorem mem_visits_of_mem_all (hb : b ∈ Level.all ⟨opener?, depth, O⟩) (hv : v ∈ b.visits) :
    v ∈ O.visits depth :=
  (visits_infix_of_mem_all hb).subset hv

/-- What is not heard is missed because of a level. -/
theorem exists_loses (hoffset : (O.visits depth).Pairwise (·.offset < ·.offset))
    (hv : v ∈ O.visits depth) (hnot : v ∉ O.heard goOn entered depth)
    (opener? : Option (Instruction × BodyKind)) :
    ∃ b ∈ Level.all ⟨opener?, depth, O⟩, b.Loses goOn entered v := by
  induction O generalizing opener? depth with
  | done => cases hv
  | step lang i inner kind? body next ihinner ihbody ihnext =>
    rw [visits, List.pairwise_cons, List.pairwise_append, List.pairwise_append] at hoffset
    obtain ⟨hown, hinner, ⟨hbody, hnext, -⟩, -⟩ := hoffset
    rw [heard] at hnot
    rcases List.mem_cons.1 hv with rfl | hpart
    · exact absurd List.mem_cons_self hnot
    cases hgoOn : goOn ⟨lang, i, depth⟩ with
    | false =>
      refine ⟨_, List.mem_cons_self, hv, .inr ⟨⟨lang, i, depth⟩, List.mem_cons_self, hgoOn, ?_⟩⟩
      exact hown v hpart
    | true =>
      rw [if_pos hgoOn] at hnot
      simp only [List.mem_cons, List.mem_append, not_or] at hnot hpart
      obtain ⟨-, hnotinner, hnotbody, hnotnext⟩ := hnot
      rcases hpart with hpart | hpart | hpart
      · obtain ⟨b, hb, hloses⟩ := ihinner hinner hpart hnotinner none
        exact ⟨b, mem_all_step.2 (.inr (.inl hb)), hloses⟩
      · by_cases hentered : kind?.all (entered i · depth) = true
        · rw [if_pos hentered] at hnotbody
          obtain ⟨b, hb, hloses⟩ := ihbody hbody hpart hnotbody (kind?.map (i, ·))
          exact ⟨b, mem_all_step.2 (.inr (.inr (.inl hb))), hloses⟩
        · cases kind? with
          | none => exact absurd rfl hentered
          | some kind =>
            refine ⟨_, mem_all_step.2 (.inr (.inr (.inl List.mem_cons_self))), hpart, .inl ?_⟩
            exact ⟨i, kind, depth, rfl, rfl, by simpa using hentered⟩
      · obtain ⟨b, hb, hloses⟩ := ihnext hnext hpart hnotnext opener?
        rcases List.mem_cons.1 hb with rfl | hb
        · refine ⟨_, List.mem_cons_self, hv, hloses.2.imp id ?_⟩
          rintro ⟨w, hw, hrest⟩
          exact ⟨w, List.mem_cons_of_mem _ hw, hrest⟩
        · exact ⟨b, mem_all_step.2 (.inr (.inr (.inr hb))), hloses⟩

/-- In front of the whole script and of a fragment nobody is asked. -/
theorem not_refused_none (depth : Nat) (O : Outline) :
    ¬ Level.Refused entered ⟨none, depth, O⟩ := by
  rintro ⟨i, kind, depth, hopener, -⟩
  cases hopener

theorem not_refused_of_all {i : Instruction} {kind? : Option BodyKind}
    (h : kind?.all (entered i · depth) = true) (O : Outline) :
    ¬ Level.Refused entered ⟨kind?.map (i, ·), depth + 1, O⟩ := by
  rintro ⟨i', kind', depth', hopener, hdepth, hrefused⟩
  obtain ⟨kind, hkind, heq⟩ := Option.map_eq_some_iff.1 hopener
  cases heq
  cases hdepth
  rw [hkind, Option.all_some, hrefused] at h
  cases h

/-! ### Which level it is

An instruction that is missed because of a level is in a part of the outline, and the level is in
the same part or around it.  If it is around it, the level is given up behind its first
instruction. -/

section

variable {lang : Language} {i : Instruction} {inner body next : Outline} {kind? : Option BodyKind}
  (hoffset : ((step lang i inner kind? body next).visits depth).Pairwise (·.offset < ·.offset))
  (hopen : ¬ Level.Refused entered ⟨opener?, depth, step lang i inner kind? body next⟩)
  (hb : b ∈ Level.all ⟨opener?, depth, step lang i inner kind? body next⟩)
  (hloses : b.Loses goOn entered v)

include hopen hloses in
theorem exists_givenUp (hgoOn : goOn ⟨lang, i, depth⟩ = true)
    (htop : b = ⟨opener?, depth, step lang i inner kind? body next⟩) :
    ∃ w ∈ next.visits depth, w ∈ next.direct depth ∧ goOn w = false ∧ w.offset < v.offset := by
  subst htop
  rcases hloses.2 with hrefused | ⟨w, hw, hgivenUp, hlt⟩
  · exact absurd hrefused hopen
  · rcases List.mem_cons.1 hw with rfl | hw
    · rw [hgoOn] at hgivenUp
      cases hgivenUp
    · exact ⟨w, mem_visits_of_mem_direct hw, hw, hgivenUp, hlt⟩

include hoffset hopen hb hloses

/-- The first instruction is never missed. -/
theorem ne_first_of_loses : v ≠ ⟨lang, i, depth⟩ := by
  rintro rfl
  obtain ⟨hown, -⟩ := List.pairwise_cons.1 hoffset
  have hnot : (⟨lang, i, depth⟩ : Visit) ∉ inner.visits (depth + 1)
      ++ (body.visits (depth + 1) ++ next.visits depth) := fun h ↦ Nat.lt_irrefl _ (hown _ h)
  rcases mem_all_step.1 hb with rfl | hb | hb | hb
  · rcases hloses.2 with hrefused | ⟨w, hw, -, hlt⟩
    · exact hopen hrefused
    · rcases List.mem_cons.1 hw with rfl | hw
      · exact Nat.lt_irrefl _ hlt
      · have hmem := mem_visits_of_mem_direct hw
        exact Nat.lt_asymm hlt (hown w (by simp [hmem]))
  · exact hnot (by simp [mem_visits_of_mem_all hb hloses.1])
  · exact hnot (by simp [mem_visits_of_mem_all hb hloses.1])
  · have hb' : b ∈ Level.all ⟨none, depth, next⟩ := List.mem_cons_of_mem _ hb
    exact hnot (by simp [mem_visits_of_mem_all hb' hloses.1])

variable (hgoOn : goOn ⟨lang, i, depth⟩ = true)
include hgoOn

theorem mem_all_inner (hv : v ∈ inner.visits (depth + 1)) :
    b ∈ Level.all ⟨none, depth + 1, inner⟩ := by
  rw [visits, List.pairwise_cons, List.pairwise_append] at hoffset
  obtain ⟨-, -, -, hbehind⟩ := hoffset
  rcases mem_all_step.1 hb with htop | hb | hb | hb
  · obtain ⟨w, hw, -, -, hlt⟩ := exists_givenUp hopen hloses hgoOn htop
    exact absurd hlt (Nat.lt_asymm (hbehind v hv w (List.mem_append_right _ hw)))
  · exact hb
  · have hmem := mem_visits_of_mem_all hb hloses.1
    exact absurd (hbehind v hv v (List.mem_append_left _ hmem)) (Nat.lt_irrefl _)
  · have hb' : b ∈ Level.all ⟨none, depth, next⟩ := List.mem_cons_of_mem _ hb
    have hmem := mem_visits_of_mem_all hb' hloses.1
    exact absurd (hbehind v hv v (List.mem_append_right _ hmem)) (Nat.lt_irrefl _)

theorem mem_all_body (hv : v ∈ body.visits (depth + 1)) :
    b ∈ Level.all ⟨kind?.map (i, ·), depth + 1, body⟩ := by
  rw [visits, List.pairwise_cons, List.pairwise_append, List.pairwise_append] at hoffset
  obtain ⟨-, -, ⟨-, -, hbodynext⟩, hbehind⟩ := hoffset
  rcases mem_all_step.1 hb with htop | hb | hb | hb
  · obtain ⟨w, hw, -, -, hlt⟩ := exists_givenUp hopen hloses hgoOn htop
    exact absurd hlt (Nat.lt_asymm (hbodynext v hv w hw))
  · have hmem := mem_visits_of_mem_all hb hloses.1
    exact absurd (hbehind v hmem v (List.mem_append_left _ hv)) (Nat.lt_irrefl _)
  · exact hb
  · have hb' : b ∈ Level.all ⟨none, depth, next⟩ := List.mem_cons_of_mem _ hb
    exact absurd (hbodynext v hv v (mem_visits_of_mem_all hb' hloses.1)) (Nat.lt_irrefl _)

theorem exists_loses_next (hv : v ∈ next.visits depth) :
    ∃ b' ∈ Level.all ⟨opener?, depth, next⟩, b'.Loses goOn entered v := by
  rw [visits, List.pairwise_cons, List.pairwise_append, List.pairwise_append] at hoffset
  obtain ⟨-, -, ⟨-, -, hbodynext⟩, hbehind⟩ := hoffset
  rcases mem_all_step.1 hb with htop | hb | hb | hb
  · obtain ⟨w, -, hdirect, hgivenUp⟩ := exists_givenUp hopen hloses hgoOn htop
    exact ⟨_, List.mem_cons_self, hv, .inr ⟨w, hdirect, hgivenUp⟩⟩
  · have hmem := mem_visits_of_mem_all hb hloses.1
    exact absurd (hbehind v hmem v (List.mem_append_right _ hv)) (Nat.lt_irrefl _)
  · have hmem := mem_visits_of_mem_all hb hloses.1
    exact absurd (hbodynext v hmem v hv) (Nat.lt_irrefl _)
  · exact ⟨b, List.mem_cons_of_mem _ hb, hloses⟩

end

/-- What is missed because of a level is not heard. -/
theorem not_mem_heard (hoffset : (O.visits depth).Pairwise (·.offset < ·.offset))
    (hopen : ¬ Level.Refused entered ⟨opener?, depth, O⟩)
    (hb : b ∈ Level.all ⟨opener?, depth, O⟩) (hloses : b.Loses goOn entered v) :
    v ∉ O.heard goOn entered depth := by
  intro hv
  induction O generalizing opener? depth b with
  | done => cases hv
  | step lang i inner kind? body next ihinner ihbody ihnext =>
    have hparts := hoffset
    rw [visits, List.pairwise_cons, List.pairwise_append, List.pairwise_append] at hparts
    obtain ⟨-, hinner, ⟨hbody, hnext, -⟩, -⟩ := hparts
    rcases List.mem_cons.1 hv with hfirst | hv
    · exact ne_first_of_loses hoffset hopen hb hloses hfirst
    split at hv
    · next hgoOn =>
      rcases List.mem_append.1 hv with hv | hv
      · have hb' := mem_all_inner hoffset hopen hb hloses hgoOn (mem_visits_of_mem_heard hv)
        exact ihinner hinner (not_refused_none _ inner) hb' hloses hv
      rcases List.mem_append.1 hv with hv | hv
      · split at hv
        · next hentered =>
          have hb' := mem_all_body hoffset hopen hb hloses hgoOn (mem_visits_of_mem_heard hv)
          exact ihbody hbody (not_refused_of_all hentered body) hb' hloses hv
        · cases hv
      · obtain ⟨b', hb', hloses'⟩ :=
          exists_loses_next hoffset hopen hb hloses hgoOn (mem_visits_of_mem_heard hv)
        exact ihnext hnext hopen hb' hloses' hv
    · cases hv

end Outline

/-! ## What an observer misses -/

namespace Observer

variable {σ τ : Type}

/-- An observer sees a part of all there is to see. -/
theorem visits_trace_sublist (o : Observer σ) (limit : Nat) (lang : Language) (origin : Nat)
    (code : Stretch) (x : σ) :
    (o.trace limit lang origin code x).visits.Sublist
      ((lang.outline (.start origin code)).visits 0) := by
  obtain ⟨t, completed, hruns, -, htrace, -⟩ := exists_trace o lang origin code x
  rw [htrace]
  exact hruns.visits_upTo_sublist limit

theorem mem_visits_of_mem_trace {o : Observer σ} {limit : Nat} {lang : Language} {origin : Nat}
    {code : Stretch} {x : σ} {v : Visit} (hv : v ∈ (o.trace limit lang origin code x).visits) :
    v ∈ (lang.outline (.start origin code)).visits 0 :=
  (o.visits_trace_sublist limit lang origin code x).subset hv

/-- A ceiling that was not reached leaves everything. -/
theorem Thorough.visits_of_not_hitLimit {full : Observer τ} (hfull : full.Thorough) {limit : Nat}
    {lang : Language} {origin : Nat} {code : Stretch} {y : τ}
    (h : (full.walk limit lang origin code y).2.hitLimit = false) :
    (full.trace limit lang origin code y).visits
      = (lang.outline (.start origin code)).visits 0 := by
  rw [hfull.trace_eq_of_length_le (hfull.length_visits_le h), Outline.visits_callbacks]

/-- **An observer misses what it asks to leave out, and nothing else.**  If no ceiling is reached,
the instructions that an observer sees are some of those that a thorough one sees, in the same
order.  One of those is missed if and only if it is in a level that the observer would not enter,
or in a level that the observer gave up at an instruction directly in it and in front of the one
that is missed. -/
theorem not_mem_visits_iff_of_thorough (o : Observer σ) {full : Observer τ} (hfull : full.Thorough)
    (lang : Language) (origin : Nat) (code : Stretch) (x : σ) (y : τ) {limit limit' : Nat}
    (h : (o.walk limit lang origin code x).2.hitLimit = false)
    (h' : (full.walk limit' lang origin code y).2.hitLimit = false) :
    let T := o.trace limit lang origin code x
    let F := full.trace limit' lang origin code y
    T.visits.Sublist F.visits ∧
      ∀ v ∈ F.visits, v ∉ T.visits ↔
        ∃ b ∈ lang.levels origin code, v ∈ b.visits ∧
          ((∃ i kind depth, b.opener? = some (i, kind) ∧ b.depth = depth + 1 ∧
              .enter i kind depth false ∈ T) ∨
            ∃ w ∈ b.direct, .visit w false ∈ T ∧ w.offset < v.offset) := by
  intro T F
  obtain ⟨completed, hruns⟩ := o.trace_of_not_hitLimit lang origin code x h
  have hF : F.visits = (lang.outline (.start origin code)).visits 0 :=
    hfull.visits_of_not_hitLimit h'
  have hoffset := (decodes_outline lang (.start origin code)).pairwise_offset 0
  -- nothing is asked twice, so the answers in the trace are functions of what was asked
  have hheard : T.visits = (lang.outline (.start origin code)).heard
      (fun w ↦ decide (.visit w false ∉ T))
      (fun i kind d ↦ decide (.enter i kind d false ∉ T)) 0 := by
    refine hruns.visits_eq_heard fun cb hcb ↦ ?_
    rcases cb with ⟨w, _ | _⟩ | ⟨i, kind, d, _ | _⟩ | _
    · exact decide_eq_false (not_not_intro hcb)
    · refine decide_eq_true fun hcb' ↦ ?_
      cases hruns.eq_of_affirmed_eq hoffset hcb hcb' rfl
    · exact decide_eq_false (not_not_intro hcb)
    · refine decide_eq_true fun hcb' ↦ ?_
      cases hruns.eq_of_affirmed_eq hoffset hcb hcb' rfl
    · trivial
  rw [hF]
  refine ⟨hruns.visits_sublist, fun v hv ↦ ?_⟩
  rw [hheard]
  constructor
  · intro hnot
    obtain ⟨b, hb, hmem, hloses⟩ := Outline.exists_loses hoffset hv hnot none
    refine ⟨b, hb, hmem, ?_⟩
    simpa [Level.Refused, Level.GivenUp] using hloses
  · rintro ⟨b, hb, hmem, hloses⟩
    refine Outline.not_mem_heard hoffset (Outline.not_refused_none 0 _) hb ⟨hmem, ?_⟩
    simpa [Level.Refused, Level.GivenUp] using hloses

/-- Counts the instructions that are in no body. -/
def skimming : Observer Nat where
  visit _ _ _ n := (true, n + 1)
  enter _ _ _ n := (false, n)
  leave _ _ _ _ n := n

/-- A conditional whose body is not entered. -/
theorem not_mem_visits_iff_of_thorough_if :
    let code := Bytes.whole #[0x06, 0x00, 0x04, 0x00, 0x00, 0x00, 0x08, 0x00]
    let T := skimming.trace 8 .re2 0x40 code 0
    let F := counting.trace 8 .re2 0x40 code 0
    counting.Thorough ∧ (skimming.walk 8 .re2 0x40 code 0).2.hitLimit = false ∧
      (counting.walk 8 .re2 0x40 code 0).2.hitLimit = false ∧
      T.visits.map (·.offset) = [0x40, 0x46] ∧ F.visits.map (·.offset) = [0x40, 0x44, 0x45, 0x46] ∧
      T.visits.Sublist F.visits ∧
      ∀ v ∈ F.visits, v ∉ T.visits ↔
        ∃ b ∈ Language.re2.levels 0x40 code, v ∈ b.visits ∧
          ((∃ i kind depth, b.opener? = some (i, kind) ∧ b.depth = depth + 1 ∧
              .enter i kind depth false ∈ T) ∨
            ∃ w ∈ b.direct, .visit w false ∈ T ∧ w.offset < v.offset) := by
  intro code T F
  have h : (skimming.walk 8 .re2 0x40 code 0).2.hitLimit = false := by decide +kernel
  have h' : (counting.walk 8 .re2 0x40 code 0).2.hitLimit = false := by decide +kernel
  exact ⟨thorough_counting, h, h', by decide +kernel, by decide +kernel,
    not_mem_visits_iff_of_thorough skimming thorough_counting .re2 0x40 code 0 0 h h'⟩

end Observer
end RoomScript
