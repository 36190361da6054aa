import RoomScript.Proofs.Playback

/-!
# The ceiling of a walk

The number of instructions of a walk is limited.  When the limit strikes, the walk may be anywhere:
deep inside bodies, in a fragment, or behind a body that was just left.  Nothing more is said to the
observer then, and no level is taken back.

So two walks that differ in their ceilings alone are the same walk for as long as the lower ceiling
lasts (`walk_of_lt_ceiling`).  An observer with a state cannot tell which of the two it is in, since
every answer that it gives before that point is the same.

A walk that was not ended by its ceiling was not changed by it (`trace_of_not_hitLimit`).  For a
thorough observer that is all there is to see (`Thorough.trace_eq_of_length_le`).
-/

set_option autoImplicit false

namespace RoomScript

/-! ## Ceilings and traces -/

namespace Trace

/-- A ceiling cuts a trace right in front of an instruction, and `n` instructions are left. -/
theorem exists_upTo_append {n : Nat} {t : Trace} (h : n < t.visits.length) :
    ∃ v goOn rest, t = t.upTo n ++ .visit v goOn :: rest := by
  fun_induction upTo n t with
  | case1 => simp [visits] at h
  | case2 v goOn t => exact ⟨v, goOn, t, rfl⟩
  | case3 n v goOn t ih =>
    obtain ⟨w, goOn', rest, ht⟩ := ih (by simpa [visits] using h)
    exact ⟨w, goOn', rest, congrArg (List.cons _) ht⟩
  | case4 n i kind depth entered t ih =>
    obtain ⟨w, goOn', rest, ht⟩ := ih h
    exact ⟨w, goOn', rest, congrArg (List.cons _) ht⟩
  | case5 n i kind depth completed t ih =>
    obtain ⟨w, goOn', rest, ht⟩ := ih h
    exact ⟨w, goOn', rest, congrArg (List.cons _) ht⟩

/-- Of a trace that a higher ceiling was put on, a lower ceiling finds as much as of all of it. -/
theorem min_length_visits_upTo {n m : Nat} (h : n < m) (t : Trace) :
    min n (t.upTo m).visits.length = min n t.visits.length := by
  rw [length_visits_upTo]
  omega

theorem lt_length_visits_upTo {n m : Nat} (h : n < m) (t : Trace) :
    n < (t.upTo m).visits.length ↔ n < t.visits.length := by
  rw [length_visits_upTo]
  omega

/-- A higher ceiling lets the instruction pass that a lower one cut off. -/
theorem exists_upTo_eq {n m : Nat} (h : n < m) {t rest : Trace} (hn : n < t.visits.length)
    {v : Visit} {goOn : Bool} (ht : t = t.upTo n ++ .visit v goOn :: rest) :
    ∃ rest', t.upTo m = t.upTo n ++ .visit v goOn :: rest' := by
  obtain ⟨w, goOn', rest', hm⟩ := exists_upTo_append ((lt_length_visits_upTo h t).2 hn)
  rw [upTo_upTo (Nat.le_of_lt h)] at hm
  obtain ⟨tail, htail⟩ := upTo_isPrefixOf m t
  have hboth : t.upTo n ++ .visit v goOn :: rest = t.upTo n ++ .visit w goOn' :: (rest' ++ tail) :=
    calc t.upTo n ++ .visit v goOn :: rest = t := ht.symm
      _ = t.upTo m ++ tail := htail.symm
      _ = t.upTo n ++ .visit w goOn' :: (rest' ++ tail) := by simp [hm]
  cases List.append_cancel_left hboth
  exact ⟨rest', hm⟩

/-- The problems of instructions have nothing to do with ceilings. -/
theorem ne_instructionLimit_of_mem_truncations {t : Trace} {problem : Problem}
    (h : problem ∈ t.truncations) (n : Nat) : problem ≠ .instructionLimit n := by
  obtain ⟨v, -, hv⟩ := List.mem_filterMap.1 h
  rintro rfl
  simp [Visit.truncation?] at hv

/-- A walk reports that it was ended by its ceiling if there was more to see. -/
theorem hitLimit_report (limit : Nat) (t : Trace) :
    (t.report limit).hitLimit = true ↔ limit < t.visits.length := by
  rw [report, Report.hitLimit, Array.any_append, Bool.or_eq_true]
  constructor
  · rintro (h | h)
    · obtain ⟨problem, hmem, hproblem⟩ := Array.any_eq_true'.1 h
      have hne := ne_instructionLimit_of_mem_truncations (List.mem_toArray.1 hmem)
      cases problem with
      | instructionLimit n => exact absurd rfl (hne n)
      | _ => simp at hproblem
    · by_cases hlt : limit < t.visits.length
      · exact hlt
      · simp [hlt] at h
  · intro hlt
    simp [hlt]

/-- What a walk reports that was not ended by its ceiling. -/
theorem report_of_length_le {limit : Nat} {t : Trace} (h : t.visits.length ≤ limit) :
    t.report limit = ⟨t.visits.length, t.truncations.toArray⟩ := by
  rw [report, upTo_eq_self h, if_neg (Nat.not_lt.2 h), Nat.min_eq_right h, Array.append_empty]

end Trace

namespace Observer

variable {σ : Type}

section

variable {o : Observer σ} (ho : o.Thorough) {limit : Nat} {lang : Language} {origin : Nat}
  {code : Stretch}
include ho

/-- A ceiling that was not reached is as high as the number of all instructions. -/
theorem Thorough.length_visits_le {x : σ}
    (h : (o.walk limit lang origin code x).2.hitLimit = false) :
    (Trace.visits ((lang.outline (.start origin code)).callbacks 0)).length ≤ limit := by
  rw [ho.walk_eq, ← Bool.not_eq_true, Trace.hitLimit_report, Nat.not_lt] at h
  exact h

variable (h : (Trace.visits ((lang.outline (.start origin code)).callbacks 0)).length ≤ limit)
  (x : σ)
include h

/-- Such a ceiling leaves a thorough observer everything. -/
theorem Thorough.trace_eq_of_length_le :
    o.trace limit lang origin code x = (lang.outline (.start origin code)).callbacks 0 := by
  rw [ho.trace_eq, Trace.upTo_eq_self h]

theorem Thorough.walk_eq_of_length_le :
    o.walk limit lang origin code x =
      (o.replay ((lang.outline (.start origin code)).callbacks 0) x,
        ⟨(Trace.visits ((lang.outline (.start origin code)).callbacks 0)).length,
          (Trace.truncations ((lang.outline (.start origin code)).callbacks 0)).toArray⟩) := by
  rw [ho.walk_eq, Trace.upTo_eq_self h, Trace.report_of_length_le h]

end

/-- A walk that was not ended by its ceiling says all there is to say. -/
theorem trace_of_not_hitLimit (o : Observer σ) (lang : Language) (origin : Nat) (code : Stretch)
    (initial : σ) {limit : Nat}
    (h : (o.walk limit lang origin code initial).2.hitLimit = false) :
    ∃ completed, (lang.outline (.start origin code)).Runs 0
      (o.trace limit lang origin code initial) completed := by
  obtain ⟨t, completed, ht, -, htrace, hwalk⟩ := exists_trace o lang origin code initial
  rw [hwalk, ← Bool.not_eq_true, Trace.hitLimit_report, Nat.not_lt] at h
  rw [htrace, Trace.upTo_eq_self h]
  exact ⟨completed, ht⟩

/-- **The ceiling cuts a walk off and changes nothing in front of the cut.**  Under a lower ceiling
a walk says to its observer what it says under a higher one before instruction number `limit`,
counted from zero, and no more.  It counts the instructions up to there and reports their problems,
and then, if there was more to see, that the ceiling was reached. -/
theorem walk_of_lt_ceiling (o : Observer σ) (lang : Language) (origin : Nat) (code : Stretch)
    (initial : σ) {limit limit' : Nat} (h : limit < limit') :
    let T := o.trace limit' lang origin code initial
    let W := o.walk limit lang origin code initial
    o.trace limit lang origin code initial = T.upTo limit ∧
      W.1 = o.replay (T.upTo limit) initial ∧
        W.2.instructions = min limit T.visits.length ∧
          W.2.problems.toList = (T.upTo limit).truncations
            ++ if limit < T.visits.length then [.instructionLimit limit] else [] := by
  intro T W
  obtain ⟨t, completed, -, -, htrace, hwalk⟩ := exists_trace o lang origin code initial
  have hT : T = t.upTo limit' := htrace limit'
  have hcut : T.upTo limit = t.upTo limit := by
    rw [hT]
    exact Trace.upTo_upTo (Nat.le_of_lt h) t
  have hW : W = (o.replay (t.upTo limit) initial, t.report limit) := hwalk limit
  rw [hcut, hW, hT, Trace.min_length_visits_upTo h]
  refine ⟨htrace limit, rfl, rfl, ?_⟩
  simp only [Trace.report, Trace.lt_length_visits_upTo h, Array.toList_append]
  split <;> rfl

/-- Three instructions of which a ceiling of two leaves two. -/
theorem walk_of_lt_ceiling_nops :
    let T := counting.trace 5 .re2 0 (Bytes.whole #[0x00, 0x00, 0x00]) 0
    let W := counting.walk 2 .re2 0 (Bytes.whole #[0x00, 0x00, 0x00]) 0
    2 < T.visits.length ∧
      counting.trace 2 .re2 0 (Bytes.whole #[0x00, 0x00, 0x00]) 0 = T.upTo 2 ∧
        W.1 = counting.replay (T.upTo 2) 0 ∧
          W.2.instructions = min 2 T.visits.length ∧
            W.2.problems.toList = (T.upTo 2).truncations
              ++ if 2 < T.visits.length then [.instructionLimit 2] else [] :=
  ⟨by decide +kernel,
    counting.walk_of_lt_ceiling .re2 0 (Bytes.whole #[0x00, 0x00, 0x00]) 0 (by decide)⟩

end Observer
end RoomScript
