import RoomScript.Proofs.Replay

/-!
# Flags as bits on their own

The flags of a game are kept in arrays, and an array comes into being when a flag of it is written
to.  None of this can be seen.  To whoever asks for flags, a game is a plain board of bits: what
becomes of a flag depends on its own value and on the operations on that very flag, in their order,
and on nothing else (`RoomState.flag_foldl_receive`).

So operations on different flags may be exchanged, at any point of a session: what follows finds a
game that answers every query alike (`RoomState.AnswersAlike`).  Two toggles cancel, whatever
happens to other flags in between, and the calls that do not write to a flag can be left out.
-/

set_option autoImplicit false

namespace RoomScript

/-! ## Actions on one flag -/

/-- The value of a flag after some actions, one after the other. -/
def FlagAction.updateAll (value : Bool) : List FlagAction → Bool
  | [] => value
  | clear :: actions => updateAll false actions
  | set :: actions => updateAll true actions
  | toggle :: actions => updateAll (!value) actions
  | test :: actions => updateAll value actions

theorem FlagAction.updateAll_cons (value : Bool) (action : FlagAction)
    (actions : List FlagAction) :
    updateAll value (action :: actions) = updateAll (action.update value) actions := by
  cases action <;> rfl

theorem FlagAction.updateAll_append (value : Bool) (actions actions' : List FlagAction) :
    updateAll value (actions ++ actions') = updateAll (updateAll value actions) actions' := by
  induction actions generalizing value with
  | nil => rfl
  | cons action actions ih => rw [List.cons_append, updateAll_cons, updateAll_cons, ih]

/-- Toggling twice is doing nothing. -/
theorem FlagAction.updateAll_toggle_toggle (value : Bool) (actions : List FlagAction) :
    updateAll value (toggle :: toggle :: actions) = updateAll value actions :=
  congrArg (updateAll · actions) (Bool.not_not value)

namespace Call

/-- What a call does to the flag `bit` of an array, if it is an operation on that flag. -/
def flagAction? (array bit : UInt8) : Call → Option FlagAction
  | perform (.flag op) => if op.array = array ∧ op.bit = bit then some op.action else none
  | _ => none

/-- Whether a call writes to a flag.  A test does not. -/
def writesFlag : Call → Bool
  | perform (.flag op) => op.action ≠ .test
  | _ => false

/-- Of two operations on different flags, at most one is on a given flag. -/
theorem flagAction?_eq_none_or {op op' : FlagOp}
    (hne : (op.array, op.bit) ≠ (op'.array, op'.bit)) (array bit : UInt8) :
    (perform (.flag op)).flagAction? array bit = none ∨
      (perform (.flag op')).flagAction? array bit = none := by
  by_cases h : op.array = array ∧ op.bit = bit
  · refine .inr (if_neg ?_)
    rintro ⟨harray, hbit⟩
    exact hne (by rw [h.1, h.2, harray, hbit])
  · exact .inl (if_neg h)

/-- A call that does not write is no operation on the flag, or a test. -/
theorem flagAction?_of_not_writesFlag {call : Call} (h : ¬ call.writesFlag) (array bit : UInt8) :
    call.flagAction? array bit = none ∨ call.flagAction? array bit = some .test := by
  match call with
  | .perform (.flag op) =>
    have htest : op.action = .test := by simpa [writesFlag] using h
    rw [flagAction?, htest]
    split
    · exact .inr rfl
    · exact .inl rfl
  | .enterRoom .. | .perform (.var _) | .perform (.door _) | .perform (.item _)
  | .perform (.camera _) | .perform (.message _) => exact .inl rfl

/-- Calls that do not write make nothing of a flag. -/
theorem updateAll_filter_writesFlag (array bit : UInt8) (value : Bool) (calls : List Call) :
    FlagAction.updateAll value ((calls.filter writesFlag).filterMap (flagAction? array bit))
      = FlagAction.updateAll value (calls.filterMap (flagAction? array bit)) := by
  induction calls generalizing value with
  | nil => rfl
  | cons call calls ih =>
    by_cases hwrites : call.writesFlag
    · rw [List.filter_cons_of_pos hwrites, List.filterMap_cons, List.filterMap_cons]
      cases call.flagAction? array bit with
      | none => exact ih value
      | some action =>
        rw [FlagAction.updateAll_cons, FlagAction.updateAll_cons]
        exact ih (action.update value)
    · rw [List.filter_cons_of_neg hwrites, ih, List.filterMap_cons]
      -- a test is still among the actions, and it makes nothing of the flag
      rcases flagAction?_of_not_writesFlag hwrites array bit with h | h
      · rw [h]
      · rw [h]
        rfl

end Call

namespace RoomState

variable (s : RoomState) (array bit : UInt8)

/-! ## What calls do to a flag -/

/-- What a call makes of a flag. -/
theorem flag_receive (call : Call) :
    (s.receive call).flag array bit
      = FlagAction.updateAll (s.flag array bit) (call.flagAction? array bit).toList := by
  match call with
  | .perform (.flag op) =>
    rw [show s.receive (.perform (.flag op)) = s.performFlag op from rfl, s.flag_performFlag op,
      Call.flagAction?]
    split
    · exact (FlagAction.updateAll_cons _ op.action []).symm
    · rfl
  | .enterRoom stage room => exact s.flag_enterRoom stage room array bit
  | .perform (.var _) | .perform (.door _) | .perform (.item _) | .perform (.camera _)
  | .perform (.message _) =>
    exact congrFun (congrFun (s.flag_perform _) array) bit

/-- **A flag is what the operations on it make of it**, whatever else is called in between. -/
theorem flag_foldl_receive (calls : List Call) :
    (calls.foldl receive s).flag array bit
      = FlagAction.updateAll (s.flag array bit)
          (calls.filterMap (Call.flagAction? array bit)) := by
  induction calls generalizing s with
  | nil => rfl
  | cons call calls ih =>
    rw [List.foldl_cons, ih, flag_receive, List.filterMap_cons]
    cases call.flagAction? array bit with
    | none => rfl
    | some action => exact (FlagAction.updateAll_append _ [action] _).symm

/-- What an operation makes of its flag. -/
theorem flag_receive_flag (action : FlagAction) :
    (s.receive (.perform (.flag ⟨array, bit, action⟩))).flag array bit
      = FlagAction.updateAll (s.flag array bit) [action] := by
  have haction : (Call.perform (.flag ⟨array, bit, action⟩)).flagAction? array bit = some action :=
    if_pos ⟨rfl, rfl⟩
  rw [flag_receive, haction, Option.toList_some]

/-! ## Games that answer alike -/

/-- The part of a game that is neither the store nor the log of what was done to flags. -/
def outside : RoomState := { s with flagOps := #[], flags := [], vars := [] }

/-- Two games that answer every query alike.  How their stores keep the flags and variables may
differ, and so may the order in which operations on flags were logged. -/
structure AnswersAlike (s s' : RoomState) : Prop where
  flag : s.flag = s'.flag
  var : s.var = s'.var
  outside : s.outside = s'.outside
  flagOps : s.flagOps.toList.Perm s'.flagOps.toList

/-- What a call does outside of the store depends on nothing inside. -/
theorem outside_receive (call : Call) :
    (s.receive call).outside = (s.outside.receive call).outside := by
  match call with
  | .perform (.flag op) =>
    obtain ⟨flags, h⟩ := s.exists_perform_flag op
    obtain ⟨flags', h'⟩ := s.outside.exists_perform_flag op
    rw [receive, receive, h, h']
    rfl
  | .perform (.var op) =>
    obtain ⟨vars, h⟩ := s.exists_perform_var op
    obtain ⟨vars', h'⟩ := s.outside.exists_perform_var op
    rw [receive, receive, h, h']
    rfl
  | .enterRoom .. | .perform (.door _) | .perform (.item _) | .perform (.camera _)
  | .perform (.message _) => rfl

namespace AnswersAlike

variable {s s' : RoomState}

/-- Whatever is called next, games that answer alike go on answering alike. -/
theorem receive (h : s.AnswersAlike s') (call : Call) :
    (s.receive call).AnswersAlike (s'.receive call) where
  flag := by
    funext array bit
    rw [flag_receive, flag_receive, h.flag]
  var := by
    match call with
    | .enterRoom .. => exact h.var
    | .perform effect => exact (s.var_perform effect).trans (h.var ▸ (s'.var_perform effect).symm)
  outside := by rw [outside_receive, h.outside, ← outside_receive]
  flagOps := by
    match call with
    | .enterRoom .. => exact List.Perm.refl _
    | .perform effect =>
      show (s.perform effect).flagOps.toList.Perm (s'.perform effect).flagOps.toList
      rw [(s.logs_perform effect).1, (s'.logs_perform effect).1]
      exact h.flagOps.append_right _

theorem foldl_receive (h : s.AnswersAlike s') (calls : List Call) :
    (calls.foldl RoomState.receive s).AnswersAlike (calls.foldl RoomState.receive s') := by
  induction calls generalizing s s' with
  | nil => exact h
  | cons call calls ih => exact ih (h.receive call)

end AnswersAlike

/-- Operations on different flags commute. -/
theorem answersAlike_swap {op op' : FlagOp}
    (hne : (op.array, op.bit) ≠ (op'.array, op'.bit)) :
    ((s.performFlag op).performFlag op').AnswersAlike ((s.performFlag op').performFlag op) := by
  obtain ⟨flags₁, h₁⟩ := s.exists_perform_flag op
  obtain ⟨flags₂, h₂⟩ := (s.performFlag op).exists_perform_flag op'
  obtain ⟨flags₃, h₃⟩ := s.exists_perform_flag op'
  obtain ⟨flags₄, h₄⟩ := (s.performFlag op').exists_perform_flag op
  simp only [perform] at h₁ h₂ h₃ h₄
  refine ⟨?_, ?_, ?_, ?_⟩
  · funext array bit
    have horder := s.flag_foldl_receive array bit
      [.perform (.flag op), .perform (.flag op')]
    have hswapped := s.flag_foldl_receive array bit
      [.perform (.flag op'), .perform (.flag op)]
    refine horder.trans (Eq.trans ?_ hswapped.symm)
    -- at most one of the two is on this flag, so that the order of the two is not seen
    rcases Call.flagAction?_eq_none_or hne array bit with hnone | hnone
    · simp only [List.filterMap_cons, hnone]
    · simp only [List.filterMap_cons, hnone]
  · rw [h₂, h₁, h₄, h₃]
    rfl
  · rw [h₂, h₁, h₄, h₃]
    rfl
  · rw [h₂, h₁, h₄, h₃]
    simp only [Array.toList_push, List.append_assoc]
    exact (List.Perm.swap op' op []).append_left _

/-! ## Main statement -/

/-- Two toggles of a flag cancel, whatever is done to other flags in between. -/
theorem flag_toggle_toggle (before between after : List Call)
    (hbetween : ∀ call ∈ between, call.flagAction? array bit = none) :
    let toggle := Call.perform (.flag ⟨array, bit, .toggle⟩)
    ((before ++ toggle :: between ++ toggle :: after).foldl receive s).flag
      = ((before ++ between ++ after).foldl receive s).flag := by
  intro toggle
  funext array' bit'
  rw [flag_foldl_receive, flag_foldl_receive]
  simp only [List.filterMap_append, List.append_assoc, List.cons_append]
  rw [FlagAction.updateAll_append, FlagAction.updateAll_append]
  by_cases hsame : array = array' ∧ bit = bit'
  · obtain ⟨rfl, rfl⟩ := hsame
    have htoggle : toggle.flagAction? array bit = some .toggle := if_pos ⟨rfl, rfl⟩
    have hnil : between.filterMap (Call.flagAction? array bit) = [] :=
      List.filterMap_eq_nil_iff.2 hbetween
    simp only [List.filterMap_cons, htoggle, List.filterMap_append, hnil, List.nil_append]
    exact FlagAction.updateAll_toggle_toggle _ _
  · have htoggle : toggle.flagAction? array' bit' = none := if_neg hsame
    simp only [List.filterMap_cons, htoggle, List.filterMap_append]

/-- **The flags of a game are bits on their own.**  After any calls, a flag has the value that the
operations on that very flag, in their order, make of the value it had: whatever it was, it is clear
after it was cleared and set after it was set; toggling turns it over, and a test keeps it.
Operations on different flags commute, at any point between other calls: no query tells the
difference afterwards.  Two toggles of a flag cancel, as long as nothing is done to that flag in
between.  And the flags are what the calls that write to flags make of them: tests, rooms that are
entered and operations on variables, wherever they come, can be left out. -/
theorem flags_are_bits :
    (∀ (calls : List Call) (array bit : UInt8),
      (calls.foldl receive s).flag array bit
        = FlagAction.updateAll (s.flag array bit)
            (calls.filterMap (Call.flagAction? array bit))) ∧
    (∀ array bit : UInt8,
      let after (action : FlagAction) : Bool :=
        (s.receive (.perform (.flag ⟨array, bit, action⟩))).flag array bit
      after .clear = false ∧ after .set = true ∧ after .toggle = !s.flag array bit ∧
        after .test = s.flag array bit) ∧
    (∀ (before after : List Call) (op op' : FlagOp),
      (op.array, op.bit) ≠ (op'.array, op'.bit) →
      AnswersAlike
        ((before ++ .perform (.flag op) :: .perform (.flag op') :: after).foldl receive s)
        ((before ++ .perform (.flag op') :: .perform (.flag op) :: after).foldl receive s)) ∧
    (∀ (before between after : List Call) (array bit : UInt8),
      (∀ call ∈ between, call.flagAction? array bit = none) →
      let toggle := Call.perform (.flag ⟨array, bit, .toggle⟩)
      ((before ++ toggle :: between ++ toggle :: after).foldl receive s).flag
        = ((before ++ between ++ after).foldl receive s).flag) ∧
    ∀ calls : List Call,
      ((calls.filter Call.writesFlag).foldl receive s).flag = (calls.foldl receive s).flag := by
  refine ⟨fun calls array bit ↦ s.flag_foldl_receive array bit calls, fun array bit ↦ ?_,
    fun before after op op' hne ↦ ?_,
    fun before between after array bit ↦ s.flag_toggle_toggle array bit before between after,
    fun calls ↦ ?_⟩
  · exact ⟨s.flag_receive_flag array bit .clear, s.flag_receive_flag array bit .set,
      s.flag_receive_flag array bit .toggle, s.flag_receive_flag array bit .test⟩
  · rw [List.foldl_append, List.foldl_append]
    exact ((before.foldl receive s).answersAlike_swap hne).foldl_receive after
  · funext array bit
    rw [flag_foldl_receive, flag_foldl_receive, Call.updateAll_filter_writesFlag]

/-- A flag of an array without flags is toggled, a flag of an array that does not exist is set, and
the first one is toggled again in another room; then both are cleared. -/
theorem flags_are_bits_emptyArray :
    let s : RoomState := { flags := [(3, 0)] }
    let toggle : FlagOp := ⟨3, 7, .toggle⟩
    let set : FlagOp := ⟨4, 0x12, .set⟩
    let clears : List Call :=
      [.perform (.flag ⟨3, 7, .clear⟩), .perform (.flag ⟨4, 0x12, .clear⟩)]
    let between : List Call := [.perform (.flag set), .enterRoom 1 2]
    let calls : List Call := .perform (.flag toggle) :: between
    let swapped : List Call :=
      [.perform (.flag set), .perform (.flag toggle), .enterRoom 1 2]
    ((toggle.array, toggle.bit) ≠ (set.array, set.bit) ∧
      (calls.foldl receive s).AnswersAlike (swapped.foldl receive s)) ∧
    ((∀ call ∈ between, call.flagAction? 3 7 = none) ∧
      ((calls ++ [Call.perform (.flag toggle)]).foldl receive s).flag
        = (between.foldl receive s).flag) ∧
    (calls.foldl receive s).flag 3 7 = true ∧ (calls.foldl receive s).flag 4 0x12 = true ∧
    ((calls ++ clears).foldl receive s).flag 3 7 = false ∧
      ((calls ++ clears).foldl receive s).flag 4 0x12 = false := by
  intro s toggle set clears between calls swapped
  obtain ⟨hvalue, -, hswap, htoggles, -⟩ := s.flags_are_bits
  have hne : (toggle.array, toggle.bit) ≠ (set.array, set.bit) := by decide
  have hbetween : ∀ call ∈ between, call.flagAction? 3 7 = none := by
    simp [between, set, Call.flagAction?]
  refine ⟨⟨hne, hswap [] [.enterRoom 1 2] toggle set hne⟩,
    ⟨hbetween, htoggles [] between [] 3 7 hbetween⟩, ?_, ?_, ?_, ?_⟩
  · exact (hvalue calls 3 7).trans (by decide)
  · exact (hvalue calls 4 0x12).trans (by decide)
  · exact (hvalue (calls ++ clears) 3 7).trans (by decide)
  · exact (hvalue (calls ++ clears) 4 0x12).trans (by decide)

end RoomState
end RoomScript
