import RoomScript.Cursor

/-!
# Walking a script

Running a script and listing it go through the same instructions, in the same order.  `walk` is
that order, and an `Observer` is what is done on the way.

A walk reads a script front to back.  Where an instruction opens a body, the body is walked one
level deeper and the walk goes on behind it; the instruction that closes the body belongs to the
outer level.  A fragment carried by an instruction is walked one level deeper in its own language.

An observer sees every instruction and decides on the way: after an instruction it may give up the
body that the instruction sits in (the whole script, at the outermost level), and a body may be
passed over instead of entered.  Either way the outer level goes on behind the body, so what an
observer does never changes how the bytes outside are read.

Every walk has a ceiling on the number of instructions.  Reaching it ends all levels at once.

A walk can start at any offset (`origin`), which the offsets of instructions and fragments are
counted from.  As with cursors, these are natural numbers, and it is assumed that they stay below
`2 ^ 64`: the sums of machine words that they stand for are not checked, so that an origin near
the end of the range would make them wrap.  No section of a file is that large, and its scripts
start inside of it.

`level_eq_of_none` and `level_eq_of_some` unfold a level by one instruction.  What a walk does
depends on nothing but the bytes of its script (`walk_congr`).
-/

set_option autoImplicit false

namespace RoomScript

/-! ## Observers and reports -/

/-- What is done while a script is walked.  `σ` is the state that is carried along. -/
structure Observer (σ : Type) where
  /-- Sees an instruction; `false` gives up the body that it sits in. -/
  visit : Language → Instruction → (depth : Nat) → σ → Bool × σ
  /-- Stands in front of a body; `false` passes over it. -/
  enter : Instruction → BodyKind → (depth : Nat) → σ → Bool × σ
  /-- Stands behind a body that was entered, and is told whether it was walked to its end. -/
  leave : Instruction → BodyKind → (depth : Nat) → (completed : Bool) → σ → σ

/-- The account of a walk. -/
structure Report where
  /-- How many instructions were seen. -/
  instructions : Nat := 0
  problems : Array Problem := #[]
  deriving DecidableEq, Repr

namespace Report

/-- The account of two walks, one after the other. -/
def append : Report → Report → Report
  | ⟨n, problems⟩, ⟨n', problems'⟩ => ⟨n + n', problems ++ problems'⟩

instance : Append Report := ⟨append⟩

/-- Whether a walk was ended by its ceiling. -/
def hitLimit (r : Report) : Bool :=
  r.problems.any fun
    | .instructionLimit _ => true
    | _ => false

end Report

/-! ## The state of a walk -/

/-- How the walk of a level ended. -/
inductive Ending where
  /-- At the end of its code. -/
  | completed
  /-- The observer gave it up. -/
  | stopped
  /-- The ceiling was reached, and the whole walk is over. -/
  | halted
  deriving DecidableEq, Repr

/-- A walk under way. -/
structure Progress (σ : Type) where
  observer : σ
  instructions : Nat := 0
  problems : Array Problem := #[]

namespace Progress

variable {σ : Type}

/-- Notes a problem. -/
def note (p : Progress σ) (problem : Problem) : Progress σ :=
  { p with problems := p.problems.push problem }

/-- Counts an instruction, and notes if it was cut short. -/
def count (p : Progress σ) (s : Step) : Progress σ :=
  let p := { p with instructions := p.instructions + 1 }
  if s.isTruncated then
    p.note (.truncated s.instruction.offset s.wanted s.instruction.length)
  else p

/-- Counting looks at the instruction alone. -/
theorem count_next (p : Progress σ) (s : Step) (next : Cursor) :
    p.count { s with next } = p.count s := rfl

/-- Puts a question to the observer. -/
def ask {α : Type} (p : Progress σ) (question : σ → α × σ) : α × Progress σ :=
  let (answer, observer) := question p.observer
  (answer, { p with observer })

/-- Tells the observer something. -/
def tell (p : Progress σ) (message : σ → σ) : Progress σ :=
  { p with observer := message p.observer }

/-- The account of the walk so far. -/
def report (p : Progress σ) : Report := ⟨p.instructions, p.problems⟩

end Progress

/-! ## The walk -/

/-- Walks the script at `c`, which lies `depth` levels deep. -/
def Observer.level {σ : Type} (o : Observer σ) (limit : Nat) (lang : Language) (depth : Nat)
    (c : Cursor) (p : Progress σ) : Ending × Progress σ :=
  match _hs : c.step? lang with
  | none => (.completed, p)
  | some s =>
    if limit ≤ p.instructions then (.halted, p.note (.instructionLimit limit))
    else
      let i := s.instruction
      let (goOn, p) := (p.count s).ask (o.visit lang i depth)
      if goOn then
        let (ending, p) :=
          match hf : lang.fragment? i with
          | none => (Ending.completed, p)
          | some f => o.level limit f.language (depth + 1) (f.cursor i) p
        if ending = .halted then (.halted, p)
        else
          match lang.body? i s.next.rest with
          | none => o.level limit lang depth s.next p
          | some b =>
            let (entered, p) := p.ask (o.enter i b.kind depth)
            if entered then
              let (ending, p) := o.level limit lang (depth + 1) (s.next.body b.length) p
              if ending = .halted then (.halted, p)
              else
                o.level limit lang depth (s.next.skip b.length)
                  (p.tell (o.leave i b.kind depth (ending = .completed)))
            else o.level limit lang depth (s.next.skip b.length) p
      else (.stopped, p)
termination_by c.rest.size
decreasing_by
  · exact Cursor.size_fragment_lt _hs hf
  · exact Cursor.size_rest_lt _hs
  · exact Nat.lt_of_le_of_lt (Cursor.size_body_le _ _) (Cursor.size_rest_lt _hs)
  · exact Nat.lt_of_le_of_lt (Cursor.size_skip_le _ _) (Cursor.size_rest_lt _hs)
  · exact Nat.lt_of_le_of_lt (Cursor.size_skip_le _ _) (Cursor.size_rest_lt _hs)

namespace Observer

variable {σ : Type}

/-- Walks a script that starts at offset `origin`, and gives the last state of the observer. -/
def walk (o : Observer σ) (limit : Nat) (lang : Language) (origin : Nat) (code : Stretch)
    (initial : σ) : σ × Report :=
  let (_, p) := o.level limit lang 0 (.start origin code) { observer := initial }
  (p.observer, p.report)

/-! ## A level, step by step -/

/-- Walks the fragment that an instruction carries, if it carries one. -/
def fragment (o : Observer σ) (limit : Nat) (lang : Language) (depth : Nat) (i : Instruction)
    (p : Progress σ) : Ending × Progress σ :=
  match lang.fragment? i with
  | none => (.completed, p)
  | some f => o.level limit f.language (depth + 1) (f.cursor i) p

theorem fragment_eq (o : Observer σ) (limit : Nat) (lang : Language) (depth : Nat)
    (i : Instruction) (p : Progress σ) :
    o.fragment limit lang depth i p =
      match _h : lang.fragment? i with
      | none => (.completed, p)
      | some f => o.level limit f.language (depth + 1) (f.cursor i) p := by
  unfold fragment
  cases lang.fragment? i <;> rfl

variable (o : Observer σ) (limit : Nat) {lang : Language} (depth : Nat) {c : Cursor}
  (p : Progress σ)

theorem level_eq_of_none (hs : c.step? lang = none) :
    o.level limit lang depth c p = (.completed, p) := by
  rw [level]
  split
  · rfl
  · next s h =>
    rw [hs] at h
    cases h

theorem level_eq_of_some {s : Step} (hs : c.step? lang = some s) :
    o.level limit lang depth c p =
      if limit ≤ p.instructions then (.halted, p.note (.instructionLimit limit))
      else
        let i := s.instruction
        let (goOn, p) := (p.count s).ask (o.visit lang i depth)
        if goOn then
          let (ending, p) := o.fragment limit lang depth i p
          if ending = .halted then (.halted, p)
          else
            match lang.body? i s.next.rest with
            | none => o.level limit lang depth s.next p
            | some b =>
              let (entered, p) := p.ask (o.enter i b.kind depth)
              if entered then
                let (ending, p) := o.level limit lang (depth + 1) (s.next.body b.length) p
                if ending = .halted then (.halted, p)
                else
                  o.level limit lang depth (s.next.skip b.length)
                    (p.tell (o.leave i b.kind depth (ending = .completed)))
              else o.level limit lang depth (s.next.skip b.length) p
        else (.stopped, p) := by
  rw [level]
  split
  · next h =>
    rw [hs] at h
    cases h
  · next t h =>
    rw [hs] at h
    cases h
    dsimp only [fragment]
    cases lang.fragment? s.instruction <;> rfl

/-- A walk depends on nothing but the bytes of its script. -/
theorem level_congr {c' : Cursor} (h : c.Agrees c') :
    o.level limit lang depth c p = o.level limit lang depth c' p := by
  fun_induction o.level limit lang depth c p generalizing c' with
  | case1 lang depth c p hs => rw [o.level_eq_of_none limit depth p (h.step?_eq_none hs)]
  | case2 lang depth c p s hs hlimit =>
    obtain ⟨next, -, hs'⟩ := h.step?_eq_some hs
    rw [o.level_eq_of_some limit depth p hs', if_pos hlimit]
  | case3 lang depth c p₀ s hs hlimit i p₁ p₂ hvisit hfragment =>
    obtain ⟨next, -, hs'⟩ := h.step?_eq_some hs
    rw [o.level_eq_of_some limit depth p₀ hs', if_neg hlimit]
    have hfragment := (o.fragment_eq limit lang depth i p₁).trans hfragment
    simp only [Progress.count_next, i] at hvisit hfragment ⊢
    simp only [hvisit, hfragment, if_true]
  | case4 lang depth c p₀ s hs hlimit i p₁ ending p₂ hfragment hending hbody hvisit =>
    rename_i ih
    obtain ⟨next, hnext, hs'⟩ := h.step?_eq_some hs
    rw [o.level_eq_of_some limit depth p₀ hs', if_neg hlimit]
    have hfragment := (o.fragment_eq limit lang depth i p₁).trans hfragment
    rw [Language.body?_congr hnext.toList] at hbody
    simp only [Progress.count_next, i] at hvisit hfragment hbody ⊢
    simp only [hvisit, hfragment, if_true, if_neg hending, hbody, ih hnext]
  | case5 lang depth c p₀ s hs hlimit i p₁ ending p₂ hfragment hending b hbody p₃ p₄ hvisit henter
      hlevel =>
    rename_i ih
    obtain ⟨next, hnext, hs'⟩ := h.step?_eq_some hs
    rw [o.level_eq_of_some limit depth p₀ hs', if_neg hlimit]
    have hfragment := (o.fragment_eq limit lang depth i p₁).trans hfragment
    rw [Language.body?_congr hnext.toList] at hbody
    rw [ih (hnext.body b.length)] at hlevel
    simp only [Progress.count_next, i] at hvisit hfragment hbody henter ⊢
    simp only [hvisit, hfragment, if_true, if_neg hending, hbody, henter, hlevel]
  | case6 lang depth c p₀ s hs hlimit i p₁ ending p₂ hfragment hending b hbody p₃ ending' p₄ hlevel
      hending' hvisit henter =>
    rename_i ihbody ih
    obtain ⟨next, hnext, hs'⟩ := h.step?_eq_some hs
    rw [o.level_eq_of_some limit depth p₀ hs', if_neg hlimit]
    have hfragment := (o.fragment_eq limit lang depth i p₁).trans hfragment
    rw [Language.body?_congr hnext.toList] at hbody
    rw [ihbody (hnext.body b.length)] at hlevel
    simp only [Progress.count_next, i] at hvisit hfragment hbody henter ⊢
    simp only [hvisit, hfragment, if_true, if_neg hending, hbody, henter, hlevel, if_neg hending']
    exact ih (hnext.skip b.length)
  | case7 lang depth c p₀ s hs hlimit i p₁ ending p₂ hfragment hending b hbody entered p₃ henter
      hentered hvisit =>
    rename_i ih
    obtain ⟨next, hnext, hs'⟩ := h.step?_eq_some hs
    rw [o.level_eq_of_some limit depth p₀ hs', if_neg hlimit]
    have hfragment := (o.fragment_eq limit lang depth i p₁).trans hfragment
    rw [Language.body?_congr hnext.toList] at hbody
    simp only [Progress.count_next, i] at hvisit hfragment hbody henter ⊢
    simp only [hvisit, hfragment, if_true, if_neg hending, hbody, henter, if_neg hentered]
    exact ih (hnext.skip b.length)
  | case8 lang depth c p₀ s hs hlimit i goOn p₁ hvisit =>
    rename_i hgoOn
    obtain ⟨next, -, hs'⟩ := h.step?_eq_some hs
    rw [o.level_eq_of_some limit depth p₀ hs', if_neg hlimit]
    simp only [Progress.count_next, i] at hvisit ⊢
    simp only [hvisit, if_neg hgoOn]

/-- It does not matter where in a file a script is. -/
theorem walk_congr (lang : Language) (origin : Nat) {code code' : Stretch}
    (h : code.toList = code'.toList) (initial : σ) :
    o.walk limit lang origin code initial = o.walk limit lang origin code' initial := by
  have hagrees : (Cursor.start origin code).Agrees (.start origin code') := ⟨rfl, h, rfl⟩
  rw [walk, walk, level_congr o limit 0 _ hagrees]

end Observer

end RoomScript
