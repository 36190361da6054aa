import RoomScript.Proofs.Effects
import RoomScript.Proofs.RoundTrip
import RoomScript.Proofs.Selection

/-!
# Running structured scripts with conditions

A run that evaluates conditions remembers one outcome for each depth, and that is all it has to
tell which `else` is taken.  This file says what such a run should do with a structured script, by
recursion on the script (`ScriptTree.run`), and proves that it does (`walk_eq_run`).

In `ScriptTree.run` there are no depths and no outcomes.  A body is run in order and given up right
behind a test that fails in it; a script that is no body is never given up; the second branch of a
conditional is run if and only if the first one was given up.

The proof goes along the script with one rule for each thing that a run can meet: an instruction
(`Runner.ends_plain`), an opener with its body (`Runner.ends_around`), and an `else` with its body
(`Runner.ends_else`).  What is remembered is needed in one place only, between a first branch and
its `else`.  It was written when the first branch was left, after everything that the branch had to
say, and the `else` is the next thing to come.  So nothing has to be known about what bodies do to
the outcomes at other depths.
-/

set_option autoImplicit false

namespace RoomScript

/-! ## What a structured script does -/

/-- A game in which a script runs: the state, and the effects so far, the earliest first. -/
structure Game where
  room : RoomState
  effects : List Effect := []

namespace Game

variable (g : Game) (lang : Language) (bytes : List UInt8)

/-- What an instruction does in a game. -/
def action : Action := lang.action { bytes := bytes.toArray } g.room.stage

/-- Carries out an instruction. -/
def carryOut : Game :=
  match (g.action lang bytes).effect? with
  | some effect => { room := g.room.perform effect, effects := g.effects ++ [effect] }
  | none => g

/-- Whether an instruction is a test of a flag that does not have the expected value. -/
def fails : Bool :=
  match g.action lang bytes with
  | .test array bit expected => g.room.flag array bit != expected
  | _ => false

end Game

namespace ScriptTree

/-- Runs a structured script, and says whether it was run to its end.  Only a body can be given
up. -/
def run (lang : Language) : ScriptTree → (inBody : Bool) → Game → Bool × Game
  | nil, _, g => (true, g)
  | plain bytes rest, inBody, g =>
    if inBody && g.fails lang bytes then (false, g.carryOut lang bytes)
    else rest.run lang inBody (g.carryOut lang bytes)
  | block _ _ body rest, inBody, g => rest.run lang inBody (body.run lang true g).2
  | ifElse _ thenBody _ elseBody rest, inBody, g =>
    match thenBody.run lang true g with
    | (true, g) => rest.run lang inBody g
    | (false, g) => rest.run lang inBody (elseBody.run lang true g).2

/-- The number of instructions of a structured script. -/
def instructions : ScriptTree → Nat
  | nil => 0
  | plain _ rest => rest.instructions + 1
  | block _ _ body rest => body.instructions + rest.instructions + 1
  | ifElse _ thenBody _ elseBody rest =>
    thenBody.instructions + elseBody.instructions + rest.instructions + 2

end ScriptTree

/-! ## Going through an outline -/

namespace Observer

variable {σ : Type} (o : Observer σ)

/-- From state `x` on, the observer goes through an outline and ends as `Q` says.  `Q` is told
whether the outline was gone through to its end, and the last state. -/
def Ends (O : Outline) (depth : Nat) (x : σ) (Q : Bool → σ → Prop) : Prop :=
  ∃ t completed, O.Runs depth t completed ∧ o.Answers t x ∧ Q completed (o.replay t x)

variable {o} {depth : Nat} {x : σ} {Q : Bool → σ → Prop}

theorem Ends.imp {O : Outline} {Q' : Bool → σ → Prop} (h : o.Ends O depth x Q)
    (hQ : ∀ completed y, Q completed y → Q' completed y) : o.Ends O depth x Q' := by
  obtain ⟨t, completed, hruns, hanswers, hend⟩ := h
  exact ⟨t, completed, hruns, hanswers, hQ _ _ hend⟩

theorem ends_done {offset : Nat} {unread : List UInt8} (h : Q true x) :
    o.Ends (.done offset unread) depth x Q :=
  ⟨[], true, .done, trivial, h⟩

variable {lang : Language} {i : Instruction} {at₁ at₂ : Nat} {body next : Outline}
  {kind : BodyKind}

theorem ends_stop {kind? : Option BodyKind} {inner : Outline}
    (hvisit : (o.visit lang i depth x).1 = false) (h : Q false (o.visit lang i depth x).2) :
    o.Ends (.step lang i inner kind? body next) depth x Q :=
  ⟨_, _, .stop, ⟨hvisit, trivial⟩, h⟩

/-- An instruction that opens no body and has nothing inside. -/
theorem ends_plain (hvisit : (o.visit lang i depth x).1 = true)
    (h : o.Ends next depth (o.visit lang i depth x).2 Q) :
    o.Ends (.step lang i (.done at₁ []) none (.done at₂ []) next) depth x Q := by
  obtain ⟨t, completed, hruns, hanswers, hend⟩ := h
  exact ⟨_, _, .plain .done .done hruns, ⟨hvisit, hanswers⟩, hend⟩

/-- A body that is passed over. -/
theorem ends_pass (hvisit : (o.visit lang i depth x).1 = true)
    (henter : (o.enter i kind depth (o.visit lang i depth x).2).1 = false)
    (h : o.Ends next depth (o.enter i kind depth (o.visit lang i depth x).2).2 Q) :
    o.Ends (.step lang i (.done at₁ []) (some kind) body next) depth x Q := by
  obtain ⟨t, completed, hruns, hanswers, hend⟩ := h
  exact ⟨_, _, .pass .done hruns, ⟨hvisit, henter, hanswers⟩, hend⟩

/-- A body that is walked. -/
theorem ends_enter (hvisit : (o.visit lang i depth x).1 = true)
    (henter : (o.enter i kind depth (o.visit lang i depth x).2).1 = true)
    (h : o.Ends body (depth + 1) (o.enter i kind depth (o.visit lang i depth x).2).2
      fun completed y ↦ o.Ends next depth (o.leave i kind depth completed y) Q) :
    o.Ends (.step lang i (.done at₁ []) (some kind) body next) depth x Q := by
  obtain ⟨t₂, completed₂, hbody, hanswers₂, t₃, completed₃, hnext, hanswers₃, hend⟩ := h
  refine ⟨_, _, .enter .done hbody hnext, ⟨hvisit, henter, ?_⟩, ?_⟩
  · exact (o.answers_append).2 ⟨hanswers₂, trivial, hanswers₃⟩
  · simpa [react] using hend

/-- What a walk does that has room enough under its ceiling. -/
theorem Ends.walk {origin limit : Nat} {code : Stretch}
    (h : o.Ends (lang.outline (.start origin code)) 0 x Q)
    (hlimit : ((lang.outline (.start origin code)).visits 0).length ≤ limit) :
    ∃ completed, Q completed (o.walk limit lang origin code x).1 := by
  obtain ⟨t, completed, hruns, hanswers, hend⟩ := h
  have hle := hruns.visits_sublist.length_le
  refine ⟨completed, ?_⟩
  rw [walk_eq hruns hanswers, Trace.upTo_eq_self (Nat.le_trans hle hlimit)]
  exact hend

end Observer

/-! ## The observer that runs scripts -/

theorem Opener.kind_ne_elseBody {opener : Opener} (h : opener ≠ .elseBranch) :
    opener.kind ≠ .elseBody := by
  cases opener <;> first | exact absurd rfl h | exact BodyKind.noConfusion

namespace Language

variable {lang : Language} {i i' : Instruction}

/-- What an instruction does is a matter of its bytes. -/
theorem action_congr (h : i.bytes = i'.bytes) (stage : UInt8) :
    lang.action i stage = lang.action i' stage := by
  obtain ⟨offset, bytes, mode⟩ := i
  obtain ⟨offset', bytes', mode'⟩ := i'
  obtain rfl : bytes = bytes' := h
  cases lang <;> rfl

/-- An opener does nothing but open its body. -/
theorem action_of_form {opener : Opener} {f : Form} (hf : lang.form? opener = some f)
    (hopcode : i.opcode = f.opcode) (stage : UInt8) : lang.action i stage = .nothing := by
  cases lang with
  | re1Event => rfl
  | re1Scd => cases opener <;> cases hf <;> simp [action, Re1Scd.action, Re1Scd.Op.ofByte?, hopcode]
  | re2 =>
    cases opener <;> cases hf <;>
      simp [action, Re2.action, Re2.Op.ofByte?, hopcode, Re2.varOp?, Action.ofEffect?]
  | re3 => cases opener <;> cases hf <;> simp [action, Re3.action, Re3.Op.ofByte?, hopcode]

theorem action_header {opener : Opener} {filler : Filler} {n : Nat}
    (h : lang.Writes opener filler n) (offset : Nat) (stage : UInt8) :
    lang.action { offset, bytes := (lang.header opener filler n).toArray } stage = .nothing := by
  obtain ⟨f, hf, heq, -, -⟩ := h.exists_form
  refine action_of_form hf ?_ stage
  obtain ⟨rest, hrest⟩ : ∃ rest, f.header lang filler n = f.opcode :: rest := by
    cases lang <;> exact ⟨_, rfl⟩
  exact Instruction.opcode_eq (by rw [heq, hrest])

end Language

namespace Runner

/-- The game that a run is in. -/
def game (r : Runner) : Game := ⟨r.room, r.effects.toList⟩

variable {r : Runner} {lang : Language} {depth : Nat} {Q : Bool → Runner → Prop}

/-- An instruction is carried out in the game. -/
theorem game_act {i : Instruction} {bytes : List UInt8} (hi : i.bytes = bytes.toArray) :
    (r.act (lang.action i r.room.stage)).game = r.game.carryOut lang bytes := by
  have haction : lang.action i r.room.stage = r.game.action lang bytes :=
    Language.action_congr hi _
  rw [haction, game, Game.carryOut, act]
  cases heffect : (r.game.action lang bytes).effect? with
  | none => rfl
  | some effect => simp [game]

/-- Looking at a flag changes no flag, so it does not matter that the look comes first. -/
theorem answer?_act {i : Instruction} {bytes : List UInt8} (hi : i.bytes = bytes.toArray) :
    let action := lang.action i r.room.stage
    (decide ((r.act action).room.answer? action = some false)) = r.game.fails lang bytes := by
  intro action
  have haction : r.game.action lang bytes = action := (Language.action_congr hi _).symm
  rw [Game.fails, haction]
  cases action with
  | test array bit expected =>
    have hflag : (r.act (.test array bit expected)).room.flag array bit
        = r.room.flag array bit := by
      simp [act, Action.effect?, RoomState.perform, RoomState.flag_performFlag, FlagAction.update]
    simp only [RoomState.answer?, hflag, game]
    cases r.room.flag array bit <;> cases expected <;> rfl
  | _ => rfl

section

variable (i : Instruction) {kind : BodyKind}

/-- What is remembered about an `if` is no part of the game. -/
theorem game_enter (kind : BodyKind) :
    ((observer true).enter i kind depth r).2.game = r.game := by
  cases kind <;> rfl

theorem game_leave (kind : BodyKind) (completed : Bool) :
    ((observer true).leave i kind depth completed r).game = r.game := by
  cases kind <;> rfl

/-- Only the body of an `else` is ever passed over. -/
theorem enter_of_ne (h : kind ≠ .elseBody) :
    ((observer true).enter i kind depth r).1 = true := by
  cases kind <;> first | rfl | exact absurd rfl h

theorem get_leave (completed : Bool) :
    ((observer true).leave i .thenBody depth completed r).outcomes.get depth = some completed := by
  simp [observer, remember, Outcomes.get_set]

end

/-- An instruction that opens nothing.  Behind a failed test, a body is given up. -/
theorem ends_plain {bytes : List UInt8} {offset at₁ at₂ : Nat} {next : Outline}
    (hstop : (decide (0 < depth) && r.game.fails lang bytes) = true →
      ∀ r', r'.game = r.game.carryOut lang bytes → Q false r')
    (hgoOn : (decide (0 < depth) && r.game.fails lang bytes) = false →
      ∀ r', r'.game = r.game.carryOut lang bytes → (observer true).Ends next depth r' Q) :
    (observer true).Ends (.step lang { offset, bytes := bytes.toArray } (.done at₁ []) none
      (.done at₂ []) next) depth r Q := by
  let i : Instruction := { offset, bytes := bytes.toArray }
  have hgame : (r.act (lang.action i r.room.stage)).game = r.game.carryOut lang bytes :=
    game_act rfl
  have hvisit : ((observer true).visit lang i depth r).1
      = !(decide (0 < depth) && r.game.fails lang bytes) := by
    rw [← answer?_act (i := i) rfl]
    rfl
  cases hfails : decide (0 < depth) && r.game.fails lang bytes with
  | true =>
    rw [hfails] at hvisit
    exact Observer.ends_stop hvisit (hstop hfails _ hgame)
  | false =>
    rw [hfails] at hvisit
    exact Observer.ends_plain hvisit (hgoOn hfails _ hgame)

section

variable {opener : Opener} {filler : Filler} {n offset : Nat} {body next : Outline}

theorem visit_header (hwrites : lang.Writes opener filler n) :
    (observer true).visit lang { offset, bytes := (lang.header opener filler n).toArray } depth r
      = (true, r) := by
  simp [observer, Language.action_header hwrites, RoomState.answer?, act, Action.effect?]

/-- An opener other than an `else`, and its body.  What is behind them can tell how an `if`
ended. -/
theorem ends_around (hwrites : lang.Writes opener filler n) (hne : opener ≠ .elseBranch)
    (h : ∀ r₁, r₁.game = r.game → (observer true).Ends body (depth + 1) r₁ fun completed r₂ ↦
      ∀ r₃, r₃.game = r₂.game →
        (opener.kind = .thenBody → r₃.outcomes.get depth = some completed) →
          (observer true).Ends next depth r₃ Q) :
    (observer true).Ends (ScriptTree.stepOf lang opener (lang.header opener filler n) offset body
      next) depth r Q := by
  let i : Instruction := { offset, bytes := (lang.header opener filler n).toArray }
  have hvisit : (observer true).visit lang i depth r = (true, r) := visit_header hwrites
  have henter : ((observer true).enter i opener.kind depth r).1 = true :=
    enter_of_ne i (Opener.kind_ne_elseBody hne)
  refine Observer.ends_enter (by rw [hvisit]) (by rw [hvisit]; exact henter) ?_
  rw [hvisit]
  refine (h _ (game_enter i opener.kind)).imp fun completed r₂ hnext ↦ ?_
  refine hnext _ (game_leave i opener.kind completed) fun hkind ↦ ?_
  rw [hkind]
  exact get_leave i completed

/-- An `else` right behind its `if`, and its body. -/
theorem ends_else (hwrites : lang.Writes .elseBranch filler n) {completed : Bool}
    (houtcome : r.outcomes.get depth = some completed)
    (hpass : completed = true → ∀ r', r'.game = r.game → (observer true).Ends next depth r' Q)
    (henter : completed = false → ∀ r₁, r₁.game = r.game →
      (observer true).Ends body (depth + 1) r₁ fun _ r₂ ↦
        ∀ r₃, r₃.game = r₂.game → (observer true).Ends next depth r₃ Q) :
    (observer true).Ends (ScriptTree.stepOf lang .elseBranch (lang.header .elseBranch filler n)
      offset body next) depth r Q := by
  let i : Instruction := { offset, bytes := (lang.header .elseBranch filler n).toArray }
  have hvisit : (observer true).visit lang i depth r = (true, r) := visit_header hwrites
  have hentered : ((observer true).enter i .elseBody depth r).1 = !completed := by
    simp [observer, houtcome]
  cases completed with
  | true =>
    refine Observer.ends_pass (by rw [hvisit]) (by rw [hvisit]; exact hentered) ?_
    rw [hvisit]
    exact hpass rfl _ (game_enter i .elseBody)
  | false =>
    refine Observer.ends_enter (by rw [hvisit]) (by rw [hvisit]; exact hentered) ?_
    rw [hvisit]
    refine (henter rfl _ (game_enter i .elseBody)).imp fun completed r₂ hnext ↦ ?_
    exact hnext _ (game_leave i .elseBody completed)

end

end Runner

namespace ScriptTree

variable {lang : Language}

/-- **A run with conditions does with a structured script what it should.** -/
theorem ends_outline {t : ScriptTree} (ht : t.WellFormed lang) (offset depth at₁ : Nat)
    (unread : List UInt8) (r : Runner) :
    (Runner.observer true).Ends (t.outline lang offset (.done at₁ unread)) depth r
      fun completed r' ↦ (completed, r'.game) = t.run lang (decide (0 < depth)) r.game := by
  induction t generalizing offset depth at₁ unread r with
  | nil => exact Observer.ends_done rfl
  | plain bytes rest ih =>
    obtain ⟨-, hrest⟩ := ht
    refine Runner.ends_plain (fun hfails r' hr' ↦ ?_) (fun hfails r' hr' ↦ ?_)
    · rw [run, if_pos hfails, hr']
    · rw [run, if_neg (by simp [hfails]), ← hr']
      exact ih hrest _ _ _ _ r'
  | block opener filler body rest ihbody ihrest =>
    obtain ⟨-, hne, hwrites, -, hbody, hrest⟩ := ht
    refine Runner.ends_around hwrites hne fun r₁ hr₁ ↦ ?_
    refine (ihbody hbody _ (depth + 1) _ _ r₁).imp fun completed r₂ hr₂ r₃ hr₃ _ ↦ ?_
    have hgame : r₃.game = (body.run lang true r.game).2 := by
      rw [hr₃, ← hr₁]
      exact congrArg Prod.snd hr₂
    rw [run, ← hgame]
    exact ihrest hrest _ _ _ _ r₃
  | ifElse filler thenBody filler' elseBody rest ihthen ihelse ihrest =>
    obtain ⟨hwrites, hwrites', -, hthen, helse, hrest⟩ := ht
    refine Runner.ends_around hwrites (by decide) fun r₁ hr₁ ↦ ?_
    refine (ihthen hthen _ (depth + 1) _ _ r₁).imp fun completed r₂ hr₂ r₃ hr₃ houtcome ↦ ?_
    have hrun : thenBody.run lang true r.game = (completed, r₃.game) := by
      rw [hr₃, ← hr₁]
      exact hr₂.symm
    rw [run, hrun]
    refine Runner.ends_else hwrites' (houtcome rfl) (fun hcompleted r₄ hr₄ ↦ ?_)
      (fun hcompleted r₄ hr₄ ↦ ?_)
    · rw [hcompleted, ← hr₄]
      exact ihrest hrest _ _ _ _ r₄
    · refine (ihelse helse _ (depth + 1) _ _ r₄).imp fun completed' r₅ hr₅ r₆ hr₆ ↦ ?_
      have hgame : r₆.game = (elseBody.run lang true r₃.game).2 := by
        rw [hr₆, ← hr₄]
        exact congrArg Prod.snd hr₅
      rw [hcompleted]
      dsimp only
      rw [← hgame]
      exact ihrest hrest _ _ _ _ r₆

/-- A walk comes to the instructions of a structured script, and to those behind it. -/
theorem length_visits_outline (t : ScriptTree) (offset : Nat) (tail : Outline) (depth : Nat) :
    ((t.outline lang offset tail).visits depth).length
      = t.instructions + (tail.visits depth).length := by
  induction t generalizing offset tail depth with
  | nil => simp [outline, instructions]
  | plain bytes rest ih =>
    simp only [outline, Outline.visits, instructions, ih, List.length_cons, List.nil_append]
    omega
  | block opener filler body rest ihbody ihrest =>
    simp only [outline, stepOf, Outline.visits, instructions, ihbody, ihrest, List.length_cons,
      List.length_append, List.length_nil]
    omega
  | ifElse filler thenBody filler' elseBody rest ihthen ihelse ihrest =>
    simp only [outline, stepOf, Outline.visits, instructions, ihthen, ihelse, ihrest,
      List.length_cons, List.length_append, List.length_nil]
    omega

end ScriptTree

namespace Runner

/-- **A structured script runs as it should.**  A run with conditions that has room for all of its
instructions makes the same effects in the same order as `ScriptTree.run`, and comes to the same
state, whatever was remembered before. -/
theorem walk_eq_run {lang : Language} (hlang : lang ≠ .re1Event) {t : ScriptTree}
    (ht : t.WellFormed lang) {limit : Nat} (hlimit : t.instructions ≤ limit) (origin : Nat)
    (r : Runner) :
    let code := Bytes.whole (t.assemble lang).toArray
    ((observer true).walk limit lang origin code r).1.game = (t.run lang false r.game).2 := by
  intro code
  have houtline : lang.outline (.start origin code)
      = t.outline lang origin (.done (origin + (t.assemble lang).length) []) := by
    have h := ScriptTree.outlineOf_assemble hlang ht origin []
    rwa [List.append_nil, Language.outlineOf_nil, Language.outlineOf] at h
  have hvisits : ((lang.outline (.start origin code)).visits 0).length ≤ limit := by
    rw [houtline, ScriptTree.length_visits_outline]
    exact hlimit
  have hends := ScriptTree.ends_outline ht origin 0 (origin + (t.assemble lang).length) [] r
  rw [← houtline] at hends
  obtain ⟨completed, hrun⟩ := hends.walk hvisits
  exact congrArg Prod.snd hrun

/-- The first test fails and the second branch sets the flag, in a loop that is given up behind a
test of another flag; so the first branch is run the next time. -/
theorem walk_eq_run_twice :
    let test := [0x21, 0x04, 0x07, 0x01]
    let message (id : UInt8) : List UInt8 := [0x2b, 0x00, id, 0x00, 0x00, 0x00]
    let conditional (elseBody : ScriptTree) : ScriptTree → ScriptTree :=
      .ifElse {} (.plain test (.plain (message 1) .nil)) {} elseBody
    let t := conditional
      (.block .forLoop { extra := [0x00, 0x00] }
        (.plain [0x22, 0x04, 0x07, 0x01]
          (.plain [0x21, 0x04, 0x08, 0x01] (.plain (message 2) .nil)))
        (.plain (message 3) .nil))
      (.plain [0x08, 0x00] (conditional (.plain (message 4) .nil) (.plain [0x08, 0x00] .nil)))
    let code := Bytes.whole (t.assemble .re2).toArray
    let r : Runner := { room := {} }
    Language.re2 ≠ .re1Event ∧ t.WellFormed .re2 ∧ t.instructions ≤ 16 ∧
      (t.run .re2 false r.game).2.effects.filterMap Effect.message? = [3, 1] ∧
        ((observer true).walk 16 .re2 0x40 code r).1.game = (t.run .re2 false r.game).2 := by
  intro test message conditional t code r
  have ht : t.WellFormed .re2 := by decide +kernel
  have hlimit : t.instructions ≤ 16 := by decide +kernel
  exact ⟨by decide, ht, hlimit, by decide +kernel, walk_eq_run (by decide) ht hlimit 0x40 r⟩

end Runner
end RoomScript
