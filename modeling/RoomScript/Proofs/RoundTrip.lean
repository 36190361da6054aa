import RoomScript.Proofs.Assembly
import RoomScript.Proofs.Coverage

/-!
# Structured scripts are read back

A structured script that is written down and walked is walked as what it is: the walk goes through
its tree in order, enters every body and leaves it at its end.  What is written behind the script
does not matter for that, and it is walked as if it stood alone.

## What is here

* `Language.outlineOf_plain`, `Language.outlineOf_header` — one instruction is read off at a time, a
  plain one or an opener with its body, whatever is behind it.  For an opener, the point is that its
  body has the right length; that is `Language.body?_header`.
* `ScriptTree.outline`, `ScriptTree.callbacks` — the outline of a script, with another outline put
  at its end, and what is said about the script.  They are written by recursion on the tree and know
  nothing of bytes.
* `ScriptTree.outlineOf_assemble` — the outline of a structured script and of what is written behind
  it is `ScriptTree.outline`.
* `ScriptTree.truncations_callbacks` — no instruction of a structured script is cut short.
* `Observer.walk_assemble` — the walk, its report and its count.

The outline that is put at the end is what makes the induction on the tree work.  Behind each part
of a script there is the rest of the script, and then the other code, and for the part the two are
the same thing.
-/

set_option autoImplicit false

namespace RoomScript

/-! ## Reading one instruction off -/

namespace Language

variable {lang : Language}

/-- The outline of a list of bytes that starts at `offset`. -/
def outlineOf (lang : Language) (offset : Nat) (code : List UInt8) : Outline :=
  lang.outline (.start offset (Bytes.whole code.toArray))

theorem outline_eq_outlineOf (c : Cursor) (hmode : c.mode = .m0) :
    lang.outline c = lang.outlineOf c.offset c.rest.toList :=
  outline_congr ⟨rfl, by rw [Cursor.start, Bytes.toList_whole, List.toList_toArray], hmode⟩

theorem outlineOf_nil (offset : Nat) : lang.outlineOf offset [] = .done offset [] :=
  outline_of_size_eq_zero rfl

/-- A complete instruction in front of other code is the first thing that is read. -/
theorem exists_step_append (hlang : lang ≠ .re1Event) (offset : Nat) {bytes : List UInt8}
    (behind : List UInt8) (hpos : 0 < bytes.length)
    (hlength : lang.length (Bytes.whole bytes.toArray) .m0 = bytes.length) :
    ∃ s, (Cursor.start offset (Bytes.whole (bytes ++ behind).toArray)).step? lang = some s ∧
      s.instruction = { offset, bytes := bytes.toArray } ∧ s.next.offset = offset + bytes.length ∧
        s.next.rest.toList = behind ∧ s.next.mode = .m0 := by
  have hpre : (Bytes.whole bytes.toArray).toList
      <+: (Bytes.whole (bytes ++ behind).toArray).toList := by
    rw [Bytes.toList_whole, Bytes.toList_whole]
    exact List.prefix_append bytes behind
  have hwanted : lang.length (Bytes.whole (bytes ++ behind).toArray) .m0 = bytes.length := by
    rw [length_of_isPrefixOf hpre (by omega), hlength]
  obtain ⟨s, hs, hi, -, hoffset, hrest, hmode⟩ :=
    Cursor.exists_step_of_append (c := .start offset (Bytes.whole (bytes ++ behind).toArray)) hpos
      hwanted (Bytes.toList_whole _)
  refine ⟨s, hs, hi, hoffset, hrest, hmode.trans ?_⟩
  cases lang with
  | re1Event => exact absurd rfl hlang
  | re1Scd | re2 | re3 => rfl

/-- Outside of events there is nothing inside an instruction. -/
theorem outline_inner_eq_done (hlang : lang ≠ .re1Event) (s : Step) :
    (s.inner lang).1.outline (s.inner lang).2 = .done s.next.offset [] := by
  have hnone : lang.fragment? s.instruction = none := by
    cases lang with
    | re1Event => exact absurd rfl hlang
    | re1Scd | re2 | re3 => rfl
  rw [Step.inner, hnone]
  exact outline_of_size_eq_zero (by simp [Cursor.body])

/-- The body behind an instruction, and what comes after the body. -/
theorem outline_of_opened {s : Step} {kind? : Option BodyKind} {body behind : List UInt8}
    (hopened : s.opened lang = (kind?, body.length)) (hmode : s.next.mode = .m0)
    (hrest : s.next.rest.toList = body ++ behind) :
    lang.outline (s.body lang) = lang.outlineOf s.next.offset body ∧
      lang.outline (s.after lang) = lang.outlineOf (s.next.offset + body.length) behind := by
  have hle : body.length ≤ s.next.rest.size := by
    rw [← Subarray.length_toList, hrest, List.length_append]
    exact Nat.le_add_right _ _
  constructor
  · rw [outline_eq_outlineOf (s.body lang) rfl, Step.body, hopened, Cursor.body,
      Subarray.toList_take, hrest, List.take_left]
  · rw [outline_eq_outlineOf (s.after lang) hmode, Step.after, hopened, Cursor.skip,
      Subarray.toList_drop, hrest, List.drop_left, Nat.min_eq_left hle]

/-- **A plain instruction is read back**, whatever is behind it. -/
theorem outlineOf_plain (hlang : lang ≠ .re1Event) {bytes : List UInt8} (h : lang.Plain bytes)
    (offset : Nat) (behind : List UInt8) :
    lang.outlineOf offset (bytes ++ behind) =
      .step lang { offset, bytes := bytes.toArray } (.done (offset + bytes.length) []) none
        (.done (offset + bytes.length) []) (lang.outlineOf (offset + bytes.length) behind) := by
  obtain ⟨s, hs, hi, hoffset, hrest, hmode⟩ :=
    exists_step_append hlang offset behind (List.length_pos_iff.2 h.1) h.2.1
  have hopened : s.opened lang = (none, ([] : List UInt8).length) := by
    rw [Step.opened, h.body? (by rw [hi])]
    rfl
  obtain ⟨hbody, hafter⟩ := outline_of_opened hopened hmode hrest
  rw [outlineOf, outline_eq_of_some hs, outline_inner_eq_done hlang, hbody, hafter, hopened, hi,
    hoffset, outlineOf_nil]
  rfl

/-- **An opener is read back, and so is its body**, whatever is behind them, as long as an `if` is
closed or has its `else`. -/
theorem outlineOf_header (hlang : lang ≠ .re1Event) {opener : Opener} {filler : Filler}
    {body behind : List UInt8} (hwrites : lang.Writes opener filler body.length)
    (hcloses : lang.Closes opener behind) (offset : Nat) :
    lang.outlineOf offset (lang.header opener filler body.length ++ (body ++ behind)) =
      let header := lang.header opener filler body.length
      .step lang { offset, bytes := header.toArray } (.done (offset + header.length) [])
        (some opener.kind) (lang.outlineOf (offset + header.length) body)
        (lang.outlineOf (offset + header.length + body.length) behind) := by
  obtain ⟨hpos, hlength⟩ := length_header hwrites .m0
  obtain ⟨s, hs, hi, hoffset, hrest, hmode⟩ :=
    exists_step_append hlang offset (body ++ behind) hpos hlength
  have hopened : s.opened lang = (some opener.kind, body.length) := by
    rw [Step.opened, body?_header hwrites hcloses (by rw [hi]) hrest]
  obtain ⟨hbody, hafter⟩ := outline_of_opened hopened hmode hrest
  rw [outlineOf, outline_eq_of_some hs, outline_inner_eq_done hlang, hbody, hafter, hopened, hi,
    hoffset]

end Language

/-- An instruction that has all its bytes was not cut short. -/
theorem Visit.truncation?_eq_none {lang : Language} {offset depth : Nat} {bytes : List UInt8}
    (h : lang.length (Bytes.whole bytes.toArray) .m0 = bytes.length) :
    Visit.truncation? ⟨lang, { offset, bytes := bytes.toArray }, depth⟩ = none := by
  refine if_neg (Nat.not_lt.2 ?_)
  exact Nat.le_of_eq h

/-! ## What there is to read in a structured script -/

namespace ScriptTree

variable (lang : Language)

/-- What is said about an opener and its body. -/
def around (opener : Opener) (i : Instruction) (depth : Nat) (body : Trace) : Trace :=
  .visit ⟨lang, i, depth⟩ true :: .enter i opener.kind depth true
    :: (body ++ [.leave i opener.kind depth true])

/-- What is said about a structured script that starts at `offset`, if everything is entered: each
instruction, in order, and each body, before and behind it. -/
def callbacks : ScriptTree → (offset depth : Nat) → Trace
  | nil, _, _ => []
  | plain bytes rest, offset, depth =>
    .visit ⟨lang, { offset, bytes := bytes.toArray }, depth⟩ true
      :: rest.callbacks (offset + bytes.length) depth
  | block opener filler body rest, offset, depth =>
    let header := lang.header opener filler (body.assemble lang).length
    let bodyAt := offset + header.length
    around lang opener { offset, bytes := header.toArray } depth (body.callbacks bodyAt (depth + 1))
      ++ rest.callbacks (bodyAt + (body.assemble lang).length) depth
  | ifElse filler thenBody filler' elseBody rest, offset, depth =>
    let header := lang.header .ifWithElse filler (thenBody.assemble lang).length
    let thenAt := offset + header.length
    let header' := lang.header .elseBranch filler' (elseBody.assemble lang).length
    let elseHeaderAt := thenAt + (thenBody.assemble lang).length
    let elseAt := elseHeaderAt + header'.length
    around lang .ifWithElse { offset, bytes := header.toArray } depth
        (thenBody.callbacks thenAt (depth + 1))
      ++ (around lang .elseBranch { offset := elseHeaderAt, bytes := header'.toArray } depth
          (elseBody.callbacks elseAt (depth + 1))
        ++ rest.callbacks (elseAt + (elseBody.assemble lang).length) depth)

/-- The outline of an opener and its body, in front of the outline `next`. -/
def stepOf (opener : Opener) (header : List UInt8) (offset : Nat) (body next : Outline) : Outline :=
  .step lang { offset, bytes := header.toArray } (.done (offset + header.length) [])
    (some opener.kind) body next

/-- The outline of a structured script that starts at `offset`, in front of the outline `tail`. -/
def outline : ScriptTree → (offset : Nat) → (tail : Outline) → Outline
  | nil, _, tail => tail
  | plain bytes rest, offset, tail =>
    .step lang { offset, bytes := bytes.toArray } (.done (offset + bytes.length) []) none
      (.done (offset + bytes.length) []) (rest.outline (offset + bytes.length) tail)
  | block opener filler body rest, offset, tail =>
    let header := lang.header opener filler (body.assemble lang).length
    let bodyAt := offset + header.length
    let behind := bodyAt + (body.assemble lang).length
    stepOf lang opener header offset (body.outline bodyAt (.done behind []))
      (rest.outline behind tail)
  | ifElse filler thenBody filler' elseBody rest, offset, tail =>
    let header := lang.header .ifWithElse filler (thenBody.assemble lang).length
    let thenAt := offset + header.length
    let header' := lang.header .elseBranch filler' (elseBody.assemble lang).length
    let elseHeaderAt := thenAt + (thenBody.assemble lang).length
    let elseAt := elseHeaderAt + header'.length
    let behind := elseAt + (elseBody.assemble lang).length
    stepOf lang .ifWithElse header offset (thenBody.outline thenAt (.done elseHeaderAt []))
      (stepOf lang .elseBranch header' elseHeaderAt (elseBody.outline elseAt (.done behind []))
        (rest.outline behind tail))

variable {lang}

/-- What is said about the outline of a structured script is what is said about the script. -/
theorem callbacks_outline (t : ScriptTree) (offset : Nat) (tail : Outline) (depth : Nat) :
    (t.outline lang offset tail).callbacks depth
      = t.callbacks lang offset depth ++ tail.callbacks depth := by
  induction t generalizing offset tail depth with
  | nil => rfl
  | plain bytes rest ih =>
    rw [outline, Outline.callbacks, ih]
    rfl
  | block opener filler body rest ihbody ihrest =>
    simp only [outline, stepOf, Outline.callbacks, Outline.framed, ihbody, ihrest, callbacks,
      around, List.append_nil, List.nil_append, List.cons_append, List.append_assoc]
  | ifElse filler thenBody filler' elseBody rest ihthen ihelse ihrest =>
    simp only [outline, stepOf, Outline.callbacks, Outline.framed, ihthen, ihelse, ihrest,
      callbacks, around, List.append_nil, List.nil_append, List.cons_append, List.append_assoc]

/-- The low byte of the length that an `else` stores is behind the body of its `if`. -/
theorem closes_ifWithElse {filler' : Filler} {n : Nat} (hwrites : lang.Writes .elseBranch filler' n)
    (hlow : lang ≠ .re1Scd → (n + 4) % 0x100 ≠ 0x08) (behind : List UInt8) :
    lang.Closes .ifWithElse (lang.header .elseBranch filler' n ++ behind) := by
  have hne : lang ≠ .re1Scd → UInt8.ofNat (n + 4) ≠ 0x08 := by
    intro hlang heq
    refine hlow hlang ?_
    simpa using congrArg UInt8.toNat heq
  cases lang with
  | re1Scd => trivial
  | re1Event => cases hwrites
  | re2 => exact fun heq ↦ hne (by decide) (Option.some.inj heq)
  | re3 => exact fun heq ↦ hne (by decide) (Option.some.inj heq)

/-- An `if` that is closed stays closed, whatever comes after what closes it. -/
theorem closes_of_closedIf {opener : Opener} {code : List UInt8} (hne : opener ≠ .ifWithElse)
    (hclosed : opener = .closedIf → lang ≠ .re1Scd → code[0]? = some 0x08) (behind : List UInt8) :
    lang.Closes opener (code ++ behind) := by
  have happend : code[0]? = some 0x08 → (code ++ behind)[0]? = some 0x08 := by
    intro h
    obtain ⟨hlt, -⟩ := List.getElem?_eq_some_iff.1 h
    rw [List.getElem?_append_left hlt, h]
  cases opener with
  | ifWithElse => exact absurd rfl hne
  | closedIf =>
    cases lang with
    | re1Scd | re1Event => trivial
    | re2 | re3 => exact happend (hclosed rfl (by decide))
  | _ => cases lang <;> trivial

/-- An opener and a body that is read back are read back together. -/
theorem outlineOf_around (hlang : lang ≠ .re1Event) {body : ScriptTree}
    (ih : ∀ offset behind, lang.outlineOf offset (body.assemble lang ++ behind)
      = body.outline lang offset (lang.outlineOf (offset + (body.assemble lang).length) behind))
    {opener : Opener} {filler : Filler} {behind : List UInt8}
    (hwrites : lang.Writes opener filler (body.assemble lang).length)
    (hcloses : lang.Closes opener behind) (offset : Nat) :
    let header := lang.header opener filler (body.assemble lang).length
    let bodyAt := offset + header.length
    let behindAt := bodyAt + (body.assemble lang).length
    lang.outlineOf offset (header ++ (body.assemble lang ++ behind)) =
      stepOf lang opener header offset (body.outline lang bodyAt (.done behindAt []))
        (lang.outlineOf behindAt behind) := by
  intro header bodyAt behindAt
  have hbody : lang.outlineOf bodyAt (body.assemble lang)
      = body.outline lang bodyAt (.done behindAt []) := by
    have h := ih bodyAt []
    rwa [List.append_nil, Language.outlineOf_nil] at h
  rw [Language.outlineOf_header hlang hwrites hcloses, ← hbody]
  rfl

/-- **The outline of a structured script and of what is written behind it** is the tree, with the
outline of the rest at its end. -/
theorem outlineOf_assemble (hlang : lang ≠ .re1Event) {t : ScriptTree} (h : t.WellFormed lang)
    (offset : Nat) (behind : List UInt8) :
    lang.outlineOf offset (t.assemble lang ++ behind)
      = t.outline lang offset (lang.outlineOf (offset + (t.assemble lang).length) behind) := by
  induction t generalizing offset behind with
  | nil => rfl
  | plain bytes rest ih =>
    obtain ⟨hplain, hrest⟩ := h
    rw [assemble, List.append_assoc, Language.outlineOf_plain hlang hplain, ih hrest,
      List.length_append, ← Nat.add_assoc]
    rfl
  | block opener filler body rest ihbody ihrest =>
    obtain ⟨hne, -, hwrites, hclosed, hbody, hrest⟩ := h
    have hcloses := closes_of_closedIf hne hclosed behind
    rw [assemble, List.append_assoc, List.append_assoc,
      outlineOf_around hlang (ihbody hbody) hwrites hcloses, ihrest hrest]
    simp only [outline, List.length_append, Nat.add_assoc]
  | ifElse filler thenBody filler' elseBody rest ihthen ihelse ihrest =>
    obtain ⟨hwrites, hwrites', hlow, hthen, helse, hrest⟩ := h
    have hclosesThen := closes_ifWithElse hwrites' hlow
      (elseBody.assemble lang ++ (rest.assemble lang ++ behind))
    have hclosesElse : lang.Closes .elseBranch (rest.assemble lang ++ behind) :=
      closes_of_closedIf (by decide : Opener.elseBranch ≠ .ifWithElse) nofun behind
    simp only [assemble, List.append_assoc]
    rw [outlineOf_around hlang (ihthen hthen) hwrites hclosesThen,
      outlineOf_around hlang (ihelse helse) hwrites' hclosesElse, ihrest hrest]
    simp only [outline, List.length_append, Nat.add_assoc]

theorem truncations_around {opener : Opener} {filler : Filler} {n : Nat}
    (hwrites : lang.Writes opener filler n) (offset depth : Nat) (body : Trace) :
    Trace.truncations (around lang opener
        { offset, bytes := (lang.header opener filler n).toArray } depth body)
      = Trace.truncations body := by
  rw [around, Trace.truncations_visit,
    Visit.truncation?_eq_none (Language.length_header hwrites .m0).2]
  simp [Trace.truncations, Trace.visits]

/-- No instruction of a structured script is cut short. -/
theorem truncations_callbacks {t : ScriptTree} (h : t.WellFormed lang) (offset depth : Nat) :
    Trace.truncations (t.callbacks lang offset depth) = [] := by
  induction t generalizing offset depth with
  | nil => rfl
  | plain bytes rest ih =>
    obtain ⟨hplain, hrest⟩ := h
    rw [callbacks, Trace.truncations_visit, ih hrest, Visit.truncation?_eq_none hplain.2.1]
    rfl
  | block opener filler body rest ihbody ihrest =>
    obtain ⟨-, -, hwrites, -, hbody, hrest⟩ := h
    rw [callbacks, Trace.truncations_append, truncations_around hwrites, ihbody hbody, ihrest hrest]
    rfl
  | ifElse filler thenBody filler' elseBody rest ihthen ihelse ihrest =>
    obtain ⟨hwrites, hwrites', -, hthen, helse, hrest⟩ := h
    rw [callbacks, Trace.truncations_append, Trace.truncations_append, truncations_around hwrites,
      truncations_around hwrites', ihthen hthen, ihelse helse, ihrest hrest]
    rfl

end ScriptTree

/-! ## Round trip -/

namespace Observer

variable {σ : Type} {o : Observer σ}

/-- **A structured script is read back.**  An observer that goes through everything hears what there
is to say about the tree, and then what it would hear of the code behind it, had it been started
there.  The account of the walk is that of the tree, without any problems, and that of the code
behind it. -/
theorem walk_assemble (ho : o.Thorough) {lang : Language} (hlang : lang ≠ .re1Event)
    {t : ScriptTree} (ht : t.WellFormed lang) (origin : Nat) (behind : List UInt8) {limit : Nat}
    (hlimit : (t.assemble lang).length + behind.length ≤ limit) (x : σ) :
    let code := Bytes.whole (t.assemble lang ++ behind).toArray
    let own := t.callbacks lang origin 0
    let origin' := origin + (t.assemble lang).length
    let code' := Bytes.whole behind.toArray
    let x' := o.replay own x
    o.trace limit lang origin code x = own ++ o.trace limit lang origin' code' x' ∧
      (o.walk limit lang origin code x).1 = (o.walk limit lang origin' code' x').1 ∧
        (o.walk limit lang origin code x).2
          = ⟨own.visits.length, #[]⟩ ++ (o.walk limit lang origin' code' x').2 := by
  intro code own origin' code' x'
  have hcode : code.size ≤ limit := by
    rw [← Subarray.length_toList, Bytes.toList_whole, List.toList_toArray, List.length_append]
    exact hlimit
  have hcode' : code'.size ≤ limit := by
    rw [← Subarray.length_toList, Bytes.toList_whole, List.toList_toArray]
    omega
  have hcallbacks : (lang.outline (.start origin code)).callbacks 0
      = own ++ (lang.outline (.start origin' code')).callbacks 0 := by
    rw [← ScriptTree.callbacks_outline, ← Language.outlineOf, ← Language.outlineOf,
      ScriptTree.outlineOf_assemble hlang ht]
  rw [ho.trace_eq_callbacks lang origin hcode, ho.trace_eq_callbacks lang origin' hcode',
    ho.walk_eq_callbacks lang origin hcode, ho.walk_eq_callbacks lang origin' hcode', hcallbacks]
  refine ⟨rfl, o.replay_append _ _ _, ?_⟩
  rw [Trace.visits_append, Trace.truncations_append, ScriptTree.truncations_callbacks ht,
    List.length_append, List.nil_append]
  exact congrArg (Report.mk _) Array.empty_append.symm

/-- A conditional with a loop in its second branch, a closing instruction, and a byte behind it. -/
theorem walk_assemble_ifElse :
    let t : ScriptTree := .ifElse {} (.plain [0x00] .nil) {}
      (.block .forLoop { extra := [0x00, 0x00] } (.plain [0x00] (.plain [0x01, 0x00] .nil)) .nil)
      (.plain [0x08, 0x00] .nil)
    let code := Bytes.whole (t.assemble .re2 ++ [0x00]).toArray
    let own := t.callbacks .re2 0x40 0
    let code' := Bytes.whole #[0x00]
    let x' := counting.replay own 0
    counting.Thorough ∧ t.WellFormed .re2 ∧ (t.assemble .re2).length + 1 ≤ 21 ∧
      own.visits.map (fun v ↦ (v.offset, v.depth))
        = [(0x40, 0), (0x44, 1), (0x45, 0), (0x49, 1), (0x4f, 2), (0x50, 2), (0x52, 0)] ∧
      counting.trace 21 .re2 0x40 code 0 = own ++ counting.trace 21 .re2 0x54 code' x' ∧
        (counting.walk 21 .re2 0x40 code 0).1 = (counting.walk 21 .re2 0x54 code' x').1 ∧
          (counting.walk 21 .re2 0x40 code 0).2
            = ⟨own.visits.length, #[]⟩ ++ (counting.walk 21 .re2 0x54 code' x').2 := by
  intro t code own code' x'
  have ht : t.WellFormed .re2 := by decide +kernel
  have hlimit : (t.assemble .re2).length + [(0x00 : UInt8)].length ≤ 21 := by decide +kernel
  exact ⟨thorough_counting, ht, hlimit, by decide +kernel,
    walk_assemble thorough_counting (by decide) ht 0x40 [0x00] hlimit 0⟩

end Observer
end RoomScript
