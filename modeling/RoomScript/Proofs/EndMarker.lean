import Mathlib.Data.List.Nodup
import RoomScript.Proofs.RoundTrip

/-!
# An `else` that is cut in two

In the later generations, an `if` that has an `else` stores a length that takes the header of the
`else` in, and an `if` that is closed stores one that leaves what closes it out.  A walk tells them
apart by a single byte, two places before the stored end.  If the `if` has an `else`, that byte is
the low byte of the length that the `else` stores, and that length is the `else`'s own affair.

So there are two scripts with the same bytes whenever this low byte is the opcode of what closes an
`if`: an `if` with an `else`, and an `if` that is closed, whose body has the first two bytes of the
`else` at its end (`exists_ifElse_eq_of_masked`).  A walk reads the second one.  It comes to half an
`else`, inside the body, and goes on with the other half.

`mem_visits_else_iff` says that this is the only thing that goes wrong.  The `else` is read whole
and outside of the body if its low byte is another one, whatever the two bodies and the code behind
them are; and it is read in half and inside of the body if not.
-/

set_option autoImplicit false

namespace RoomScript

/-! ## The bytes of an `if` with an `else` -/

namespace Language

variable {lang : Language} {filler filler' : Filler}

/-- An `if` with an `else`, and the bytes that are behind them. -/
def ifElse (lang : Language) (filler : Filler) (thenBody : List UInt8) (filler' : Filler)
    (elseBody behind : List UInt8) : List UInt8 :=
  lang.header .ifWithElse filler thenBody.length
    ++ (thenBody ++ (lang.header .elseBranch filler' elseBody.length ++ (elseBody ++ behind)))

/-- Whether the low byte of the length that an `else` stores is the opcode of what closes an
`if`. -/
def Masked (elseBody : List UInt8) : Prop := (elseBody.length + 4) % 0x100 = 0x08

instance (elseBody : List UInt8) : Decidable (Masked elseBody) :=
  inferInstanceAs (Decidable (_ = _))

/-- The first two bytes of an `else`. -/
def halfElse (filler : Filler) : List UInt8 := [0x07, filler.second]

section

variable (hlang : lang = .re2 ∨ lang = .re3)
include hlang

/-- An `else` is its opcode, a byte, and the length that is stored. -/
theorem header_elseBranch {n : Nat} (h : lang.Writes .elseBranch filler n) :
    lang.header .elseBranch filler n
      = halfElse filler ++ [UInt8.ofNat (n + 4), UInt8.ofNat ((n + 4) / 256)] := by
  have hextra : filler.extra = [] := by
    rcases hlang with rfl | rfl <;> exact List.eq_nil_of_length_eq_zero h.1
  rcases hlang with rfl | rfl <;>
    simp [header, form?, Form.header, Bytes.littleEndian, halfElse, hextra]

/-- An `if` with an `else` begins like a closed `if` with a body that is longer by two bytes. -/
theorem header_ifWithElse (filler : Filler) (n : Nat) :
    lang.header .ifWithElse filler n = lang.header .closedIf filler (n + 2) := by
  rcases hlang with rfl | rfl <;> rfl

/-- **Two readings.**  A masked `else` makes its `if` look like one that is closed. -/
theorem exists_ifElse_eq_of_masked {thenBody elseBody : List UInt8}
    (hif : lang.Writes .ifWithElse filler thenBody.length)
    (helse : lang.Writes .elseBranch filler' elseBody.length) (hmasked : Masked elseBody)
    (behind : List UInt8) :
    let body := thenBody ++ halfElse filler'
    lang.Writes .closedIf filler body.length ∧
      ∃ rest, lang.Closes .closedIf rest ∧
        lang.ifElse filler thenBody filler' elseBody behind
          = lang.header .closedIf filler body.length ++ (body ++ rest) := by
  intro body
  have hlength : body.length = thenBody.length + 2 := List.length_append
  have hlow : UInt8.ofNat (elseBody.length + 4) = 0x08 := by
    rw [← UInt8.toNat_inj]
    exact hmasked
  refine ⟨?_, 0x08 :: UInt8.ofNat ((elseBody.length + 4) / 256) :: (elseBody ++ behind), ?_, ?_⟩
  · rw [hlength]
    rcases hlang with rfl | rfl <;> exact hif
  · rcases hlang with rfl | rfl <;> rfl
  · rw [ifElse, header_ifWithElse hlang, header_elseBranch hlang helse, hlow, hlength]
    simp only [body, List.append_assoc, List.cons_append, List.nil_append]

end

/-- An opener is the first thing to read where its opcode is, and it is cut short where the bytes
run out. -/
theorem mem_visits_outlineOf {opener : Opener} {n : Nat} (hwrites : lang.Writes opener filler n)
    {code : List UInt8} (hcode : code[0]? = (lang.header opener filler n)[0]?)
    (offset depth : Nat) :
    ⟨lang, { offset, bytes := (code.take (lang.header opener filler n).length).toArray }, depth⟩
      ∈ (lang.outlineOf offset code).visits depth := by
  obtain ⟨f, hf, heq, hextra, -⟩ := hwrites.exists_form
  have hopcode : (Bytes.whole code.toArray)[0]? = some f.opcode := by
    rw [Stretch.getElem?_eq, Bytes.toList_whole, ← head?_formHeader f filler n, ← heq]
    exact hcode
  have hlength : lang.length (Bytes.whole code.toArray) .m0
      = (lang.header opener filler n).length := by
    rw [length_of_form hf hopcode, heq, length_formHeader hextra]
  obtain ⟨s, hs⟩ : ∃ s, (Cursor.start offset (Bytes.whole code.toArray)).step? lang = some s :=
    ⟨_, if_neg (hlength ▸ Nat.ne_of_gt (length_header hwrites .m0).1)⟩
  obtain ⟨-, hwanted, hi, -⟩ := Cursor.step?_eq_some hs
  have hbytes (count : Nat) : Stretch.bytes ((Bytes.whole code.toArray).take count)
      = (code.take count).toArray := by
    rw [← Array.toList_inj, Stretch.toList_bytes, Subarray.toList_take, Bytes.toList_whole]
  have hinstruction : s.instruction
      = { offset, bytes := (code.take (lang.header opener filler n).length).toArray } := by
    rw [hi, hwanted]
    simp only [Cursor.start, hlength, hbytes]
  rw [outlineOf, outline_eq_of_some hs, ← hinstruction]
  exact List.mem_cons_self

end Language

/-- What is behind a structured script is read behind it. -/
theorem ScriptTree.mem_visits_outline {lang : Language} (t : ScriptTree) {offset depth : Nat}
    {tail : Outline} {v : Visit} (hv : v ∈ tail.visits depth) :
    v ∈ (t.outline lang offset tail).visits depth := by
  induction t generalizing offset with
  | nil => exact hv
  | plain bytes rest ih => simp [outline, Outline.visits, ih]
  | block opener filler body rest _ ihrest => simp [outline, stepOf, Outline.visits, ihrest]
  | ifElse filler thenBody filler' elseBody rest _ _ ihrest =>
    simp [outline, stepOf, Outline.visits, ihrest]

/-- No two instructions of a walk have the same offset. -/
theorem Decodes.eq_of_offset_eq {lang : Language} {mode : Mode} {offset depth : Nat}
    {code : List UInt8} {O : Outline} (h : Decodes lang mode offset code O) {v w : Visit}
    (hv : v ∈ O.visits depth) (hw : w ∈ O.visits depth) (heq : v.offset = w.offset) : v = w := by
  have hnodup : ((O.visits depth).map Visit.offset).Nodup :=
    List.pairwise_map.2 ((h.pairwise_offset depth).imp Nat.ne_of_lt)
  exact List.inj_on_of_nodup_map hnodup hv hw heq

/-! ## Where an `if` ends that has an `else` -/

namespace Language

variable {lang : Language} {filler filler' : Filler} {thenBody : ScriptTree}
  {elseBody : List UInt8}

section

variable (hlang : lang = .re2 ∨ lang = .re3)
  (hif : lang.Writes .ifWithElse filler (thenBody.assemble lang).length)
  (helse : lang.Writes .elseBranch filler' elseBody.length) (origin : Nat) (behind : List UInt8)
include hlang hif helse

/-- An `else` that is not masked is read whole, behind its `if`. -/
theorem mem_visits_of_not_masked (hmasked : ¬ Masked elseBody) :
    let thenBytes := thenBody.assemble lang
    let code := lang.ifElse filler thenBytes filler' elseBody behind
    let header := lang.header .ifWithElse filler thenBytes.length
    let elseAt := origin + header.length + thenBytes.length
    let whole := lang.header .elseBranch filler' elseBody.length
    lang.body? { offset := origin, bytes := header.toArray }
        (Bytes.whole (code.drop header.length).toArray) = some ⟨.thenBody, thenBytes.length⟩ ∧
      ⟨lang, { offset := elseAt, bytes := whole.toArray }, 0⟩
        ∈ (lang.outlineOf origin code).visits 0 := by
  intro thenBytes code header elseAt whole
  have hevent : lang ≠ .re1Event := by rcases hlang with rfl | rfl <;> decide
  have hcloses : lang.Closes .ifWithElse (whole ++ (elseBody ++ behind)) :=
    ScriptTree.closes_ifWithElse helse (fun _ ↦ hmasked) (elseBody ++ behind)
  have hdrop : code.drop header.length = thenBytes ++ (whole ++ (elseBody ++ behind)) :=
    List.drop_left
  refine ⟨body?_header hif hcloses rfl (by rw [hdrop, Bytes.toList_whole]), ?_⟩
  rw [show code = header ++ (thenBytes ++ (whole ++ (elseBody ++ behind))) from rfl,
    outlineOf_header hevent hif hcloses]
  refine List.mem_cons_of_mem _ (List.mem_append_right _ (List.mem_append_right _ ?_))
  have hopcode : (whole ++ (elseBody ++ behind))[0]? = whole[0]? :=
    List.getElem?_append_left (length_header helse .m0).1
  have hread := mem_visits_outlineOf helse hopcode elseAt 0
  rwa [List.take_left] at hread

/-- A masked `else` is read in half, at the end of the body of its `if`. -/
theorem mem_visits_of_masked (hthen : thenBody.WellFormed lang) (hmasked : Masked elseBody) :
    let thenBytes := thenBody.assemble lang
    let code := lang.ifElse filler thenBytes filler' elseBody behind
    let header := lang.header .ifWithElse filler thenBytes.length
    let elseAt := origin + header.length + thenBytes.length
    lang.body? { offset := origin, bytes := header.toArray }
        (Bytes.whole (code.drop header.length).toArray) = some ⟨.thenBody, thenBytes.length + 2⟩ ∧
      ⟨lang, { offset := elseAt, bytes := (halfElse filler').toArray }, 1⟩
        ∈ (lang.outlineOf origin code).visits 0 := by
  intro thenBytes code header elseAt
  have hevent : lang ≠ .re1Event := by rcases hlang with rfl | rfl <;> decide
  obtain ⟨hwrites, rest, hcloses, hcode⟩ :=
    exists_ifElse_eq_of_masked hlang hif helse hmasked behind
  have hheader : header = lang.header .closedIf filler (thenBytes ++ halfElse filler').length := by
    rw [List.length_append]
    exact header_ifWithElse hlang filler thenBytes.length
  rw [← hheader] at hcode
  have hdrop : code.drop header.length = thenBytes ++ halfElse filler' ++ rest := by
    rw [show code = _ from hcode]
    exact List.drop_left
  refine ⟨?_, ?_⟩
  · rw [body?_header hwrites hcloses hheader (by rw [hdrop, Bytes.toList_whole])]
    rw [List.length_append]
    rfl
  · rw [show code = _ from hcode, hheader, outlineOf_header hevent hwrites hcloses]
    refine List.mem_cons_of_mem _ (List.mem_append_right _ (List.mem_append_left _ ?_))
    rw [ScriptTree.outlineOf_assemble hevent hthen, ← hheader]
    apply ScriptTree.mem_visits_outline
    -- there are but two bytes to read an `else` of four from
    have hhalf : halfElse filler' <+: lang.header .elseBranch filler' elseBody.length :=
      ⟨_, (header_elseBranch hlang helse).symm⟩
    have hopcode :
        (halfElse filler')[0]? = (lang.header .elseBranch filler' elseBody.length)[0]? := by
      rw [header_elseBranch hlang helse]
      rfl
    have hread := mem_visits_outlineOf helse hopcode elseAt 1
    rwa [List.take_of_length_le hhalf.length_le] at hread

end

end Language

namespace Observer

variable {σ : Type} {o : Observer σ}

/-- **Where an `if` ends that has an `else`.**  Its body is what was put there, and the `else` is
read whole and at the depth of the `if`, if and only if the `else` is not masked.  Otherwise half of
the `else` belongs to the body, and is read there. -/
theorem mem_visits_else_iff (ho : o.Thorough) {lang : Language} (hlang : lang = .re2 ∨ lang = .re3)
    {filler filler' : Filler} {thenBody : ScriptTree} (hthen : thenBody.WellFormed lang)
    {elseBody : List UInt8} (hif : lang.Writes .ifWithElse filler (thenBody.assemble lang).length)
    (helse : lang.Writes .elseBranch filler' elseBody.length) (origin : Nat) (behind : List UInt8)
    {limit : Nat}
    (hlimit : (lang.ifElse filler (thenBody.assemble lang) filler' elseBody behind).length ≤ limit)
    (x : σ) :
    let thenBytes := thenBody.assemble lang
    let code := lang.ifElse filler thenBytes filler' elseBody behind
    let visits := (o.trace limit lang origin (Bytes.whole code.toArray) x).visits
    let header := lang.header .ifWithElse filler thenBytes.length
    let elseAt := origin + header.length + thenBytes.length
    let whole := (lang.header .elseBranch filler' elseBody.length).toArray
    let half := (Language.halfElse filler').toArray
    lang.body? { offset := origin, bytes := header.toArray }
        (Bytes.whole (code.drop header.length).toArray)
          = some ⟨.thenBody, thenBytes.length + if Language.Masked elseBody then 2 else 0⟩ ∧
      (⟨lang, { offset := elseAt, bytes := whole }, 0⟩ ∈ visits ↔ ¬ Language.Masked elseBody) ∧
        (⟨lang, { offset := elseAt, bytes := half }, 1⟩ ∈ visits ↔ Language.Masked elseBody) := by
  intro thenBytes code visits header elseAt whole half
  have hvisits : visits = (lang.outlineOf origin code).visits 0 := by
    have hsize : (Bytes.whole code.toArray).size ≤ limit := by
      rw [← Subarray.length_toList, Bytes.toList_whole]
      exact hlimit
    rw [Language.outlineOf, ← Outline.visits_callbacks,
      ← ho.trace_eq_callbacks lang origin hsize x]
  -- both readings are at the same offset, so it is never both
  have hnotBoth : ⟨lang, { offset := elseAt, bytes := whole }, 0⟩ ∈ visits →
      ⟨lang, { offset := elseAt, bytes := half }, 1⟩ ∈ visits → False := by
    intro hwhole hhalf
    rw [hvisits] at hwhole hhalf
    have hdecodes := decodes_outline lang (.start origin (Bytes.whole code.toArray))
    have heq := hdecodes.eq_of_offset_eq hwhole hhalf rfl
    exact Nat.zero_ne_one (congrArg Visit.depth heq)
  by_cases hmasked : Language.Masked elseBody
  · obtain ⟨hbody, hhalf⟩ :=
      Language.mem_visits_of_masked hlang hif helse origin behind hthen hmasked
    rw [← hvisits] at hhalf
    rw [if_pos hmasked]
    exact ⟨hbody, iff_of_false (fun hwhole ↦ hnotBoth hwhole hhalf) (not_not_intro hmasked),
      iff_of_true hhalf hmasked⟩
  · obtain ⟨hbody, hwhole⟩ :=
      Language.mem_visits_of_not_masked hlang hif helse origin behind hmasked
    rw [← hvisits] at hwhole
    rw [if_neg hmasked]
    exact ⟨hbody, iff_of_true hwhole hmasked, iff_of_false (hnotBoth hwhole) hmasked⟩

/-- An `else` that stores a length of seven. -/
theorem mem_visits_else_iff_re3 :
    let thenBody : ScriptTree := .plain [0x00] (.plain [0x00] .nil)
    let elseBody : List UInt8 := [0x00, 0x00, 0x00]
    let code := Language.re3.ifElse {} (thenBody.assemble .re3) {} elseBody [0x08, 0x00, 0x01]
    let visits := (counting.trace 64 .re3 0x40 (Bytes.whole code.toArray) 0).visits
    counting.Thorough ∧ (Language.re3 = .re2 ∨ Language.re3 = .re3) ∧ thenBody.WellFormed .re3 ∧
      Language.re3.Writes .ifWithElse {} 2 ∧ Language.re3.Writes .elseBranch {} 3 ∧
        code.length ≤ 64 ∧ ¬ Language.Masked elseBody ∧
          (⟨.re3, { offset := 0x46, bytes := #[0x07, 0x00, 0x07, 0x00] }, 0⟩ ∈ visits ↔
            ¬ Language.Masked elseBody) := by
  intro thenBody elseBody code visits
  have hthen : thenBody.WellFormed .re3 := by decide +kernel
  have hif : Language.re3.Writes .ifWithElse {} (thenBody.assemble .re3).length := by decide +kernel
  have helse : Language.re3.Writes .elseBranch {} elseBody.length := by decide +kernel
  have hlimit : code.length ≤ 64 := by decide +kernel
  have hwhole : (Language.re3.header .elseBranch {} elseBody.length).toArray
      = #[0x07, 0x00, 0x07, 0x00] := by decide +kernel
  have helseAt : 0x40 + (Language.re3.header .ifWithElse {} (thenBody.assemble .re3).length).length
      + (thenBody.assemble .re3).length = 0x46 := by decide +kernel
  obtain ⟨-, hiff, -⟩ :=
    mem_visits_else_iff thorough_counting (.inr rfl) hthen hif helse 0x40 _ hlimit 0
  rw [hwhole, helseAt] at hiff
  exact ⟨thorough_counting, .inr rfl, hthen, hif, helse, hlimit, by decide, hiff⟩

/-- An `if` without a first branch and with four instructions in the second one: it is given a body
of two bytes, and the `else` is not read. -/
theorem else_not_mem_visits_of_masked :
    let elseBody : List UInt8 := [0x00, 0x00, 0x00, 0x00]
    let code := Language.re2.ifElse {} [] {} elseBody [0x08, 0x00]
    let visits := (counting.trace 65536 .re2 0 (Bytes.whole code.toArray) 0).visits
    code = [0x06, 0x00, 0x04, 0x00, 0x07, 0x00, 0x08, 0x00, 0x00, 0x00, 0x00, 0x00, 0x08, 0x00] ∧
      Language.re2.Plain [0x00] ∧ Language.re2.Writes .ifWithElse {} 0 ∧
        Language.re2.Writes .elseBranch {} elseBody.length ∧
          Language.re2.body? { bytes := #[0x06, 0x00, 0x04, 0x00] }
              (Bytes.whole (code.drop 4).toArray) ≠ some ⟨.thenBody, 0⟩ ∧
            ⟨.re2, { offset := 4, bytes := #[0x07, 0x00, 0x08, 0x00] }, 0⟩ ∉ visits := by
  decide +kernel

end Observer
end RoomScript
