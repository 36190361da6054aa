import RoomScript.Proofs.Selection

/-!
# Walks are no longer than their code

Nothing that a script states about itself can make its walk long.  Every instruction takes a byte of
its own, and so does everything that is around it: a body comes behind the instruction that opens
it, and a fragment behind the header of the instruction that carries it.  So a walk comes to no more
instructions than there are bytes, and an instruction that is `d` levels deep has at least `d` bytes
in front of it (`Decodes.depth_le_offset`).

The bytes of a fragment are read twice, once as a part of the instruction that carries them and once
as a script of their own.  The two bytes of the header pay for that: they belong to one instruction
only (`Decodes.length_visits_le`).

A ceiling as high as the code is long is therefore never reached, and a higher one changes nothing
(`Observer.walk_le_size`).
-/

set_option autoImplicit false

namespace RoomScript

/-! ## How deep an instruction can be -/

/-- **Whatever is around an instruction begins in front of it**, one byte for each level at
least. -/
theorem Decodes.depth_le_offset {lang : Language} {mode : Mode} {offset depth : Nat}
    {code : List UInt8} {O : Outline} (h : Decodes lang mode offset code O) {v : Visit}
    (hv : v ∈ O.visits depth) : offset + v.depth ≤ v.offset + depth := by
  induction h generalizing depth with
  | done => cases hv
  | @step _ _ _ _ offset i inner _ _ _ header fragment _ bodyCode _ hoffset _ hpos _ hfragment _ _
      hinner _ _ ihinner ihbody ihnext =>
    simp only [Outline.visits, List.mem_cons, List.mem_append] at hv
    rcases hv with rfl | hv | hv | hv
    · exact Nat.le_of_eq (congrArg (· + depth) hoffset.symm)
    · -- there is something inside, so that there is a header in front of it
      have hne : fragment ≠ [] := by
        intro hnil
        rw [hinner.eq_done hnil] at hv
        cases hv
      have hheader := (hfragment hne).2.2
      have hle := ihinner hv
      omega
    · have hle := ihbody hv
      omega
    · have hle := ihnext hv
      omega

/-! ## How long a walk can be -/

/-- A walk that comes to no more instructions than its ceiling allows reports no ceiling. -/
theorem Trace.instructionLimit_notMem {limit : Nat} {t : Trace} (h : t.visits.length ≤ limit)
    (n : Nat) : .instructionLimit n ∉ (t.report limit).problems := by
  intro hmem
  rw [report_of_length_le h, List.mem_toArray] at hmem
  exact ne_instructionLimit_of_mem_truncations hmem n rfl

namespace Observer

variable {σ : Type}

/-- **A walk is bounded by its code**, whatever the code is and whatever its observer does.  It
counts the instructions that the observer saw, and these are no more than the ceiling allows and no
more than there are bytes.  An instruction that is `d` levels deep has `d` bytes of the code in
front of it, so no instruction is as deep as the code is long.

If the ceiling is as high as the code is long, then it is not reported, and every other ceiling of
that kind gives the same walk. -/
theorem walk_le_size (o : Observer σ) (limit : Nat) (lang : Language) (origin : Nat)
    (code : Stretch) (x : σ) :
    let V := (o.trace limit lang origin code x).visits
    let report := (o.walk limit lang origin code x).2
    report.instructions = V.length ∧ report.instructions ≤ min limit code.size ∧
      (∀ v ∈ V, origin + v.depth ≤ v.offset ∧ v.depth < code.size) ∧
        (code.size ≤ limit → (∀ n, .instructionLimit n ∉ report.problems) ∧
          ∀ limit' ≥ code.size,
            o.walk limit' lang origin code x = o.walk limit lang origin code x) := by
  intro V report
  obtain ⟨t, completed, hruns, -, htrace, hwalk⟩ := o.exists_trace lang origin code x
  have hdecodes : Decodes lang .m0 origin code.toList (lang.outline (.start origin code)) :=
    decodes_outline lang (.start origin code)
  have hlength := hruns.length_visits_le
  have hV : V = (t.upTo limit).visits := congrArg Trace.visits (htrace limit)
  have hreport : report = t.report limit := congrArg Prod.snd (hwalk limit)
  refine ⟨?_, ?_, fun v hv ↦ ?_, fun hlimit ↦ ⟨?_, fun limit' hlimit' ↦ ?_⟩⟩
  · rw [hreport, hV, Trace.length_visits_upTo]
    rfl
  · rw [hreport]
    show min limit t.visits.length ≤ min limit code.size
    omega
  · have hmem := mem_visits_of_mem_trace hv
    have hpos := hdecodes.length_pos_of_mem hmem
    have hle : origin + v.depth ≤ v.offset := hdecodes.depth_le_offset hmem
    have hstop := hdecodes.stop_le_of_mem hmem
    rw [Subarray.length_toList, Visit.stop] at hstop
    exact ⟨hle, by omega⟩
  · rw [hreport]
    exact Trace.instructionLimit_notMem (Nat.le_trans hlength hlimit)
  · -- neither ceiling cuts anything off
    have hle := Nat.le_trans hlength hlimit
    have hle' := Nat.le_trans hlength hlimit'
    rw [hwalk, hwalk, Trace.upTo_eq_self hle, Trace.upTo_eq_self hle',
      Trace.report_of_length_le hle, Trace.report_of_length_le hle']

/-- An event of eight bytes that carries a conditional.  It is read three levels deep, and the six
bytes of the fragment are read twice. -/
theorem walk_le_size_fragment :
    let code := Bytes.whole #[0x06, 0x07, 0x01, 0x04, 0x01, 0x02, 0x00, 0x00]
    let V := (counting.trace 8 .re1Event 0x20 code 0).visits
    let report := (counting.walk 8 .re1Event 0x20 code 0).2
    V.map (·.depth) = [0, 1, 2, 1] ∧ V.map (·.offset) = [0x20, 0x22, 0x24, 0x26] ∧
      report.instructions = V.length ∧ report.instructions ≤ min 8 code.size ∧
        (∀ v ∈ V, v.depth < code.size) ∧ ∀ n, .instructionLimit n ∉ report.problems := by
  intro code V report
  obtain ⟨hcount, hle, hdepth, hlimit⟩ := walk_le_size counting 8 .re1Event 0x20 code 0
  exact ⟨by decide +kernel, by decide +kernel, hcount, hle, fun v hv ↦ (hdepth v hv).2,
    (hlimit (by decide)).1⟩

end Observer
end RoomScript
