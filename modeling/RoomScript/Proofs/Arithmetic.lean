import Mathlib.Algebra.Ring.Int.Defs
import Mathlib.Algebra.Ring.Nat
import RoomScript.Proofs.OperationLines
import RoomScript.Proofs.Replay

/-!
# The arithmetic of variables

Variables are words of 16 bits, read as signed numbers, and an operation on one is said here in
whole numbers (`VarAction.value`).  Sums, differences, products and shifts to the left are taken to
the range of a word in two's complement; quotients and remainders go toward zero; shifts to the
right divide, and the logical one divides the number without a sign.  Where there is no quotient,
and where something is only compared, the variable keeps its value.

`RoomState.perform_var` is the whole effect of an operation: its variable, and nothing else but the
log.
-/

set_option autoImplicit false

namespace RoomScript

/-! ## Words as whole numbers -/

namespace Word

/-- The number without a sign that the word of a signed number is. -/
def unsigned (x : Int) : Nat := (x % 2 ^ 16).toNat

/-- The signed number in the range of a word that is equal to `n` up to a multiple of `2 ^ 16`. -/
def signed (n : Int) : Int := n.bmod (2 ^ 16)

variable (x : Int16)

theorem unsigned_toInt : unsigned x.toInt = x.toBitVec.toNat := by
  have hofInt : (BitVec.ofInt 16 x.toBitVec.toInt).toNat = unsigned x.toInt := BitVec.toNat_ofInt _
  rw [← hofInt, BitVec.ofInt_toInt]

theorem signed_toNat : signed x.toBitVec.toNat = x.toInt :=
  x.toBitVec.toInt_eq_toNat_bmod.symm

theorem toInt_eq_zero_iff : x.toInt = 0 ↔ x = 0 := by
  rw [← Int16.toInt_inj]
  rfl

theorem toInt_eq_minValue_iff : x.toInt = -32768 ↔ x = Int16.minValue := by
  rw [← Int16.toInt_inj]
  rfl

theorem toInt_eq_neg_one_iff : x.toInt = -1 ↔ x = -1 := by
  rw [← Int16.toInt_inj]
  rfl

end Word

namespace VarAction

open Word

/-- The number of places that an operand shifts by: its low four bits. -/
def places (y : Int) : Nat := unsigned y % 16

/-- What a variable with the value `x` has after an action with the operand `y`. -/
def value (action : VarAction) (x y : Int) : Int :=
  match action with
  | set => y
  | add => signed (x + y)
  | sub => signed (x - y)
  | mul => signed (x * y)
  | div => if y = 0 ∨ (x = -32768 ∧ y = -1) then x else x.tdiv y
  | mod => if y = 0 ∨ (x = -32768 ∧ y = -1) then x else x.tmod y
  | or => signed ↑(unsigned x ||| unsigned y)
  | and => signed ↑(unsigned x &&& unsigned y)
  | xor => signed ↑(unsigned x ^^^ unsigned y)
  | not => if x = 0 then 1 else 0
  | shr => signed ↑(unsigned x / 2 ^ places y)
  | shl => signed (x * 2 ^ places y)
  | sar => x.fdiv (2 ^ places y)
  | compare _ => x

variable (x y : Int16)

/-! ## Quotients -/

theorem noQuotient_iff :
    NoQuotient x y ↔ y.toInt = 0 ∨ (x.toInt = -32768 ∧ y.toInt = -1) := by
  rw [NoQuotient, toInt_eq_zero_iff, toInt_eq_minValue_iff, toInt_eq_neg_one_iff]

/-- A quotient that there is goes toward zero, and is not too large for a word. -/
theorem toInt_div_of_quotient (h : ¬ NoQuotient x y) : (x / y).toInt = x.toInt.tdiv y.toInt := by
  by_cases hmin : x = Int16.minValue
  · refine Int16.toInt_div_of_ne_right x y fun hone ↦ h (.inr ⟨hmin, hone⟩)
  · exact Int16.toInt_div_of_ne_left x y hmin

/-- A variable keeps its value if there is no quotient. -/
theorem toInt_getD_of_quotient {q : Int16} {n : Int} (h : ¬ NoQuotient x y → q.toInt = n) :
    ((if NoQuotient x y then none else some q).getD x).toInt
      = if y.toInt = 0 ∨ (x.toInt = -32768 ∧ y.toInt = -1) then x.toInt else n := by
  by_cases hquotient : NoQuotient x y
  · rw [if_pos hquotient, if_pos ((noQuotient_iff x y).1 hquotient)]
    rfl
  · rw [if_neg hquotient, if_neg ((noQuotient_iff x y).not.1 hquotient)]
    exact h hquotient

/-! ## Shifts -/

theorem places_toInt : places y.toInt = shiftCount y := by
  rw [places, unsigned_toInt, shiftCount, Int16.toBitVec_and, BitVec.toNat_and]
  exact (Nat.and_two_pow_sub_one_eq_mod y.toBitVec.toNat 4).symm

theorem toInt_shr :
    ((x.toUInt16 >>> (y.toUInt16 &&& 15)).toInt16).toInt
      = signed ↑(unsigned x.toInt / 2 ^ places y.toInt) := by
  rw [← signed_toNat, toBitVec_shr, BitVec.toNat_ushiftRight, Nat.shiftRight_eq_div_pow,
    unsigned_toInt, places_toInt]

theorem toInt_shl : (x <<< (y &&& 15)).toInt = signed (x.toInt * 2 ^ places y.toInt) := by
  have hbits : (x <<< (y &&& 15)).toBitVec = x.toBitVec <<< shiftCount y := by
    rw [Int16.toBitVec_shiftLeft, BitVec.shiftLeft_eq', toNat_smod_sixteen]
  have hmul : ((x.toBitVec.toNat <<< shiftCount y : Nat) : Int)
      = x.toBitVec.toNat * 2 ^ shiftCount y := by
    rw [Nat.shiftLeft_eq]
    push_cast
    rfl
  calc (x <<< (y &&& 15)).toInt
      = ((x.toBitVec.toNat <<< shiftCount y : Nat) : Int).bmod (2 ^ 16) := by
        rw [Int16.toInt, hbits, BitVec.toInt_shiftLeft]
    _ = (signed x.toBitVec.toNat * 2 ^ shiftCount y).bmod (2 ^ 16) := by
        rw [hmul, signed, Int.bmod_mul_bmod]
    _ = signed (x.toInt * 2 ^ places y.toInt) := by
        rw [signed_toNat, places_toInt, signed]

theorem toInt_sar : (x >>> (y &&& 15)).toInt = x.toInt.fdiv (2 ^ places y.toInt) := by
  have hpow : (0 : Int) ≤ 2 ^ shiftCount y := Int.le_of_lt (Int.pow_pos (by decide))
  rw [Int16.toInt, toBitVec_sar, BitVec.toInt_sshiftRight, Int.shiftRight_eq_div_pow, places_toInt,
    Int.fdiv_eq_ediv_of_nonneg _ hpow]
  push_cast
  rfl

/-! ## All actions -/

/-- **Actions are arithmetic on whole numbers.** -/
theorem toInt_update (action : VarAction) :
    ((action.update x y).getD x).toInt = action.value x.toInt y.toInt := by
  cases action with
  | set => rfl
  | add => exact Int16.toInt_add x y
  | sub => exact Int16.toInt_sub x y
  | mul => exact Int16.toInt_mul x y
  | div => exact toInt_getD_of_quotient x y (toInt_div_of_quotient x y)
  | mod => exact toInt_getD_of_quotient x y fun _ ↦ Int16.toInt_mod x y
  | or =>
    rw [value, unsigned_toInt, unsigned_toInt]
    exact BitVec.toInt_or _ _
  | and =>
    rw [value, unsigned_toInt, unsigned_toInt]
    exact BitVec.toInt_and _ _
  | xor =>
    rw [value, unsigned_toInt, unsigned_toInt]
    exact BitVec.toInt_xor _ _
  | not =>
    rw [update, value, Option.getD_some]
    by_cases h : x = 0
    · rw [if_pos h, if_pos ((toInt_eq_zero_iff x).2 h)]
      rfl
    · rw [if_neg h, if_neg ((toInt_eq_zero_iff x).not.2 h)]
      rfl
  | shr => exact toInt_shr x y
  | shl => exact toInt_shl x y
  | sar => exact toInt_sar x y
  | compare => rfl

end VarAction

namespace RoomState

/-- **An operation on a variable is arithmetic on that variable, and nothing else.**  Whatever the
game is, the variable has the value that the action gives, as whole numbers, for the value it had
and the value of the operand, which may be the variable itself.  Every other variable and every flag
has the value it had; the operation is logged behind the ones before; and all the rest of the game
is the same, down to how the flags are kept. -/
theorem perform_var (s : RoomState) (op : VarOp) :
    let s' := s.perform (.var op)
    (s'.var op.id).toInt
        = op.action.value (s.var op.id).toInt (op.operand.value s.var).toInt ∧
      (∀ id, id ≠ op.id → s'.var id = s.var id) ∧
      (∀ array bit, s'.flag array bit = s.flag array bit) ∧
      s' = { s with vars := s'.vars, varOps := s.varOps.push op } := by
  intro s'
  have hvar : s'.var = op.applyTo s.var := s.var_perform (.var op)
  obtain ⟨vars, hperform⟩ := s.exists_perform_var op
  refine ⟨?_, fun id hne ↦ ?_, fun array bit ↦ ?_, ?_⟩
  · rw [hvar, VarOp.applyTo, if_pos rfl]
    exact VarAction.toInt_update _ _ _
  · rw [hvar, VarOp.applyTo, if_neg hne.symm]
  · exact congrFun (congrFun (s.flag_perform (.var op)) array) bit
  · show s.perform (.var op) = { s with vars := (s.perform (.var op)).vars, varOps := _ }
    rw [hperform]

/-- A negative variable is shifted logically, by more places than a word has. -/
theorem perform_var_shift :
    let s : RoomState := { vars := [(3, -5), (7, -1)], varOps := #[⟨1, .not, .immediate 0⟩] }
    let op : VarOp := ⟨3, .shr, .var 7⟩
    let s' := s.perform (.var op)
    ((s'.var 3).toInt = VarAction.shr.value (-5) (-1) ∧ VarAction.shr.value (-5) (-1) = 1) ∧
      ((7 : UInt8) ≠ 3 ∧ s'.var 7 = s.var 7) ∧
      s'.varOps = #[⟨1, .not, .immediate 0⟩, op] := by
  intro s op s'
  obtain ⟨hvalue, hother, -, hrest⟩ := s.perform_var op
  exact ⟨⟨hvalue, by decide⟩, ⟨by decide, hother 7 (by decide)⟩, congrArg varOps hrest⟩

end RoomState
end RoomScript
