import RoomScript.Language.Re1Event
import RoomScript.Language.Re1Scd
import RoomScript.Language.Re2
import RoomScript.Language.Re3

/-!
# The script languages

The answers of the four languages, put together: each question of `RoomScript.Language.Basic` is a
function on `Language` here, and what follows — decoding, walking, running, listing — asks these
functions only.

What is asserted below is all that termination of a walk needs: a fragment is shorter than the
instruction that carries it.
-/

set_option autoImplicit false

namespace RoomScript
namespace Language

/-- The length of the instruction at the head of `code`, in bytes.  It may be more than the code
has; `0` ends the script. -/
def length : Language → Stretch → Mode → Nat
  | re1Scd, code, _ => Re1Scd.length code
  | re1Event, code, mode => Re1Event.length code mode
  | re2, code, _ => Re2.length code
  | re3, code, _ => Re3.length code

/-- The decode table behind an instruction. -/
def nextMode : Language → UInt8 → Mode → Mode
  | re1Event, opcode, mode => Re1Event.nextMode opcode mode
  | _, _, mode => mode

/-- The body that an instruction opens.  `following` is the code behind the instruction. -/
def body? : Language → Instruction → Stretch → Option Body
  | re1Scd, i, _ => Re1Scd.body? i
  | re1Event, _, _ => none
  | re2, i, following => Re2.body? i following
  | re3, i, following => Re3.body? i following

/-- The length of an instruction depends on nothing but the bytes from its head on. -/
theorem length_congr {lang : Language} {code code' : Stretch} (h : code.toList = code'.toList)
    (mode : Mode) : lang.length code mode = lang.length code' mode := by
  cases lang <;>
    simp only [length, Re1Scd.length, Re1Event.length, Re2.length, Re3.length,
      Stretch.getElem?_congr h]

/-- A body depends on nothing but its instruction and the bytes that follow. -/
theorem body?_congr {lang : Language} {following following' : Stretch}
    (h : following.toList = following'.toList) (i : Instruction) :
    lang.body? i following = lang.body? i following' := by
  cases lang <;>
    simp only [body?, Re2.body?, Re3.body?, effectiveIfLength, Stretch.getElem?_congr h]

/-- The fragment that an instruction carries. -/
def fragment? : Language → Instruction → Option Fragment
  | re1Event, i => Re1Event.fragment? i
  | _, _ => none

/-- What an instruction does in stage `stage`. -/
def action : Language → Instruction → UInt8 → Action
  | re1Scd, i, stage => Re1Scd.action i stage
  | re1Event, _, _ => .nothing
  | re2, i, _ => Re2.action i
  | re3, i, _ => Re3.action i

/-- How an instruction reads in a listing. -/
def describe : Language → Instruction → ListingContext → Description
  | re1Scd, i, context => Re1Scd.describe i context
  | re1Event, i, _ => Re1Event.describe i
  | re2, i, context => Re2.describe i context
  | re3, i, context => Re3.describe i context

end Language

/-- Where a fragment starts in the instruction that carries it, which may have been cut short. -/
def Fragment.startIn (f : Fragment) (i : Instruction) : Nat := min f.start i.length

/-- The code of a fragment, as far as the instruction has it. -/
def Fragment.code (f : Fragment) (i : Instruction) : Stretch :=
  i.bytes.stretch (f.startIn i) (f.startIn i + f.length)

/-- A fragment comes after the two bytes of its instruction's header. -/
theorem Language.fragment?_start {lang : Language} {i : Instruction} {f : Fragment}
    (h : lang.fragment? i = some f) : f.start = 2 ∧ f.language = .re1Scd := by
  cases lang <;> simp only [fragment?, Re1Event.fragment?, reduceCtorEq] at h
  split at h
  · cases h; simp
  · split at h
    · cases h; simp
    · cases h

/-- A fragment is shorter than the instruction that carries it. -/
theorem Language.size_fragment_lt {lang : Language} {i : Instruction} {f : Fragment}
    (h : lang.fragment? i = some f) (hi : 0 < i.length) : (f.code i).size < i.length := by
  have hs := (fragment?_start h).1
  simp only [Fragment.code, Fragment.startIn, Instruction.length, Bytes.size_stretch] at hi ⊢
  omega

end RoomScript
