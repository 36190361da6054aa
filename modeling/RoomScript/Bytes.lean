/-!
# Byte strings and the words they hold

Room files are little-endian throughout.  This module has the one bounded way into a byte string,
`Bytes.field?`, and the readers of 8, 16 and 32 bit words that everything else is built from.  A
read that would leave the string is `none`, so truncated data reads as absent and nothing here can
go wrong on arbitrary input.

Positions are natural numbers: `start + len` cannot wrap, so the bound `start + len ≤ b.size` of
`field?` means what it says for every position.

Reading a word means evaluating its bytes, least significant first (`ofLittleEndian`), and the
writers go back the same way (`littleEndian`); `ofLittleEndian_littleEndian` is the law that ties
the two together.

A `Stretch` is a part of a byte string that stays where it is: cutting one off copies nothing.
What it stands for is its list of bytes, and every way of making or reading one has a law that says
so.
-/

set_option autoImplicit false

namespace RoomScript

/-- A byte string: a file, a section, an instruction. -/
abbrev Bytes := Array UInt8

/-- A part of a byte string: the code of a function, a message. -/
abbrev Stretch := Subarray UInt8

namespace Bytes

/-! ## Little-endian numbers -/

/-- The number written by some bytes, least significant byte first. -/
def ofLittleEndian : List UInt8 → Nat
  | [] => 0
  | x :: rest => x.toNat + 256 * ofLittleEndian rest

/-- The lowest `width` bytes of `n`, least significant first. -/
def littleEndian : Nat → Nat → List UInt8
  | 0, _ => []
  | width + 1, n => UInt8.ofNat n :: littleEndian width (n / 256)

@[simp]
theorem length_littleEndian (width n : Nat) : (littleEndian width n).length = width := by
  induction width generalizing n with
  | zero => rfl
  | succ width ih => simp [littleEndian, ih]

/-- Reading back what was written gives the number, less the bytes that did not fit. -/
theorem ofLittleEndian_littleEndian (width n : Nat) :
    ofLittleEndian (littleEndian width n) = n % Nat.pow 256 width := by
  induction width generalizing n with
  | zero => simp [littleEndian, ofLittleEndian, Nat.mod_one]
  | succ width ih =>
    have h : (UInt8.ofNat n).toNat = n % 256 := by simp
    have hpow : Nat.pow 256 (width + 1) = 256 * Nat.pow 256 width := Nat.mul_comm _ _
    rw [littleEndian, ofLittleEndian, ih, h, hpow, Nat.mod_mul]

/-! ## Windows

Cutting a byte string never fails: what lies outside is simply not there. -/

/-- The bytes of `b` in `[start, start + len)`, as far as `b` reaches. -/
def window (b : Bytes) (start len : Nat) : Bytes := b.extract start (start + len)

theorem toList_window (b : Bytes) (start len : Nat) :
    (b.window start len).toList = (b.toList.drop start).take len := by
  simp [window, List.extract_eq_take_drop]

/-- A window ends with the bytes at the latest. -/
theorem size_window (b : Bytes) (start len : Nat) :
    (b.window start len).size = min len (b.size - start) := by
  simp only [window, Array.size_extract]
  omega

/-! ## Bounded access -/

/-- The `len` bytes of `b` from `start` on, when `b` has them all. -/
def field? (b : Bytes) (start len : Nat) : Option Bytes :=
  if start + len ≤ b.size then some (b.window start len) else none

theorem field?_eq_some_window {b : Bytes} {start len : Nat} (h : start + len ≤ b.size) :
    b.field? start len = some (b.window start len) := by
  rw [field?, if_pos h]

theorem size_of_field? {b f : Bytes} {start len : Nat} (h : b.field? start len = some f) :
    f.size = len := by
  unfold field? at h
  split at h
  · cases h
    simp only [window, Array.size_extract]
    omega
  · cases h

/-- The byte at `pos`. -/
def u8? (b : Bytes) (pos : Nat) : Option UInt8 := b[pos]?

/-- The unsigned 16 bit word at `pos`. -/
def u16? (b : Bytes) (pos : Nat) : Option UInt16 :=
  (b.field? pos 2).map fun f ↦ UInt16.ofNat (ofLittleEndian f.toList)

/-- The signed 16 bit word at `pos`: the two's complement view of the unsigned one. -/
def i16? (b : Bytes) (pos : Nat) : Option Int16 := (b.u16? pos).map UInt16.toInt16

/-- The unsigned 32 bit word at `pos`. -/
def u32? (b : Bytes) (pos : Nat) : Option UInt32 :=
  (b.field? pos 4).map fun f ↦ UInt32.ofNat (ofLittleEndian f.toList)

/-- The signed 32 bit word at `pos`: the two's complement view of the unsigned one. -/
def i32? (b : Bytes) (pos : Nat) : Option Int32 := (b.u32? pos).map UInt32.toInt32

/-! ## Stretches -/

/-- The stretch of `b` in `[start, stop)`, as far as `b` reaches. -/
def stretch (b : Bytes) (start stop : Nat) : Stretch := b.toSubarray start stop

/-- The stretch that is all of `b`. -/
def whole (b : Bytes) : Stretch := b.stretch 0 b.size

@[simp]
theorem toList_stretch (b : Bytes) (start stop : Nat) :
    (b.stretch start stop).toList = (b.toList.take stop).drop start := by
  have htake : b.toList.take (min stop b.size) = b.toList.take stop := by
    rw [← Array.length_toList, ← List.take_eq_take_min]
  have hlen : (b.toList.take stop).length = min stop b.size := by simp
  unfold stretch
  rw [Subarray.toList_eq_drop_take]
  simp only [Array.array_toSubarray, Array.start_toSubarray, Array.stop_toSubarray]
  rw [htake, ← hlen]
  by_cases h : start ≤ (b.toList.take stop).length
  · rw [Nat.min_eq_left h]
  · rw [Nat.min_eq_right (by omega), List.drop_length, List.drop_eq_nil_of_le (by omega)]

@[simp]
theorem size_stretch (b : Bytes) (start stop : Nat) :
    (b.stretch start stop).size = min stop b.size - start := by
  rw [← Subarray.length_toList, toList_stretch, List.length_drop, List.length_take,
    Array.length_toList]

@[simp]
theorem toList_whole (b : Bytes) : b.whole.toList = b.toList := by
  rw [whole, toList_stretch, List.drop_zero, ← Array.length_toList, List.take_length]

end Bytes

namespace Stretch

/-- A copy of the bytes of a stretch. -/
def bytes (s : Stretch) : Bytes := s.array.extract s.start s.stop

@[simp]
theorem toList_bytes (s : Stretch) : s.bytes.toList = s.toList := Subarray.toList_eq.symm

theorem getElem?_eq (s : Stretch) (pos : Nat) : s[pos]? = s.toList[pos]? := by
  by_cases h : pos < s.size
  · rw [getElem?_pos s pos h, List.getElem?_eq_getElem (by simpa using h), Subarray.getElem_toList]
  · rw [getElem?_neg s pos h, List.getElem?_eq_none (by simpa using h)]

/-- Reading a stretch depends on nothing but its bytes. -/
theorem getElem?_congr {s s' : Stretch} (h : s.toList = s'.toList) (pos : Nat) :
    s[pos]? = s'[pos]? := by
  rw [getElem?_eq, getElem?_eq, h]

theorem drop_eq_nil {s : Stretch} {pos : Nat} (h : s[pos]? = none) : s.toList.drop pos = [] := by
  rw [getElem?_eq, List.getElem?_eq_none_iff] at h
  exact List.drop_eq_nil_of_le h

theorem drop_eq_cons {s : Stretch} {pos : Nat} {b : UInt8} (h : s[pos]? = some b) :
    s.toList.drop pos = b :: s.toList.drop (pos + 1) := by
  rw [getElem?_eq] at h
  obtain ⟨hlt, rfl⟩ := List.getElem?_eq_some_iff.1 h
  exact List.drop_eq_getElem_cons hlt

end Stretch
end RoomScript
