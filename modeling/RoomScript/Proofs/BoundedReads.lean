import RoomScript.Proofs.TablePacking

/-!
# What is read from a byte string

All that is known of a room file is read through `Bytes.field?` and the readers of words, at places
that the file itself gives.  A field is there exactly if its end is in the string, and then it is
the piece of the string at its place (`field?_eq_some_iff`).  The end is a sum of numbers without a
bound.  `fieldAt?` has words of 64 bits for places, and gives up where the sum is not one of them;
`fieldAt?_eq_field?` says that this makes no difference.

The readers of words all come down to `number?`, the number in some bytes.  A word is read where its
bytes are, and nowhere else (`number?_eq_some_iff`), and a long word is made of two short ones
(`number?_add`); both are laws of `number?` for all widths.  The signed readers give the same words
in two's complement.

`reads_exact` has all this together.
-/

set_option autoImplicit false

namespace RoomScript
namespace Bytes

/-! ## Fields -/

section

variable {b f : Bytes} {start len : Nat}

theorem isSome_field?_iff : (b.field? start len).isSome ↔ start + len ≤ b.size := by
  rw [field?, Option.isSome_ite]

theorem field?_eq_none (h : b.size < start + len) : b.field? start len = none :=
  if_neg (Nat.not_le.2 h)

/-- A window that is not cut short is a piece. -/
theorem piece_window (h : start + len ≤ b.size) :
    Piece 0 b.toList start (b.window start len).toList := by
  refine ⟨b.toList.take start, (b.toList.drop start).drop len, ?_, ?_⟩
  · rw [toList_window, List.take_append_drop, List.take_append_drop]
  · rw [List.length_take, Array.length_toList]
    omega

/-- **A field is the piece of its length at its place.** -/
theorem field?_eq_some_iff :
    b.field? start len = some f ↔ f.size = len ∧ Piece 0 b.toList start f.toList := by
  constructor
  · intro h
    have hstop : start + len ≤ b.size := isSome_field?_iff.1 (by rw [h]; rfl)
    refine ⟨size_of_field? h, ?_⟩
    rw [field?_eq_some_window hstop] at h
    cases h
    exact piece_window hstop
  · rintro ⟨rfl, hpiece⟩
    exact field?_of_piece hpiece

/-- A field is there if both of its parts are, and it is one part behind the other. -/
theorem field?_add (b : Bytes) (start m n : Nat) :
    b.field? start (m + n)
      = (b.field? start m).bind fun f ↦ (b.field? (start + m) n).map (f ++ ·) := by
  by_cases h : start + (m + n) ≤ b.size
  · have hlow : start + m ≤ b.size := by omega
    have hhigh : start + m + n ≤ b.size := by omega
    rw [field?_eq_some_window h, field?_eq_some_window hlow, Option.bind_some,
      field?_eq_some_window hhigh, Option.map_some, window_append]
  · -- the upper part ends where the whole does, so it is this part that is not there
    have hhigh : b.field? (start + m) n = none := field?_eq_none (by omega)
    rw [field?_eq_none (by omega), hhigh]
    exact (Option.bind_fun_none _).symm

end

/-! ## Places that are words -/

/-- The place `len` bytes behind `start`, unless it is past the last word. -/
def placeBehind? (start len : UInt64) : Option UInt64 :=
  if start.toBitVec.uaddOverflow len.toBitVec then none else some (start + len)

/-- The bytes of `b` from `start` up to `stop`, when both are in `b` and in that order. -/
def slice? (b : Bytes) (start stop : UInt64) : Option Bytes :=
  if start ≤ stop ∧ stop.toNat ≤ b.size then some (b.extract start.toNat stop.toNat) else none

/-- The `len` bytes of `b` from `start` on, found by the place where they end. -/
def fieldAt? (b : Bytes) (start len : UInt64) : Option Bytes :=
  (placeBehind? start len).bind (b.slice? start)

section

variable {b : Bytes} {start len stop : UInt64}

theorem placeBehind?_eq_none (h : placeBehind? start len = none) :
    UInt64.size ≤ start.toNat + len.toNat := by
  unfold placeBehind? at h
  split at h
  · next hoverflow => exact of_decide_eq_true hoverflow
  · cases h

/-- The place behind is the sum of whole numbers. -/
theorem toNat_of_placeBehind? (h : placeBehind? start len = some stop) :
    stop.toNat = start.toNat + len.toNat := by
  unfold placeBehind? at h
  split at h
  · cases h
  · next hoverflow =>
    cases h
    exact BitVec.toNat_add_of_not_uaddOverflow hoverflow

/-- **Words are enough for places.**  A sum that is not a word is past the end of every byte string
whose size is one. -/
theorem fieldAt?_eq_field? (h : b.size < UInt64.size) (start len : UInt64) :
    b.fieldAt? start len = b.field? start.toNat len.toNat := by
  cases hplace : placeBehind? start len with
  | none =>
    -- no word is the end, but the string is shorter than that anyway
    have hsum := placeBehind?_eq_none hplace
    rw [fieldAt?, hplace, field?_eq_none (by omega)]
    rfl
  | some stop =>
    have hstop := toNat_of_placeBehind? hplace
    have hle : start ≤ stop := UInt64.le_iff_toNat_le.2 (by omega)
    rw [fieldAt?, hplace, Option.bind_some, slice?, field?, window, hstop]
    simp only [hle, true_and]

end

/-! ## Numbers -/

theorem ofLittleEndian_lt (bytes : List UInt8) :
    ofLittleEndian bytes < Nat.pow 256 bytes.length := by
  induction bytes with
  | nil => exact Nat.one_pos
  | cons x bytes ih =>
    have hpow : Nat.pow 256 (bytes.length + 1) = Nat.pow 256 bytes.length * 256 := rfl
    have hx := x.toNat_lt
    rw [ofLittleEndian, List.length_cons, hpow]
    omega

theorem ofLittleEndian_append (low high : List UInt8) :
    ofLittleEndian (low ++ high)
      = ofLittleEndian low + Nat.pow 256 low.length * ofLittleEndian high := by
  induction low with
  | nil => simp [ofLittleEndian]
  | cons x low ih =>
    have hpow : Nat.pow 256 (low.length + 1) = 256 * Nat.pow 256 low.length := Nat.mul_comm _ _
    rw [List.cons_append, ofLittleEndian, ofLittleEndian, ih, List.length_cons, hpow, Nat.mul_add,
      Nat.mul_assoc, Nat.add_assoc]

/-- Bytes are what is written for their number. -/
theorem littleEndian_ofLittleEndian (bytes : List UInt8) :
    littleEndian bytes.length (ofLittleEndian bytes) = bytes := by
  induction bytes with
  | nil => rfl
  | cons x bytes ih =>
    have hx := x.toNat_lt
    have hhead : UInt8.ofNat (x.toNat + 256 * ofLittleEndian bytes) = x := by
      rw [← UInt8.toNat_inj, UInt8.toNat_ofNat']
      omega
    have hrest : (x.toNat + 256 * ofLittleEndian bytes) / 256 = ofLittleEndian bytes := by omega
    rw [List.length_cons, littleEndian, ofLittleEndian, hhead, hrest, ih]

/-- The number in the `width` bytes at `pos`, when they are all there. -/
def number? (b : Bytes) (pos width : Nat) : Option Nat :=
  (b.field? pos width).map fun f ↦ ofLittleEndian f.toList

section

variable {b : Bytes} {pos width n : Nat}

/-- **A number is read where its bytes are.** -/
theorem number?_eq_some_iff (hn : n < Nat.pow 256 width) :
    b.number? pos width = some n ↔ Piece 0 b.toList pos (littleEndian width n) := by
  constructor
  · intro h
    obtain ⟨f, hf, rfl⟩ := Option.map_eq_some_iff.1 h
    obtain ⟨rfl, hpiece⟩ := field?_eq_some_iff.1 hf
    rwa [← Array.length_toList, littleEndian_ofLittleEndian]
  · intro h
    rw [number?, field?_of_piece_littleEndian h, Nat.mod_eq_of_lt hn]

/-- **A long number is two short ones**, the lower one first. -/
theorem number?_add (b : Bytes) (pos m n : Nat) :
    b.number? pos (m + n)
      = (b.number? pos m).bind fun low ↦
          (b.number? (pos + m) n).map fun high ↦ low + Nat.pow 256 m * high := by
  rw [number?, number?, number?, field?_add, Option.map_bind, Option.bind_map]
  refine Option.bind_congr fun f hf ↦ ?_
  have hsize : f.toList.length = m := size_of_field? hf
  simp only [Function.comp_apply, Option.map_map]
  refine congrArg (Option.map · _) (funext fun g ↦ ?_)
  simp only [Function.comp_apply, Array.toList_append, ofLittleEndian_append, hsize]

end

/-! ## Words -/

/-- The signed number of a word in two's complement, where there are `size` words and `n` is the
number of this one. -/
def twosComplement (size n : Nat) : Int := if 2 * n < size then n else n - size

/-- The number of a word is its signed number, up to a multiple of the number of words. -/
theorem toNat_toInt_emod {bits : Nat} (x : BitVec bits) :
    (x.toInt % ↑(Nat.pow 2 bits)).toNat = x.toNat := by
  have hofInt : (BitVec.ofInt bits x.toInt).toNat = (x.toInt % ↑(Nat.pow 2 bits)).toNat :=
    BitVec.toNat_ofInt x.toInt
  rw [← hofInt, BitVec.ofInt_toInt]

section

variable {α : Type} {toNat : α → Nat} {b : Bytes} {pos width : Nat}

/-- A reader that makes its word of the number loses nothing of it, if the word is wide enough. -/
theorem map_toNat_field? {ofNat : Nat → α}
    (h : ∀ n < Nat.pow 256 width, toNat (ofNat n) = n) :
    ((b.field? pos width).map fun f ↦ ofNat (ofLittleEndian f.toList)).map toNat
      = b.number? pos width := by
  rw [Option.map_map]
  refine Option.map_congr fun f hf ↦ h _ ?_
  rw [← size_of_field? hf]
  exact ofLittleEndian_lt f.toList

/-- A reader that gives the number in some bytes gives a word where the bytes of the word are. -/
theorem eq_some_iff_piece {word? : Option α} {v : α} (h : word?.map toNat = b.number? pos width)
    (hinj : ∀ x y, toNat x = toNat y → x = y) (hv : toNat v < Nat.pow 256 width) :
    word? = some v ↔ Piece 0 b.toList pos (littleEndian width (toNat v)) := by
  rw [← number?_eq_some_iff hv, ← h, ← Option.map_some, Option.map_inj_right hinj]

end

section

variable (b : Bytes) (pos : Nat)

theorem map_toNat_u16? : (b.u16? pos).map UInt16.toNat = b.number? pos 2 :=
  map_toNat_field? fun _ ↦ UInt16.toNat_ofNat_of_lt'

theorem map_toNat_u32? : (b.u32? pos).map UInt32.toNat = b.number? pos 4 :=
  map_toNat_field? fun _ ↦ UInt32.toNat_ofNat_of_lt'

/-- A word of 32 bits is there if two words of 16 bits are, and these are its halves. -/
theorem map_toNat_u32?_eq_bind :
    (b.u32? pos).map UInt32.toNat
      = (b.u16? pos).bind fun low ↦
          (b.u16? (pos + 2)).map fun high ↦ low.toNat + 65536 * high.toNat := by
  rw [map_toNat_u32?, show 4 = 2 + 2 from rfl, number?_add, ← map_toNat_u16?, ← map_toNat_u16?,
    Option.bind_map]
  simp only [Function.comp_def, Option.map_map]

theorem map_toInt_i16? :
    (b.i16? pos).map Int16.toInt
      = (b.u16? pos).map fun v ↦ twosComplement UInt16.size v.toNat := by
  rw [i16?, Option.map_map]
  exact Option.map_congr fun v _ ↦ BitVec.toInt_eq_toNat_cond v.toBitVec

theorem map_toInt_i32? :
    (b.i32? pos).map Int32.toInt
      = (b.u32? pos).map fun v ↦ twosComplement UInt32.size v.toNat := by
  rw [i32?, Option.map_map]
  exact Option.map_congr fun v _ ↦ BitVec.toInt_eq_toNat_cond v.toBitVec

end

/-! ## Words that were written -/

section

variable {b : Bytes} {pos : Nat}

theorem u16?_eq_some_iff {v : UInt16} :
    b.u16? pos = some v ↔ Piece 0 b.toList pos (littleEndian 2 v.toNat) :=
  eq_some_iff_piece (b.map_toNat_u16? pos) (fun _ _ ↦ UInt16.toNat_inj.1) v.toNat_lt

theorem u32?_eq_some_iff {v : UInt32} :
    b.u32? pos = some v ↔ Piece 0 b.toList pos (littleEndian 4 v.toNat) :=
  eq_some_iff_piece (b.map_toNat_u32? pos) (fun _ _ ↦ UInt32.toNat_inj.1) v.toNat_lt

/-- Where `signed` and `unsigned` are inverse to each other, a signed word is read exactly where the
word is. -/
theorem map_eq_some_iff_of_inverse {α β : Type} {signed : α → β} {unsigned : β → α}
    (hunsigned : ∀ w, unsigned (signed w) = w) (hsigned : ∀ v, signed (unsigned v) = v)
    {word? : Option α} {v : β} : word?.map signed = some v ↔ word? = some (unsigned v) := by
  rw [Option.map_eq_some_iff]
  constructor
  · rintro ⟨w, hw, rfl⟩
    rwa [hunsigned]
  · intro h
    exact ⟨unsigned v, h, hsigned v⟩

theorem i16?_eq_some_iff {v : Int16} :
    b.i16? pos = some v
      ↔ Piece 0 b.toList pos (littleEndian 2 (v.toInt % UInt16.size).toNat) := by
  have hnumber : (v.toInt % UInt16.size).toNat = v.toUInt16.toNat := toNat_toInt_emod v.toBitVec
  rw [hnumber, ← u16?_eq_some_iff]
  exact map_eq_some_iff_of_inverse UInt16.toUInt16_toInt16 Int16.toInt16_toUInt16

theorem i32?_eq_some_iff {v : Int32} :
    b.i32? pos = some v
      ↔ Piece 0 b.toList pos (littleEndian 4 (v.toInt % UInt32.size).toNat) := by
  have hnumber : (v.toInt % UInt32.size).toNat = v.toUInt32.toNat := toNat_toInt_emod v.toBitVec
  rw [hnumber, ← u32?_eq_some_iff]
  exact map_eq_some_iff_of_inverse UInt32.toUInt32_toInt32 Int32.toInt32_toUInt32

end

/-- What stands between a prefix and a suffix is a piece at the size of the prefix. -/
theorem piece_between (before : Bytes) (part : List UInt8) (after : Bytes) :
    Piece 0 (before ++ part.toArray ++ after).toList before.size part := by
  refine ⟨before.toList, after.toList, ?_, ?_⟩
  · simp only [Array.toList_append, List.append_assoc]
  · rw [Nat.zero_add, Array.length_toList]

/-- **Reads are bounded, and they agree with each other.**  Whatever the place and the length are, a
field is there exactly if it ends in the byte string, and then it is the piece at that place; places
and ends that have to be words make no difference.  A word that was written anywhere, with or
without a sign, is read back at its place.  A word of 32 bits is made of two words of 16 bits, and
a signed word is the word without a sign in two's complement. -/
theorem reads_exact :
    (∀ (b : Bytes) (start len : Nat), ((b.field? start len).isSome ↔ start + len ≤ b.size) ∧
      ∀ f, b.field? start len = some f ↔ f.size = len ∧ Piece 0 b.toList start f.toList) ∧
    (∀ (b : Bytes) (start len : UInt64), b.size < UInt64.size →
      b.fieldAt? start len = b.field? start.toNat len.toNat) ∧
    (∀ before after : Bytes,
      let between (part : List UInt8) : Bytes := before ++ part.toArray ++ after
      (∀ v : UInt16, (between (littleEndian 2 v.toNat)).u16? before.size = some v) ∧
      (∀ v : Int16,
        (between (littleEndian 2 (v.toInt % UInt16.size).toNat)).i16? before.size = some v) ∧
      (∀ v : UInt32, (between (littleEndian 4 v.toNat)).u32? before.size = some v) ∧
      ∀ v : Int32,
        (between (littleEndian 4 (v.toInt % UInt32.size).toNat)).i32? before.size = some v) ∧
    ∀ (b : Bytes) (pos : Nat),
      (b.u32? pos).map UInt32.toNat
          = ((b.u16? pos).bind fun low ↦
              (b.u16? (pos + 2)).map fun high ↦ low.toNat + 65536 * high.toNat) ∧
        (b.i16? pos).map Int16.toInt
          = (b.u16? pos).map (fun v ↦ twosComplement UInt16.size v.toNat) ∧
        (b.i32? pos).map Int32.toInt
          = (b.u32? pos).map fun v ↦ twosComplement UInt32.size v.toNat := by
  refine ⟨fun b start len ↦ ⟨isSome_field?_iff, fun f ↦ field?_eq_some_iff⟩,
    fun b start len h ↦ fieldAt?_eq_field? h start len, fun before after ↦ ?_, fun b pos ↦
      ⟨b.map_toNat_u32?_eq_bind pos, b.map_toInt_i16? pos, b.map_toInt_i32? pos⟩⟩
  intro between
  have hpiece : ∀ part, Piece 0 (between part).toList before.size part := fun part ↦
    piece_between before part after
  exact ⟨fun v ↦ u16?_eq_some_iff.2 (hpiece _), fun v ↦ i16?_eq_some_iff.2 (hpiece _),
    fun v ↦ u32?_eq_some_iff.2 (hpiece _), fun v ↦ i32?_eq_some_iff.2 (hpiece _)⟩

/-- A field from the last place but one, whose end would be in the string if the sum went round; and
two words of the string that make a third, the upper one negative. -/
theorem reads_exact_wrapped :
    let b : Bytes := #[0x34, 0x12, 0xfe, 0xff, 0x78]
    let start : UInt64 := 18446744073709551614
    (b.size < UInt64.size ∧ start + 5 = 3) ∧ b.fieldAt? start 5 = b.field? start.toNat 5 ∧
      b.field? start.toNat 5 = none ∧
      (b.u32? 0).map UInt32.toNat = some (0x1234 + 65536 * 0xfffe) ∧
      (b.i16? 2).map Int16.toInt = some (-2) := by
  intro b start
  obtain ⟨hfield, hwords, -, hviews⟩ := reads_exact
  have habsent : ¬ (b.field? start.toNat 5).isSome := fun h ↦
    absurd ((hfield b start.toNat 5).1.1 h) (by decide)
  have hlow : b.u16? 0 = some 0x1234 := by decide
  have hhigh : b.u16? 2 = some 0xfffe := by decide
  refine ⟨⟨by decide, by decide⟩, hwords b start 5 (by decide),
    Option.not_isSome_iff_eq_none.1 habsent, ?_, ?_⟩
  · rw [(hviews b 0).1, hlow, hhigh]
    rfl
  · rw [(hviews b 2).2.1, hhigh]
    rfl

end Bytes
end RoomScript
