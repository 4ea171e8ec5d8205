/-!
# Half bytes

Two values of four bits share one byte. `withLow` and `withHigh` replace one
half by a value. A value of more than four bits does not fit: its high bits are
added to the other half by `withLow` and fall off in `withHigh`. Values cut to
four bits are read back as they were written, and leave the other half alone.
-/

namespace VoxelFeatures.HalfByte

def low (packed : UInt8) : UInt8 := packed &&& 0x0F

def high (packed : UInt8) : UInt8 := packed >>> (4 : UInt8)

def withLow (packed value : UInt8) : UInt8 := (packed &&& 0xF0) ||| value

def withHigh (packed value : UInt8) : UInt8 := (packed &&& 0x0F) ||| (value <<< (4 : UInt8))

/-- Two bytes are equal if their bits are. -/
theorem byte_ext {a b : UInt8}
    (h : ∀ i, i = 0 ∨ i = 1 ∨ i = 2 ∨ i = 3 ∨ i = 4 ∨ i = 5 ∨ i = 6 ∨ i = 7 →
      a.toBitVec.getLsbD i = b.toBitVec.getLsbD i) : a = b := by
  rw [← UInt8.toBitVec_inj]
  apply BitVec.eq_of_getLsbD_eq
  intro i hi
  exact h i (by omega)

theorem withHigh_low_high (packed : UInt8) :
    withHigh (low packed) (high packed) = packed := by
  apply byte_ext
  rintro i (rfl | rfl | rfl | rfl | rfl | rfl | rfl | rfl) <;> simp [low, high, withHigh]

/-- A byte is known from its halves. -/
theorem eq_of_halves_eq {a b : UInt8} (hlow : low a = low b) (hhigh : high a = high b) :
    a = b := by
  rw [← withHigh_low_high a, hlow, hhigh, withHigh_low_high]

@[simp] theorem low_low (value : UInt8) : low (low value) = low value := by
  simp [low, UInt8.and_assoc]

/-! What comes of a byte that need not be cut to four bits. -/

theorem low_withLow_byte (packed value : UInt8) : low (withLow packed value) = low value := by
  apply byte_ext
  rintro i (rfl | rfl | rfl | rfl | rfl | rfl | rfl | rfl) <;> simp [low, withLow]

theorem high_withLow_byte (packed value : UInt8) :
    high (withLow packed value) = high packed ||| high value := by
  apply byte_ext
  rintro i (rfl | rfl | rfl | rfl | rfl | rfl | rfl | rfl) <;> simp [high, withLow]

theorem low_withHigh (packed value : UInt8) : low (withHigh packed value) = low packed := by
  apply byte_ext
  rintro i (rfl | rfl | rfl | rfl | rfl | rfl | rfl | rfl) <;> simp [low, withHigh]

theorem high_withHigh (packed value : UInt8) : high (withHigh packed value) = low value := by
  apply byte_ext
  rintro i (rfl | rfl | rfl | rfl | rfl | rfl | rfl | rfl) <;> simp [high, low, withHigh]

theorem high_eq_zero {value : UInt8} (h : value < 16) : high value = 0 := by
  have hfour : value.toNat < 16 := UInt8.lt_iff_toNat_lt.1 h
  have hshift : (high value).toNat = value.toNat / 16 :=
    (UInt8.toNat_shiftRight value 4).trans (Nat.shiftRight_eq_div_pow value.toNat 4)
  rw [← UInt8.toNat_inj, hshift]
  exact Nat.div_eq_of_lt hfour

/-! What comes of one that is. -/

theorem high_low (value : UInt8) : high (low value) = 0 := by
  apply byte_ext
  rintro i (rfl | rfl | rfl | rfl | rfl | rfl | rfl | rfl) <;> simp [high, low]

theorem low_withLow (packed value : UInt8) : low (withLow packed (low value)) = low value := by
  rw [low_withLow_byte, low_low]

theorem high_withLow (packed value : UInt8) : high (withLow packed (low value)) = high packed := by
  rw [high_withLow_byte, high_low, UInt8.or_zero]

end VoxelFeatures.HalfByte
