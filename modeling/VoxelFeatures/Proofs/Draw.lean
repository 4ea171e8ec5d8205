import VoxelFeatures.Build.Run

/-!
# The range of a bounded draw

A draw below a positive bound gives one of the numbers from zero up to below the
bound, whichever way it was reduced: a power of two scales the draw down, any
other bound takes a remainder. A bound that is not positive gives zero.
-/

namespace VoxelFeatures

namespace Stream

theorem toInt_shiftRight_31 (v : Int64) : (v >>> 31).toInt = v.toInt / 2147483648 := by
  have h : BitVec.smod (31 : Int64).toBitVec 64 = 31#64 := by decide
  rw [← Int64.toInt_toBitVec, Int64.toBitVec_shiftRight, h]
  simp [BitVec.sshiftRight', BitVec.toInt_sshiftRight, Int.shiftRight_eq_div_pow]

/-- The 31 high bits are the state without its 17 low bits, and never negative. -/
theorem toInt_top_31 (s : Stream) : (s.top 31).toInt = (s.state.toNat / 131072 : Nat) := by
  have hstate : s.state.toNat < 281474976710656 := s.state.isLt
  have hnat : ((s.state >>> 17).setWidth 32).toNat = s.state.toNat / 131072 := by
    rw [BitVec.toNat_setWidth, BitVec.toNat_ushiftRight, Nat.shiftRight_eq_div_pow]
    omega
  rw [top, Int32.toInt_ofBitVec, BitVec.toInt_eq_toNat_of_lt, hnat]
  rw [hnat]
  omega

theorem top_31_range (s : Stream) : 0 ≤ (s.top 31).toInt ∧ (s.top 31).toInt < 2147483648 := by
  have hstate : s.state.toNat < 281474976710656 := s.state.isLt
  rw [toInt_top_31]
  omega

/-- A scaled draw is the share of the bound that the draw is of all 31-bit draws. -/
theorem toInt_scaled {bound u : Int32} (hb : 0 ≤ bound.toInt) (hu : 0 ≤ u.toInt) :
    (scaled bound u).toInt = bound.toInt * u.toInt / 2147483648 := by
  have hbound := bound.toInt_lt
  have hdraw := u.toInt_lt
  have hlow : 0 ≤ bound.toInt * u.toInt := Int.mul_nonneg hb hu
  have hhigh : bound.toInt * u.toInt ≤ 2147483647 * 2147483647 :=
    Int.mul_le_mul (by omega) (by omega) hu (by omega)
  have hprod : (bound.toInt64 * u.toInt64).toInt = bound.toInt * u.toInt := by
    rw [Int64.toInt_mul, Int32.toInt_toInt64, Int32.toInt_toInt64]
    exact Int.bmod_eq_of_le (by omega) (by omega)
  rw [scaled, Int64.toInt_toInt32, toInt_shiftRight_31, hprod]
  exact Int.bmod_eq_of_le (by omega) (by omega)

theorem scaled_range {bound u : Int32} (hb : 0 < bound) (hu : 0 ≤ u.toInt) :
    0 ≤ scaled bound u ∧ scaled bound u < bound := by
  rw [Int32.lt_iff_toInt_lt] at hb ⊢
  have h0 : (0 : Int32).toInt = 0 := Int32.toInt_zero
  have hdraw := u.toInt_lt
  rw [Int32.le_iff_toInt_le, toInt_scaled (by omega) hu, h0]
  have hlow : 0 ≤ bound.toInt * u.toInt := Int.mul_nonneg (by omega) hu
  have hhigh : bound.toInt * u.toInt < bound.toInt * 2147483648 :=
    Int.mul_lt_mul_of_pos_left (by omega) (by omega)
  omega

theorem mod_range {bound u : Int32} (hb : 0 < bound) (hu : 0 ≤ u.toInt) :
    0 ≤ u % bound ∧ u % bound < bound := by
  rw [Int32.lt_iff_toInt_lt] at hb ⊢
  have h0 : (0 : Int32).toInt = 0 := Int32.toInt_zero
  rw [Int32.le_iff_toInt_le, Int32.toInt_mod, h0]
  exact ⟨Int.tmod_nonneg _ hu, Int.tmod_lt_of_pos _ (by omega)⟩

theorem firstFitting_range {bound : Int32} (hb : 0 < bound) {fuel : Nat} {s s' : Stream}
    {r : Int32} (h : firstFitting bound fuel s = some (r, s')) : 0 ≤ r ∧ r < bound := by
  induction fuel generalizing s with
  | zero => simp at h
  | succ fuel ih =>
      rw [firstFitting_succ] at h
      split at h
      · cases h
        exact mod_range hb (top_31_range s.step).1
      · exact ih h

/-- A draw below a positive bound is in its range. -/
theorem bounded_range {bound : Int32} (hb : 0 < bound) (s : Stream) :
    0 ≤ (s.bounded bound).1 ∧ (s.bounded bound).1 < bound := by
  rw [bounded, if_neg (Int32.not_le.2 hb)]
  split
  · exact scaled_range hb (top_31_range s.step).1
  · cases h : firstFitting bound period s with
    | some found => exact firstFitting_range hb h
    | none => exact ⟨Int32.le_refl 0, hb⟩

end Stream

/-- The values that a draw can have, whatever the stream. Those of high bits are
left open. -/
def Draw.Allows : Draw → Int32 → Prop
  | bits _, _ => True
  | bounded bound, u => (0 < bound → 0 ≤ u ∧ u < bound) ∧ (bound ≤ 0 → u = 0)

theorem Draw.allows_answer (d : Draw) (s : Stream) : d.Allows (d.answer s).1 := by
  cases d with
  | bits n => trivial
  | bounded bound =>
      refine ⟨fun hb => Stream.bounded_range hb s, fun hb => ?_⟩
      rw [answer, Stream.bounded_of_not_pos hb]

end VoxelFeatures
