import Mathlib.Data.Int.ModEq
import VoxelFeatures.Proofs.Period

/-!
# Seeds and states

A stream comes back to its state after a whole number of periods and not before, and two
streams never meet by advancing side by side, for a step can be undone. So streams coincide
only if they were seeded alike, and a seed counts modulo `2 ^ 48` alone.

Seeds are signed words of 64 bits, and a state can be kept in such a word as well. There a
step multiplies and adds with wrapping and then keeps the low 48 bits, as seeding does. What
wraps lies above these bits, so both agree with the arithmetic of 48 bits, and the sign is
never set.
-/

namespace VoxelFeatures

namespace Stream

open Function

/-! ## Advancing -/

theorem iterate_step_eq_self_iff (s : Stream) (n : Nat) : step^[n] s = s ↔ 2 ^ 48 ∣ n := by
  rw [← minimalPeriod_step s]
  exact isPeriodicPt_iff_minimalPeriod_dvd

/-- The rest of a period undoes a step. -/
theorem step_injective : Injective step := by
  refine LeftInverse.injective (g := step^[2 ^ 48 - 1]) fun s => ?_
  rw [← iterate_succ_apply]
  exact iterate_step_period s

/-! ## Seeds -/

/-- The low bits of a signed word are its value modulo a power of two. -/
theorem setWidth_eq_iff (a b : Int64) :
    a.toBitVec.setWidth 48 = b.toBitVec.setWidth 48 ↔ a.toInt ≡ b.toInt [ZMOD 2 ^ 48] := by
  have hlow (w : Int64) : ((w.toBitVec.setWidth 48).toNat : Int) = w.toInt % 2 ^ 48 := by
    have hword := BitVec.toInt_eq_toNat_cond w.toBitVec
    rw [Int64.toInt_toBitVec] at hword
    rw [BitVec.toNat_setWidth]
    split at hword <;> omega
  rw [← BitVec.toNat_inj, ← Int.natCast_inj, hlow, hlow, Int.ModEq]

theorem ofSeed_eq_iff (a b : Int64) :
    ofSeed a = ofSeed b ↔ a.toInt ≡ b.toInt [ZMOD 2 ^ 48] := by
  rw [ofSeed, ofSeed, mk.injEq, BitVec.xor_left_inj, setWidth_eq_iff]

/-! ## States in words of 64 bits -/

/-- The state in a signed word of 64 bits. -/
def word (s : Stream) : Int64 := .ofBitVec (s.state.setWidth 64)

/-- The part of a word that a state keeps. -/
def lowBits (w : Int64) : Int64 := w &&& 0xFFFFFFFFFFFF

/-- The state of a seed, in a word. -/
def seedWord (seed : Int64) : Int64 := lowBits (seed ^^^ 0x5DEECE66D)

/-- A step on words. -/
def stepWord (w : Int64) : Int64 := lowBits (w * 0x5DEECE66D + 0xB)

theorem lowBits_eq (w : Int64) : lowBits w = word ⟨w.toBitVec.setWidth 48⟩ := by
  have hmask : (0xFFFFFFFFFFFF : Int64).toBitVec = (BitVec.allOnes 48).setWidth 64 := by decide
  rw [← Int64.toBitVec_inj, lowBits, word, Int64.toBitVec_and, hmask, Int64.toBitVec_ofBitVec]
  ext i hi
  simp only [BitVec.getElem_and, BitVec.getElem_setWidth, BitVec.getLsbD_setWidth,
    BitVec.getLsbD_allOnes, BitVec.getLsbD_eq_getElem hi, Bool.and_comm]

theorem word_ofSeed (seed : Int64) : (ofSeed seed).word = seedWord seed := by
  have hfactor : (0x5DEECE66D : Int64).toBitVec.setWidth 48 = multiplier := by decide
  rw [seedWord, lowBits_eq, Int64.toBitVec_xor, BitVec.setWidth_xor, hfactor, ofSeed]

/-- What wraps in 64 bits does not reach the bits that are kept. -/
theorem word_step (s : Stream) : s.step.word = stepWord s.word := by
  have hfactor : (0x5DEECE66D : Int64).toBitVec.setWidth 48 = multiplier := by decide
  have hterm : (0xB : Int64).toBitVec.setWidth 48 = increment := by decide
  have hstate : s.word.toBitVec.setWidth 48 = s.state := by
    rw [word, Int64.toBitVec_ofBitVec, BitVec.setWidth_setWidth_of_le _ (by decide),
      BitVec.setWidth_eq]
  rw [stepWord, lowBits_eq, Int64.toBitVec_add, Int64.toBitVec_mul,
    BitVec.setWidth_add _ _ (by decide), BitVec.setWidth_mul _ _ (by decide), hfactor, hterm,
    hstate, step]

theorem word_iterate_step (s : Stream) (n : Nat) : (step^[n] s).word = stepWord^[n] s.word :=
  Semiconj.iterate_right (f := word) word_step n s

theorem word_range (s : Stream) : 0 ≤ s.word.toInt ∧ s.word.toInt < 2 ^ 48 := by
  have hstate := s.state.isLt
  have hnat : s.word.toBitVec.toNat = s.state.toNat := by
    rw [word, Int64.toBitVec_ofBitVec, BitVec.toNat_setWidth]
    omega
  rw [← Int64.toInt_toBitVec, BitVec.toInt_eq_toNat_of_lt (by omega), hnat]
  omega

/-! ## The law of states -/

/-- A stream is back in its state exactly after whole periods of `2 ^ 48` advances, streams
in different states stay in different states as they advance alike, and seeds give the same
state exactly if they are congruent modulo `2 ^ 48`. The states that a seeded stream goes
through are those of the words that start from the low bits of the seed, and they are never
negative and below `2 ^ 48`. -/
theorem states_meet_by_period_or_seed :
    (∀ (s : Stream) (n : Nat), step^[n] s = s ↔ 2 ^ 48 ∣ n) ∧
      (∀ (s t : Stream) (n : Nat), step^[n] s = step^[n] t ↔ s = t) ∧
      (∀ a b : Int64, ofSeed a = ofSeed b ↔ a.toInt ≡ b.toInt [ZMOD 2 ^ 48]) ∧
      (∀ (seed : Int64) (n : Nat),
        (step^[n] (ofSeed seed)).word = stepWord^[n] (seedWord seed)) ∧
      ∀ s : Stream, 0 ≤ s.word.toInt ∧ s.word.toInt < 2 ^ 48 := by
  refine ⟨iterate_step_eq_self_iff, fun s t n => ?_, ofSeed_eq_iff, fun seed n => ?_, word_range⟩
  · exact (step_injective.iterate n).eq_iff
  · rw [word_iterate_step, word_ofSeed]

end Stream

end VoxelFeatures
