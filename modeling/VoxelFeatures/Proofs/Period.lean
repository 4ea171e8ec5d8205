import Mathlib.Data.BitVec
import Mathlib.Dynamics.PeriodicPts.Lemmas
import Mathlib.SetTheory.Cardinal.Finite
import Mathlib.Tactic.Ring
import Mathlib.Data.Nat.Find
import VoxelFeatures.Proofs.Draw
import VoxelFeatures.Proofs.Words

/-!
# The period of the stream

The congruential step runs through all `2 ^ 48` states before it comes back to
the first one. Twice as many steps compose to an affine map again, whose factor
is one above a multiple of `2 ^ (k + 2)` and whose term is an odd multiple of
`2 ^ k` after `2 ^ k` steps. So `2 ^ 47` steps move every state and `2 ^ 48`
steps move none, which leaves no other period.

A draw with rejection therefore comes to an end: the state whose high bits are
zero is on the way from every other one, and zero lies in a complete block of
every bound. One period is fuel enough, whatever the state and the bound.
-/

namespace VoxelFeatures

namespace Stream

open Function

/-! ## Powers of two of steps -/

/-- The factor and the term of the affine map that `2 ^ k` steps compose to. -/
def leap : Nat → BitVec 48 × BitVec 48
  | 0 => (multiplier, increment)
  | k + 1 => ((leap k).1 * (leap k).1, (leap k).1 * (leap k).2 + (leap k).2)

theorem iterate_step_two_pow (k : Nat) (s : Stream) :
    step^[2 ^ k] s = ⟨s.state * (leap k).1 + (leap k).2⟩ := by
  induction k generalizing s with
  | zero => rfl
  | succ k ih =>
      rw [pow_succ, mul_two, iterate_add_apply, ih, ih]
      refine congrArg Stream.mk ?_
      simp only [leap]
      ring

/-- The multiplier is one modulo four and the increment is odd, and doubling the
number of steps keeps both facts one power of two further up. -/
theorem leap_form (k : Nat) :
    ∃ t u : BitVec 48, (leap k).1 = 1 + 2 ^ (k + 2) * t ∧ (leap k).2 = 2 ^ k * (2 * u + 1) := by
  induction k with
  | zero => exact ⟨0x177BB399B, 5, by decide, by decide⟩
  | succ k ih =>
      obtain ⟨t, u, ht, hu⟩ := ih
      refine ⟨t + 2 ^ (k + 1) * t * t, u + 2 ^ k * t * (2 * u + 1), ?_, ?_⟩
      · simp only [leap, ht]
        ring
      · simp only [leap, ht, hu]
        ring

/-- A power of two of steps adds an odd multiple of that power to the state. -/
theorem exists_iterate_step_two_pow (k : Nat) (s : Stream) :
    ∃ v, step^[2 ^ k] s = ⟨s.state + 2 ^ k * (2 * v + 1)⟩ := by
  obtain ⟨t, u, ht, hu⟩ := leap_form k
  refine ⟨2 * t * s.state + u, ?_⟩
  rw [iterate_step_two_pow, ht, hu]
  refine congrArg Stream.mk ?_
  ring

/-- Half a period complements the highest bit of the state. -/
theorem iterate_step_half (s : Stream) : step^[2 ^ 47] s = ⟨s.state + 2 ^ 47⟩ := by
  obtain ⟨v, hv⟩ := exists_iterate_step_two_pow 47 s
  have hwrap : (2 : BitVec 48) ^ 47 * 2 = 0 := by decide
  rw [hv, mul_add, ← mul_assoc, hwrap, zero_mul, zero_add, mul_one]

theorem iterate_step_period (s : Stream) : step^[2 ^ 48] s = s := by
  obtain ⟨v, hv⟩ := exists_iterate_step_two_pow 48 s
  have hwrap : (2 : BitVec 48) ^ 48 = 0 := by decide
  rw [hv, hwrap, zero_mul, add_zero]

/-! ## The orbit of a state -/

theorem minimalPeriod_step (s : Stream) : minimalPeriod step s = 2 ^ 48 := by
  have : Fact (Nat.Prime 2) := ⟨Nat.prime_two⟩
  apply minimalPeriod_eq_prime_pow
  · intro h
    have hstate : s.state + 2 ^ 47 = s.state :=
      congrArg Stream.state ((iterate_step_half s).symm.trans h)
    rw [add_eq_left] at hstate
    exact absurd hstate (by decide)
  · exact iterate_step_period s

/-- A stream stands for the number of its state. -/
def equivFin : Stream ≃ Fin (2 ^ 48) where
  toFun s := s.state.toFin
  invFun i := ⟨.ofFin i⟩
  left_inv _ := rfl
  right_inv _ := rfl

/-- Every stream is reached from every other one within a period. -/
theorem exists_iterate_step (s t : Stream) : ∃ n < 2 ^ 48, step^[n] s = t := by
  let visit (i : Fin (2 ^ 48)) : Stream := step^[i] s
  have hinj : Injective visit := by
    intro i j h
    apply Fin.ext
    exact (iterate_eq_iterate_iff_of_lt_minimalPeriod (by rw [minimalPeriod_step]; exact i.isLt)
      (by rw [minimalPeriod_step]; exact j.isLt)).1 h
  -- the streams visited in one period are different, and there are no more streams
  have : Finite Stream := .of_equiv _ equivFin.symm
  have hcard : Nat.card (Fin (2 ^ 48)) = Nat.card Stream := (Nat.card_congr equivFin).symm
  obtain ⟨i, hi⟩ := ((Nat.bijective_iff_injective_and_card visit).2 ⟨hinj, hcard⟩).2 t
  exact ⟨i, i.isLt, hi⟩

/-! ## The end of a draw with rejection -/

/-- The search finds the first fitting draw whatever its fuel, if that is enough
to come there. -/
theorem firstFitting_eq {bound : Int32} {n : Nat} {s : Stream}
    (hfits : fits bound ((step^[n + 1] s).top 31)) (hfirst : ∀ m < n,
      fits bound ((step^[m + 1] s).top 31) = false) {fuel : Nat} (hfuel : n < fuel) :
    firstFitting bound fuel s =
      some ((step^[n + 1] s).top 31 % bound, step^[n + 1] s) := by
  induction fuel generalizing n s with
  | zero => omega
  | succ fuel ih =>
      rw [firstFitting_succ]
      cases n with
      | zero =>
          rw [zero_add, iterate_one] at hfits ⊢
          rw [if_pos hfits]
      | succ n =>
          have hhead := hfirst 0 (Nat.succ_pos n)
          rw [zero_add, iterate_one] at hhead
          rw [if_neg (Bool.eq_false_iff.1 hhead), iterate_succ_apply]
          rw [iterate_succ_apply] at hfits
          refine ih hfits (fun m hm => ?_) (Nat.lt_of_succ_lt_succ hfuel)
          rw [← iterate_succ_apply]
          exact hfirst (m + 1) (Nat.succ_lt_succ hm)

/-- A draw of zero lies in the first block, which every bound has. -/
theorem fits_zero {bound : Int32} (hb : 0 < bound) : fits bound 0 := by
  have hmod : (0 : Int32) % bound = 0 := by simp
  have hzero : (0 : Int32).toInt = 0 := Int32.toInt_zero
  have hsum : (bound - 1).toInt = bound.toInt - 1 := toInt_sub_one hb
  rw [Int32.lt_iff_toInt_lt] at hb
  rw [fits, hmod, Int32.sub_self, Int32.zero_add, decide_eq_true_eq, Int32.le_iff_toInt_le]
  omega

/-- Among the next `2 ^ 48` draws there is one that fits, for every state and
every positive bound, and with it a first one. The search ends there with any
fuel that reaches it, so a bounded draw always has the value of an accepted draw
and the stream right after that draw. -/
theorem bounded_reaches_accepted_draw {bound : Int32} (hb : 0 < bound) (s : Stream) :
    ∃ n < 2 ^ 48, fits bound ((step^[n + 1] s).top 31) = true ∧
      (∀ m < n, fits bound ((step^[m + 1] s).top 31) = false) ∧
      (∀ fuel, n < fuel → firstFitting bound fuel s =
        some ((step^[n + 1] s).top 31 % bound, step^[n + 1] s)) ∧
      s.bounded bound =
        if bound &&& -bound = bound then (scaled bound (s.step.top 31), s.step)
        else ((step^[n + 1] s).top 31 % bound, step^[n + 1] s) := by
  obtain ⟨k, hk, hzero⟩ := exists_iterate_step s.step ⟨0⟩
  have hreached : ∃ n, fits bound ((step^[n + 1] s).top 31) = true := by
    refine ⟨k, ?_⟩
    rw [iterate_succ_apply, hzero]
    exact fits_zero hb
  have hfits := Nat.find_spec hreached
  have hlt : Nat.find hreached < 2 ^ 48 := by
    refine (Nat.find_min' hreached ?_).trans_lt hk
    rw [iterate_succ_apply, hzero]
    exact fits_zero hb
  have hfirst (m : Nat) (hm : m < Nat.find hreached) :
      fits bound ((step^[m + 1] s).top 31) = false :=
    Bool.eq_false_iff.2 (Nat.find_min hreached hm)
  have hperiod : period = 2 ^ 48 := rfl
  refine ⟨_, hlt, hfits, hfirst, fun fuel hfuel => firstFitting_eq hfits hfirst hfuel, ?_⟩
  rw [bounded, if_neg (Int32.not_le.2 hb), hperiod, firstFitting_eq hfits hfirst hlt,
    Option.getD_some]

/-- Just above a power of two almost half of the draws are rejected, here the first six. -/
theorem six_rejected_draws_reach_accepted_draw :
    (0 : Int32) < 1073741825 ∧
      (∀ m < 6, fits 1073741825 ((step^[m + 1] (ofSeed 16)).top 31) = false) ∧
      ∃ n < 2 ^ 48, fits 1073741825 ((step^[n + 1] (ofSeed 16)).top 31) = true ∧
        (ofSeed 16).bounded 1073741825 =
          ((step^[n + 1] (ofSeed 16)).top 31 % 1073741825, step^[n + 1] (ofSeed 16)) := by
  refine ⟨by decide, by decide, ?_⟩
  obtain ⟨n, hn, hfits, -, -, hvalue⟩ :=
    bounded_reaches_accepted_draw (show (0 : Int32) < 1073741825 by decide) (ofSeed 16)
  exact ⟨n, hn, hfits, hvalue.trans (if_neg (by decide))⟩

end Stream

end VoxelFeatures
