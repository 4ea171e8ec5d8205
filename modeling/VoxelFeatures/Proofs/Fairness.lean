import Mathlib.Data.Set.Card
import VoxelFeatures.Proofs.Period

/-!
# Bounded draws are fair

A 31-bit draw is accepted or rejected, and an accepted one stands for a number
below the bound. A power of two accepts every draw and takes the share of the
bound that the draw is of all draws. Any other bound accepts the draws in
complete blocks and takes the place of the draw in its block; the wrapped sum
that is tested turns negative exactly from the end of the last complete block on.
Either way the draws of one number form an arithmetic progression, and all these
progressions have the same length.
-/

namespace VoxelFeatures

namespace Stream

open Function

/-- The number below a bound that a 31-bit draw stands for, if the draw is
accepted. -/
def reduce? (bound u : Int32) : Option Int32 :=
  if bound &&& -bound = bound then some (scaled bound u)
  else if fits bound u then some (u % bound) else none

/-! ## Powers of two -/

theorem and_not_eq_self_iff (x y : BitVec 32) : x &&& ~~~y = x ↔ x &&& y = 0#32 := by
  constructor
  · intro h
    rw [← h, BitVec.and_assoc, BitVec.not_and_self]
    exact BitVec.and_zero
  · intro h
    ext i hi
    have hbit := congrArg (·[i]) h
    simp only [BitVec.getElem_and, BitVec.getElem_not, BitVec.getElem_zero] at hbit ⊢
    grind

/-- A positive word is its own lowest bit exactly if it is a power of two. -/
theorem and_neg_eq_self_iff {bound : Int32} (hb : 0 < bound) :
    bound &&& -bound = bound ↔ bound.toInt.toNat.isPowerOfTwo := by
  have hzero : (0 : Int32).toInt = 0 := Int32.toInt_zero
  have hpos := Int32.lt_iff_toInt_lt.1 hb
  have hnat : bound.toBitVec.toNat = bound.toInt.toNat := by
    have hword := BitVec.toInt_eq_toNat_cond bound.toBitVec
    rw [Int32.toInt_toBitVec] at hword
    split at hword <;> omega
  have hless : (bound.toBitVec - 1#32).toNat = bound.toBitVec.toNat - 1 := by
    rw [BitVec.toNat_sub_of_le]
    · rfl
    · rw [BitVec.le_def, hnat]
      change 1 ≤ _
      omega
  rw [← Int32.toBitVec_inj, Int32.toBitVec_and, Int32.toBitVec_neg, BitVec.neg_eq_not_add,
    ← BitVec.not_sub_one_eq_not_add_one, and_not_eq_self_iff, ← BitVec.toNat_inj, BitVec.toNat_and,
    hless, hnat, BitVec.toNat_zero, Nat.and_sub_one_eq_zero_iff_isPowerOfTwo (by omega)]

/-! ## Complete blocks -/

/-- The sign of the wrapped sum tells the draws before the end of the last
complete block from those after it. -/
theorem fits_iff {bound u : Int32} (hb : 0 < bound) (hu : 0 ≤ u) :
    fits bound u = true ↔ u.toInt < 2147483648 / bound.toInt * bound.toInt := by
  have hzero : (0 : Int32).toInt = 0 := Int32.toInt_zero
  have hone : (1 : Int32).toInt = 1 := Int32.toInt_one
  have hrange := toInt_range bound
  have hdraw := toInt_range u
  rw [Int32.lt_iff_toInt_lt] at hb
  rw [Int32.le_iff_toInt_le] at hu
  have hmod : u.toInt % bound.toInt = u.toInt - bound.toInt * (u.toInt / bound.toInt) :=
    Int.emod_def ..
  have hrest := Int.emod_nonneg u.toInt (b := bound.toInt) (by omega)
  have hless := Int.emod_lt_of_pos u.toInt (b := bound.toInt) (by omega)
  have hsum : (u - u % bound + (bound - 1)).toInt =
      (bound.toInt * (u.toInt / bound.toInt) + bound.toInt - 1).bmod 4294967296 := by
    rw [Int32.toInt_add, Int32.toInt_sub, Int32.toInt_sub, Int32.toInt_mod, hone,
      Int.tmod_eq_emod_of_nonneg (by omega), hmod]
    simp only [Int.bmod]
    omega
  have hblock : bound.toInt * (u.toInt / bound.toInt) + bound.toInt ≤ 2147483648 ↔
      u.toInt < 2147483648 / bound.toInt * bound.toInt := by
    rw [← Int.ediv_lt_iff_lt_mul (by omega), ← Int.add_one_le_iff,
      Int.le_ediv_iff_mul_le (by omega), Int.add_mul, Int.one_mul, Int.mul_comm bound.toInt]
  rw [fits, decide_eq_true_eq, Int32.le_iff_toInt_le, hzero, hsum, ← hblock]
  simp only [Int.bmod]
  omega

/-! ## Reductions -/

theorem toInt_mod_of_nonneg {bound u : Int32} (hu : 0 ≤ u) :
    (u % bound).toInt = u.toInt % bound.toInt := by
  rw [Int32.toInt_mod]
  exact Int.tmod_eq_emod_of_nonneg (Int32.le_iff_toInt_le.1 hu)

/-- A power of two takes its share of every draw, and any other bound the place in
its block of the draws in complete blocks. -/
theorem reduce?_eq {bound u : Int32} (hb : 0 < bound) (hu : 0 ≤ u) :
    (reduce? bound u).map Int32.toInt =
      if bound.toInt.toNat.isPowerOfTwo then some (u.toInt * bound.toInt / 2147483648)
      else if u.toInt < 2147483648 / bound.toInt * bound.toInt then
        some (u.toInt % bound.toInt)
      else none := by
  have hbound : 0 ≤ bound.toInt := Int32.le_iff_toInt_le.1 (Int32.le_of_lt hb)
  have hdraw : 0 ≤ u.toInt := Int32.le_iff_toInt_le.1 hu
  rw [reduce?]
  simp only [and_neg_eq_self_iff hb, fits_iff hb hu]
  split
  · rw [Option.map_some, toInt_scaled hbound hdraw, Int.mul_comm]
  · split
    · rw [Option.map_some, toInt_mod_of_nonneg hu]
    · rfl

/-- A bounded draw ends with the first draw that is accepted. -/
theorem exists_first_accepted {bound : Int32} (hb : 0 < bound) (s : Stream) :
    ∃ n, (∀ m < n, reduce? bound ((step^[m + 1] s).top 31) = none) ∧
      reduce? bound ((step^[n + 1] s).top 31) = some (s.bounded bound).1 ∧
      (s.bounded bound).2 = step^[n + 1] s := by
  rw [bounded, if_neg (Int32.not_le.2 hb)]
  split
  · rename_i hpower
    refine ⟨0, fun m hm => absurd hm (Nat.not_lt_zero m), ?_, rfl⟩
    rw [reduce?, if_pos hpower, zero_add, iterate_one]
  · rename_i hpower
    obtain ⟨k, hk, hzero⟩ := exists_iterate_step s.step ⟨0⟩
    have hfits : fits bound ((step^[k + 1] s).top 31) = true := by
      rw [iterate_succ_apply, hzero]
      exact fits_zero hb
    have hreached : ∃ n, fits bound ((step^[n + 1] s).top 31) = true := ⟨k, hfits⟩
    have hfound := Nat.find_spec hreached
    have hfirst (m : Nat) (hm : m < Nat.find hreached) :
        fits bound ((step^[m + 1] s).top 31) = false :=
      Bool.eq_false_iff.2 (Nat.find_min hreached hm)
    have hperiod : period = 2 ^ 48 := rfl
    have hfuel : Nat.find hreached < period := by
      rw [hperiod]
      exact (Nat.find_min' hreached hfits).trans_lt hk
    rw [firstFitting_eq hfound hfirst hfuel, Option.getD_some]
    refine ⟨Nat.find hreached, fun m hm => ?_, ?_, rfl⟩
    · rw [reduce?, if_neg hpower, if_neg (Bool.eq_false_iff.1 (hfirst m hm))]
    · rw [reduce?, if_neg hpower, if_pos hfound]

/-! ## Counting draws -/

/-- The number of draws in an arithmetic progression. -/
theorem ncard_progression {start stride n : Nat} (hstride : 0 < stride)
    (hword : ∀ k < n, start + stride * k < 2147483648) :
    {u : Int32 | ∃ k < n, u.toInt = (start + stride * k : Nat)}.ncard = n := by
  have hvalue (k : Nat) (hk : k < n) :
      (Int32.ofNat (start + stride * k)).toInt = (start + stride * k : Nat) :=
    Int32.toInt_ofNat_of_lt (hword k hk)
  refine Set.ncard_eq_of_bijective (fun k _ => Int32.ofNat (start + stride * k)) ?_ ?_ ?_
  · rintro u ⟨k, hk, hu⟩
    exact ⟨k, hk, Int32.toInt_inj.1 ((hvalue k hk).trans hu.symm)⟩
  · intro k hk
    exact ⟨k, hk, hvalue k hk⟩
  · intro i j hi hj heq
    have hsum : start + stride * i = start + stride * j :=
      Int.ofNat_inj.1 ((hvalue i hi).symm.trans ((congrArg Int32.toInt heq).trans (hvalue j hj)))
    exact Nat.eq_of_mul_eq_mul_left hstride (Nat.add_left_cancel hsum)

/-- The draws that scale down to one number follow each other. -/
theorem share_eq_iff {u r q b : Nat} (hq : q * b = 2147483648) :
    u * b / 2147483648 = r ↔ ∃ k < q, u = r * q + 1 * k := by
  have hb : 0 < b := Nat.pos_of_mul_pos_left (by omega : 0 < q * b)
  have hpos : 0 < q := Nat.pos_of_mul_pos_right (by omega : 0 < q * b)
  rw [← hq, Nat.mul_div_mul_right _ _ hb, Nat.div_eq_iff hpos]
  constructor
  · intro ⟨hlow, hhigh⟩
    exact ⟨u - r * q, by omega, by omega⟩
  · rintro ⟨k, hk, rfl⟩
    omega

/-- The draws that have one place in their blocks are one block apart. -/
theorem place_eq_iff {u r q b : Nat} (hr : r < b) :
    u < q * b ∧ u % b = r ↔ ∃ k < q, u = r + b * k := by
  have hdiv : u < q * b ↔ u / b < q := (Nat.div_lt_iff_lt_mul (by omega)).symm
  rw [hdiv]
  constructor
  · rintro ⟨hu, rfl⟩
    exact ⟨u / b, hu, (Nat.mod_add_div u b).symm⟩
  · rintro ⟨k, hk, rfl⟩
    rw [Nat.add_mul_div_left _ _ (by omega), Nat.add_mul_mod_self_left, Nat.mod_eq_of_lt hr,
      Nat.div_eq_of_lt hr, Nat.zero_add]
    exact ⟨hk, rfl⟩

theorem div_mul_cancel_of_isPowerOfTwo {b : Nat} (hb : b.isPowerOfTwo) (hle : b ≤ 2147483648) :
    2147483648 / b * b = 2147483648 := by
  obtain ⟨k, rfl⟩ := hb
  have hword : 2147483648 = 2 ^ 31 := by norm_num
  rw [hword] at hle ⊢
  exact Nat.div_mul_cancel (Nat.pow_dvd_pow 2 ((Nat.pow_le_pow_iff_right (by decide)).1 hle))

theorem reduce?_eq_some_iff {bound u r : Int32} {b n d : Nat} (hb : bound.toInt = b)
    (hu : u.toInt = n) (hr : r.toInt = d) (hpos : 0 < b) :
    reduce? bound u = some r ↔
      if b.isPowerOfTwo then n * b / 2147483648 = d
      else n < 2147483648 / b * b ∧ n % b = d := by
  have hzero : (0 : Int32).toInt = 0 := Int32.toInt_zero
  have hbound : 0 < bound := by
    rw [Int32.lt_iff_toInt_lt]
    omega
  have hdraw : 0 ≤ u := by
    rw [Int32.le_iff_toInt_le]
    omega
  have hmap : reduce? bound u = some r ↔ (reduce? bound u).map Int32.toInt = some (d : Int) := by
    rw [← hr]
    cases reduce? bound u <;> simp [Int32.toInt_inj]
  rw [hmap, reduce?_eq hbound hdraw, hb, hu, Int.toNat_natCast]
  norm_cast
  split
  · rw [Option.some_inj, Int.ofNat_inj]
  · split
    · rw [Option.some_inj, and_iff_right ‹_›]
      norm_cast
    · rename_i hn
      simp [hn]

/-- Every number below the bound has the same number of draws. -/
theorem ncard_reduce? {bound r : Int32} (hr : 0 ≤ r ∧ r < bound) :
    {u : Int32 | 0 ≤ u ∧ reduce? bound u = some r}.ncard = 2147483648 / bound.toInt.toNat := by
  have hzero : (0 : Int32).toInt = 0 := Int32.toInt_zero
  have hrange := toInt_range bound
  rw [Int32.le_iff_toInt_le, Int32.lt_iff_toInt_lt, hzero] at hr
  obtain ⟨b, hb⟩ := Int.eq_ofNat_of_zero_le (a := bound.toInt) (by omega)
  obtain ⟨d, hd⟩ := Int.eq_ofNat_of_zero_le hr.1
  have hpos : d < b := by omega
  have hlast : 2147483648 / b * b ≤ 2147483648 := Nat.div_mul_le_self 2147483648 b
  rw [hb, Int.toNat_natCast]
  -- the draws of `r` form an arithmetic progression, either way
  obtain ⟨start, stride, hstride, hdraws⟩ : ∃ start stride : Nat, 0 < stride ∧
      ∀ n : Nat, (n < 2147483648 ∧ if b.isPowerOfTwo then n * b / 2147483648 = d
        else n < 2147483648 / b * b ∧ n % b = d) ↔
          ∃ k < 2147483648 / b, n = start + stride * k := by
    split
    · rename_i hpower
      have hfull := div_mul_cancel_of_isPowerOfTwo hpower (by omega)
      refine ⟨d * (2147483648 / b), 1, Nat.one_pos, fun n => ?_⟩
      rw [← share_eq_iff hfull]
      refine and_iff_right_of_imp fun hn => ?_
      obtain ⟨k, hk, rfl⟩ := (share_eq_iff hfull).1 hn
      calc d * (2147483648 / b) + 1 * k < d * (2147483648 / b) + 2147483648 / b := by omega
        _ = (d + 1) * (2147483648 / b) := (Nat.succ_mul d _).symm
        _ ≤ b * (2147483648 / b) := Nat.mul_le_mul_right _ hpos
        _ = 2147483648 := by rw [Nat.mul_comm, hfull]
    · exact ⟨d, b, by omega, fun n => by rw [← place_eq_iff hpos]; omega⟩
  have hword : ∀ k < 2147483648 / b, start + stride * k < 2147483648 :=
    fun k hk => ((hdraws _).2 ⟨k, hk, rfl⟩).1
  rw [← ncard_progression hstride hword]
  refine congrArg Set.ncard (Set.ext fun u => ?_)
  change 0 ≤ u ∧ reduce? bound u = some r ↔
    ∃ k < 2147483648 / b, u.toInt = (start + stride * k : Nat)
  constructor
  · rintro ⟨hu, hreduced⟩
    rw [Int32.le_iff_toInt_le, hzero] at hu
    obtain ⟨n, hn⟩ := Int.eq_ofNat_of_zero_le hu
    have hdraw := toInt_range u
    obtain ⟨k, hk, hsum⟩ := (hdraws n).1
      ⟨by omega, (reduce?_eq_some_iff hb hn hd (by omega)).1 hreduced⟩
    exact ⟨k, hk, by rw [hn, hsum]⟩
  · rintro ⟨k, hk, hu⟩
    refine ⟨?_, (reduce?_eq_some_iff hb hu hd (by omega)).2 ((hdraws _).2 ⟨k, hk, rfl⟩).2⟩
    rw [Int32.le_iff_toInt_le]
    omega

/-- A 31-bit draw is never negative. A bounded draw is the number of the first
accepted one, and ends right after it. A power of two accepts every draw; any other
bound rejects exactly the draws beyond its last complete block. Every number below
the bound has the same number of accepted draws. -/
theorem bounded_is_fair {bound : Int32} (hb : 0 < bound) (s : Stream) :
    (∀ t : Stream, 0 ≤ t.top 31) ∧
    (∃ n, (∀ m < n, reduce? bound ((step^[m + 1] s).top 31) = none) ∧
      reduce? bound ((step^[n + 1] s).top 31) = some (s.bounded bound).1 ∧
      (s.bounded bound).2 = step^[n + 1] s) ∧
    (∀ u : Int32, 0 ≤ u → (reduce? bound u).map Int32.toInt =
      if bound.toInt.toNat.isPowerOfTwo then some (u.toInt * bound.toInt / 2147483648)
      else if u.toInt < 2147483648 / bound.toInt * bound.toInt then
        some (u.toInt % bound.toInt)
      else none) ∧
    (∀ u : Int32, 0 ≤ u →
      (fits bound u = false ↔ 2147483648 / bound.toInt * bound.toInt ≤ u.toInt)) ∧
    (0 ≤ (s.bounded bound).1 ∧ (s.bounded bound).1 < bound) ∧
    ∀ r, 0 ≤ r → r < bound →
      {u : Int32 | 0 ≤ u ∧ reduce? bound u = some r}.ncard =
        2147483648 / bound.toInt.toNat := by
  refine ⟨fun t => Int32.le_iff_toInt_le.2 t.top_31_range.1, exists_first_accepted hb s,
    fun u hu => reduce?_eq hb hu, fun u hu => ?_, bounded_range hb s,
    fun r hlow hhigh => ncard_reduce? ⟨hlow, hhigh⟩⟩
  rw [← Int.not_lt, ← fits_iff hb hu, Bool.not_eq_true]

/-- Each side of a die has the same number of draws. -/
theorem die_is_fair :
    (0 : Int32) < 6 ∧ 0 ≤ ((ofSeed 0).bounded 6).1 ∧ ((ofSeed 0).bounded 6).1 < 6 ∧
      {u : Int32 | 0 ≤ u ∧ reduce? 6 u = some 5}.ncard = 357913941 := by
  have hsix : (0 : Int32) < 6 := by decide
  obtain ⟨-, -, -, -, ⟨hlow, hhigh⟩, hcount⟩ := bounded_is_fair hsix (ofSeed 0)
  exact ⟨hsix, hlow, hhigh, hcount 5 (by decide) (by decide)⟩

end Stream

end VoxelFeatures
