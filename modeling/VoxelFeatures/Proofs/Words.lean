/-!
# Words as integers

What the wrapping operations on coordinates and draws are on the integers: which
sums wrap, how words count up, and how their order bounds absolute values.
-/

namespace VoxelFeatures

theorem toInt_range (a : Int32) : -2147483648 ≤ a.toInt ∧ a.toInt < 2147483648 :=
  ⟨a.le_toInt, a.toInt_lt⟩

/-- A sum of words is the sum of the integers, up to one turn. -/
theorem toInt_add_cases (a b : Int32) :
    (a + b).toInt = a.toInt + b.toInt ∨ (a + b).toInt = a.toInt + b.toInt - 4294967296 ∨
      (a + b).toInt = a.toInt + b.toInt + 4294967296 := by
  have ha := toInt_range a
  have hb := toInt_range b
  rw [Int32.toInt_add]
  simp only [Int.bmod]
  omega

theorem toInt_add_of_fits {a b : Int32} (hlow : -2147483648 ≤ a.toInt + b.toInt)
    (hhigh : a.toInt + b.toInt < 2147483648) : (a + b).toInt = a.toInt + b.toInt := by
  rw [Int32.toInt_add]
  exact Int.bmod_eq_of_le (by omega) (by omega)

theorem toInt_sub_one_of_lt {a : Int32} (ha : -2147483648 < a.toInt) :
    (a - 1).toInt = a.toInt - 1 := by
  have hone : (1 : Int32).toInt = 1 := Int32.toInt_one
  have hrange := toInt_range a
  rw [Int32.toInt_sub, hone]
  exact Int.bmod_eq_of_le (by omega) (by omega)

theorem toInt_sub_one {a : Int32} (ha : 0 < a) : (a - 1).toInt = a.toInt - 1 := by
  have hzero : (0 : Int32).toInt = 0 := Int32.toInt_zero
  rw [Int32.lt_iff_toInt_lt] at ha
  exact toInt_sub_one_of_lt (by omega)

theorem toInt_add_one {a : Int32} (ha : a.toInt + 1 < 2147483648) :
    (a + 1).toInt = a.toInt + 1 := by
  have hone : (1 : Int32).toInt = 1 := Int32.toInt_one
  have hrange := toInt_range a
  rw [Int32.toInt_add, hone]
  exact Int.bmod_eq_of_le (by omega) (by omega)

/-- A step up or none does not lead to the cell below, whether it wraps or not. -/
theorem add_ne_sub_one {a d : Int32} (hd : 0 ≤ d) : a + d ≠ a - 1 := by
  intro hsame
  rw [Int32.sub_eq_add_neg, Int32.add_right_inj] at hsame
  exact absurd (hsame ▸ hd) (by decide)

theorem ofNat_succ (n : Nat) : Int32.ofNat (n + 1) = .ofNat n + 1 :=
  Int32.ofNat_add n 1

theorem ofNat_succ_sub_one (n : Nat) : Int32.ofNat (n + 1) - 1 = .ofNat n := by
  rw [ofNat_succ, Int32.add_sub_cancel]

theorem one_le_ofNat_succ {n : Nat} (hn : n + 1 < 2147483648) : (1 : Int32) ≤ .ofNat (n + 1) := by
  rw [Int32.le_iff_toInt_le, Int32.toInt_ofNat_of_lt hn]
  exact Int.ofNat_le.2 (Nat.succ_pos n)

theorem lt_ofNat_succ_iff {n : Nat} (hn : n + 1 < 2147483648) {y : Int32} :
    y < .ofNat (n + 1) ↔ y ≤ .ofNat n := by
  rw [Int32.lt_iff_toInt_lt, Int32.le_iff_toInt_le, Int32.toInt_ofNat_of_lt hn,
    Int32.toInt_ofNat_of_lt (Nat.lt_of_succ_lt hn)]
  omega

theorem natAbs_toInt_le {d k : Int32} (hlow : -k ≤ d) (hhigh : d ≤ k) :
    d.toInt.natAbs ≤ k.toInt.natAbs := by
  have hk := toInt_range k
  rw [Int32.le_iff_toInt_le] at hlow hhigh
  rw [Int32.toInt_neg] at hlow
  simp only [Int.bmod] at hlow
  omega

theorem natAbs_toInt_mono {s k : Int32} (hs : 0 ≤ s) (hk : s ≤ k) :
    s.toInt.natAbs ≤ k.toInt.natAbs := by
  have hzero : (0 : Int32).toInt = 0 := Int32.toInt_zero
  rw [Int32.le_iff_toInt_le] at hs hk
  omega

end VoxelFeatures
