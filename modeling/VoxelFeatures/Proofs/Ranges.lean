import VoxelFeatures.Proofs.Fairness
import VoxelFeatures.Proofs.Seeds

/-!
# Draws from a range

A draw from a range is a bounded draw above its first number, and the bound is the count of its
numbers. The count is a word. A range of `2 ^ 31` numbers or more has a count that wraps to zero
or below, and it gives its first number without a draw; a shorter one draws one of its numbers.
Either way the result lies in the range.

An empty range has no positive count, so it gives its first number without a draw as well. But
its count wraps too: it is positive again if the ends are more than `2 ^ 31 + 1` apart, and then a
draw is made for a range without numbers. `range_eq_first_iff` tells which ranges make a draw: a
draw always moves the stream, for it never takes a whole period.
-/

namespace VoxelFeatures

namespace Stream

open Function

/-- A draw of zero is accepted whatever the bound. -/
theorem reduce?_zero_ne_none {bound : Int32} (hb : 0 < bound) : reduce? bound 0 ≠ none := by
  rw [reduce?]
  split
  · exact Option.some_ne_none _
  · rw [if_pos (fits_zero hb)]
    exact Option.some_ne_none _

/-- A draw below a positive bound moves the stream. More than one state has high bits of zero,
so a draw is accepted before the stream is back where it was. -/
theorem bounded_snd_ne {bound : Int32} (hb : 0 < bound) (s : Stream) :
    (s.bounded bound).2 ≠ s := by
  obtain ⟨n, hfirst, -, hlast⟩ := exists_first_accepted hb s
  -- the search ends no later than at a state with high bits of zero
  have hle (t : Stream) (ht : t.top 31 = 0) : ∃ k < 2 ^ 48, n ≤ k ∧ step^[k] s.step = t := by
    obtain ⟨k, hk, hreached⟩ := exists_iterate_step s.step t
    refine ⟨k, hk, ?_, hreached⟩
    by_contra hlt
    have hrejected := hfirst k (by omega)
    rw [iterate_succ_apply, hreached, ht] at hrejected
    exact reduce?_zero_ne_none hb hrejected
  obtain ⟨i, hi, hni, hreached⟩ := hle ⟨0⟩ (by decide)
  obtain ⟨j, hj, hnj, hreached'⟩ := hle ⟨1⟩ (by decide)
  have hne : i ≠ j := by
    rintro rfl
    rw [hreached] at hreached'
    exact absurd hreached' (by decide)
  rw [hlast, ne_eq, iterate_step_eq_self_iff]
  omega

variable {first last : Int32}

theorem range_fst (s : Stream) :
    (s.range first last).1 = first + (s.bounded (last - first + 1)).1 := rfl

theorem range_snd (s : Stream) :
    (s.range first last).2 = (s.bounded (last - first + 1)).2 := rfl

/-- A range gives its first number without a draw exactly if its count is not positive. -/
theorem range_eq_first_iff (s : Stream) :
    s.range first last = (first, s) ↔ last - first + 1 ≤ 0 := by
  constructor
  · intro h
    by_contra hcount
    have hmoved := bounded_snd_ne (Int32.not_le.1 hcount) s
    rw [← range_snd, h] at hmoved
    exact hmoved rfl
  · intro hcount
    rw [Prod.ext_iff, range_fst, range_snd, bounded_of_not_pos hcount, Int32.add_zero]
    exact ⟨rfl, rfl⟩

/-- The count of a range as a word is the count of its numbers, up to one turn. -/
theorem toInt_count (first last : Int32) :
    (last - first + 1).toInt = (last.toInt - first.toInt + 1).bmod 4294967296 := by
  rw [Int32.toInt_add, Int32.toInt_sub, Int32.toInt_one, Int.bmod_add_bmod]

/-- The count is not positive in an empty range whose ends are not too far apart, and in a range
with more numbers than a word counts. -/
theorem count_le_zero_iff :
    last - first + 1 ≤ 0 ↔
      2147483647 ≤ last.toInt - first.toInt ∨
        last < first ∧ first.toInt - last.toInt ≤ 2147483649 := by
  have hfirst := toInt_range first
  have hlast := toInt_range last
  rw [Int32.le_iff_toInt_le, Int32.lt_iff_toInt_lt, toInt_count, Int32.toInt_zero]
  simp only [Int.bmod]
  omega

theorem range_mem (hle : first ≤ last) (s : Stream) :
    first ≤ (s.range first last).1 ∧ (s.range first last).1 ≤ last := by
  by_cases hcount : last - first + 1 ≤ 0
  · rw [(range_eq_first_iff s).2 hcount]
    exact ⟨Int32.le_refl first, hle⟩
  · have hfirst := toInt_range first
    have hlast := toInt_range last
    obtain ⟨hlow, hhigh⟩ := bounded_range (Int32.not_le.1 hcount) s
    rw [count_le_zero_iff, not_or] at hcount
    rw [Int32.le_iff_toInt_le] at hle
    rw [Int32.le_iff_toInt_le, Int32.toInt_zero] at hlow
    have hword : (last - first + 1).toInt = last.toInt - first.toInt + 1 := by
      rw [toInt_count]
      exact Int.bmod_eq_of_le (by omega) (by omega)
    rw [Int32.lt_iff_toInt_lt, hword] at hhigh
    rw [range_fst, Int32.le_iff_toInt_le, Int32.le_iff_toInt_le,
      toInt_add_of_fits (by omega) (by omega)]
    omega

/-- A draw from a range is one of its numbers, whether or not a word counts them. A draw from an
empty range gives the first number and leaves the stream alone exactly if the ends are at most
`2 ^ 31 + 1` apart. -/
theorem range_in_ends_or_first (first last : Int32) (s : Stream) :
    (first ≤ last → first ≤ (s.range first last).1 ∧ (s.range first last).1 ≤ last) ∧
      (last < first →
        (s.range first last = (first, s) ↔ first.toInt - last.toInt ≤ 2147483649)) := by
  refine ⟨fun hle => range_mem hle s, fun hlt => ?_⟩
  rw [range_eq_first_iff, count_le_zero_iff, and_iff_right hlt]
  rw [Int32.lt_iff_toInt_lt] at hlt
  omega

/-- The range of all words, and an empty range whose ends are as far apart as they may be. -/
theorem ranges_at_word_limits :
    ((-2147483648 : Int32) ≤ 2147483647 ∧
      -2147483648 ≤ ((ofSeed 0).range (-2147483648) 2147483647).1 ∧
      ((ofSeed 0).range (-2147483648) 2147483647).1 ≤ 2147483647) ∧
    (-2 : Int32) < 2147483647 ∧ (ofSeed 0).range 2147483647 (-2) = (2147483647, ofSeed 0) := by
  refine ⟨⟨by decide, (range_in_ends_or_first _ _ _).1 (by decide)⟩, by decide, ?_⟩
  exact ((range_in_ends_or_first _ _ _).2 (by decide)).2 (by decide)

/-- The count of the empty range from the greatest word to the least one wraps to two. A number
is drawn, the stream moves on, and the sum wraps to the least word. -/
theorem empty_range_of_all_words_draws :
    (-2147483648 : Int32) < 2147483647 ∧
      (ofSeed 0).range 2147483647 (-2147483648) = (-2147483648, (ofSeed 0).step) ∧
      (ofSeed 0).step ≠ ofSeed 0 := by
  decide

end Stream

end VoxelFeatures
