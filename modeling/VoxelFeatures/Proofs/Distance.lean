import VoxelFeatures.Grid.Face
import VoxelFeatures.Grid.Span
import VoxelFeatures.Proofs.Words

/-!
# Distances on the grid

Coordinates wrap, so a cell is near another one also across the ends of the
words. `gap` is the distance of two words the shorter way around. It is a
metric, and moving by `d` moves at most by the absolute value of `d`, whether
the sum wraps or not. `p.Near r q` says that the column of `q` is within `r` of
the column of `p` along both axes; heights do not matter.

The walks of the library stay near the cell that they are laid around: a span
that wraps is empty.
-/

namespace VoxelFeatures

/-! ## Coordinates -/

/-- The distance of two words, the shorter way around. -/
def gap (a b : Int32) : Nat := (b - a).toInt.natAbs

@[simp] theorem gap_self (a : Int32) : gap a a = 0 := by
  simp [gap]

theorem gap_triangle (a b c : Int32) : gap a c ≤ gap a b + gap b c := by
  have hsum : (c - a).toInt = ((b - a) + (c - b)).toInt := congrArg Int32.toInt (by grind)
  have hcases := toInt_add_cases (b - a) (c - b)
  rw [← hsum] at hcases
  have hrange := toInt_range (c - a)
  rw [gap, gap, gap]
  omega

@[simp] theorem gap_add (a d : Int32) : gap a (a + d) = d.toInt.natAbs := by
  have hcancel : a + d - a = d := by grind
  rw [gap, hcancel]

@[simp] theorem gap_sub (a d : Int32) : gap a (a - d) = d.toInt.natAbs := by
  have hcancel : a - d - a = -d := by grind
  have hd := toInt_range d
  rw [gap, hcancel, Int32.toInt_neg]
  simp only [Int.bmod]
  omega

theorem gap_le {a b k : Int32} (hlow : -k ≤ b - a) (hhigh : b - a ≤ k) :
    gap a b ≤ k.toInt.natAbs :=
  natAbs_toInt_le hlow hhigh

/-- At some distance from the ends of the words the shorter way is the one of the
integers. -/
theorem toInt_sub_of_gap_le {a b : Int32} {r : Nat}
    (ha : -2147483648 + r ≤ a.toInt ∧ a.toInt + r < 2147483648) (hb : gap a b ≤ r) :
    (b - a).toInt = b.toInt - a.toInt := by
  have hsum : (a + (b - a)).toInt = b.toInt := congrArg Int32.toInt (by grind)
  have hcases := toInt_add_cases a (b - a)
  have hrange := toInt_range b
  rw [hsum] at hcases
  rw [gap] at hb
  omega

/-! ## Spans -/

namespace Span

theorem mem_listFrom {i x : Int32} {n : Nat} (h : i.toInt + n ≤ 2147483648) :
    x ∈ listFrom 1 i n ↔ i.toInt ≤ x.toInt ∧ x.toInt < i.toInt + n := by
  induction n generalizing i with
  | zero => simp [listFrom]
  | succ n ih =>
      rw [listFrom, List.mem_cons, ← Int32.toInt_inj]
      by_cases hn : n = 0
      · subst hn
        simp [listFrom]
        omega
      · have hnext : (i + 1).toInt = i.toInt + 1 := toInt_add_one (by omega)
        rw [ih (by omega), hnext]
        omega

/-- No word is in a closed span that wraps. -/
theorem mem_closed {a b x : Int32} : x ∈ (closed a b).toList ↔ a ≤ x ∧ x ≤ b := by
  have ha := toInt_range a
  have hb := toInt_range b
  have hn : a.toInt + (b.toInt - a.toInt + 1).toNat ≤ 2147483648 := by omega
  rw [toList, closed, mem_listFrom hn, Int32.le_iff_toInt_le, Int32.le_iff_toInt_le]
  omega

theorem mem_halfOpen {a b x : Int32} : x ∈ (halfOpen a b).toList ↔ a ≤ x ∧ x < b := by
  have ha := toInt_range a
  have hb := toInt_range b
  have hn : a.toInt + (b.toInt - a.toInt).toNat ≤ 2147483648 := by omega
  rw [toList, halfOpen, mem_listFrom hn, Int32.le_iff_toInt_le, Int32.lt_iff_toInt_lt]
  omega

/-- A closed span around `c` is known from the distances of its ends to `c`. -/
theorem sub_range_of_mem_closed {c a b x : Int32} (hab : a ≤ b)
    (hx : x ∈ (closed (c + a) (c + b)).toList) : a ≤ x - c ∧ x - c ≤ b := by
  have hlow := toInt_add_cases c a
  have hlowRange := toInt_range (c + a)
  have hhigh := toInt_add_cases c b
  have hhighRange := toInt_range (c + b)
  have hsum : (c + (x - c)).toInt = x.toInt := congrArg Int32.toInt (by grind)
  have hcases := toInt_add_cases c (x - c)
  rw [hsum] at hcases
  have hrange := toInt_range (x - c)
  have ha := toInt_range a
  have hb := toInt_range b
  rw [mem_closed, Int32.le_iff_toInt_le, Int32.le_iff_toInt_le] at hx
  rw [Int32.le_iff_toInt_le] at hab
  rw [Int32.le_iff_toInt_le, Int32.le_iff_toInt_le]
  -- if just one end wraps, then the span is empty; otherwise `x` wraps as both ends do
  omega

theorem sub_range_of_mem_around {c r x : Int32} (hr : 0 ≤ r) (hx : x ∈ (around c r).toList) :
    -r ≤ x - c ∧ x - c ≤ r := by
  rw [around, Int32.sub_eq_add_neg] at hx
  exact sub_range_of_mem_closed (by lia) hx

/-- The words of a span whose ends are small. -/
theorem natAbs_toInt_le_of_mem_closed {a b x : Int32} (k : Int32) (ha : -k ≤ a) (hb : b ≤ k)
    (hx : x ∈ (closed a b).toList) : x.toInt.natAbs ≤ k.toInt.natAbs := by
  rw [mem_closed] at hx
  exact natAbs_toInt_le (Int32.le_trans ha hx.1) (Int32.le_trans hx.2 hb)

end Span

/-! ## Columns -/

theorem Face.natAbs_delta_le (f : Face) :
    f.delta.x.toInt.natAbs ≤ 1 ∧ f.delta.z.toInt.natAbs ≤ 1 := by
  cases f <;> decide

namespace Pos

/-- The column of `q` is within `r` of the column of `p`. -/
def Near (r : Nat) (p q : Pos) : Prop := gap p.x q.x ≤ r ∧ gap p.z q.z ≤ r

variable {p c q : Pos} {r k : Nat}

@[simp] theorem near_self (r : Nat) (p : Pos) : p.Near r p := by
  simp [Near]

theorem Near.mono (h : p.Near r q) (hr : r ≤ k) : p.Near k q :=
  ⟨Nat.le_trans h.1 hr, Nat.le_trans h.2 hr⟩

theorem Near.trans (hc : p.Near r c) (hq : c.Near k q) : p.Near (r + k) q :=
  ⟨Nat.le_trans (gap_triangle ..) (Nat.add_le_add hc.1 hq.1),
    Nat.le_trans (gap_triangle ..) (Nat.add_le_add hc.2 hq.2)⟩

/-! Cells of one column are near the same cells, and the same cells are near them. -/

@[simp] theorem near_up (n : Int32) : p.Near r (q.up n) ↔ p.Near r q := Iff.rfl

@[simp] theorem near_down (n : Int32) : p.Near r (q.down n) ↔ p.Near r q := Iff.rfl

@[simp] theorem near_mk (y : Int32) : p.Near r ⟨q.x, y, q.z⟩ ↔ p.Near r q := Iff.rfl

@[simp] theorem up_near (n : Int32) : (p.up n).Near r = p.Near r := rfl

@[simp] theorem down_near (n : Int32) : (p.down n).Near r = p.Near r := rfl

@[simp] theorem mk_near (y : Int32) : Near r ⟨p.x, y, p.z⟩ = p.Near r := rfl

theorem near_congr (hx : q.x = p.x) (hz : q.z = p.z) : q.Near r = p.Near r := by
  funext u
  rw [Near, Near, hx, hz]

theorem near_shift (p : Pos) {dx dz : Int32} (dy : Int32) (hx : dx.toInt.natAbs ≤ r)
    (hz : dz.toInt.natAbs ≤ r) : p.Near r (p.shift dx dy dz) := by
  rw [Near, shift, gap_add, gap_add]
  exact ⟨hx, hz⟩

theorem near_east (p : Pos) {n : Int32} (hn : n.toInt.natAbs ≤ r) : p.Near r (p.east n) := by
  simpa [Near, east] using hn

theorem near_west (p : Pos) {n : Int32} (hn : n.toInt.natAbs ≤ r) : p.Near r (p.west n) := by
  simpa [Near, west] using hn

theorem near_south (p : Pos) {n : Int32} (hn : n.toInt.natAbs ≤ r) : p.Near r (p.south n) := by
  simpa [Near, south] using hn

theorem near_north (p : Pos) {n : Int32} (hn : n.toInt.natAbs ≤ r) : p.Near r (p.north n) := by
  simpa [Near, north] using hn

/-- The squares that walks are laid around a cell. -/
theorem near_of_mem_square {s k x z : Int32} (y : Int32) (hs : 0 ≤ s) (hk : s ≤ k)
    (hx : x ∈ (Span.around p.x s).toList) (hz : z ∈ (Span.around p.z s).toList) :
    p.Near k.toInt.natAbs ⟨x, y, z⟩ := by
  have hx := Span.sub_range_of_mem_around hs hx
  have hz := Span.sub_range_of_mem_around hs hz
  exact Near.mono ⟨gap_le hx.1 hx.2, gap_le hz.1 hz.2⟩ (natAbs_toInt_mono hs hk)

/-- The squares of offsets. -/
theorem near_shift_of_mem_square (p : Pos) {s k dx dz : Int32} (dy : Int32) (hs : 0 ≤ s)
    (hk : s ≤ k) (hx : dx ∈ (Span.around 0 s).toList) (hz : dz ∈ (Span.around 0 s).toList) :
    p.Near k.toInt.natAbs (p.shift dx dy dz) := by
  have hx := Span.sub_range_of_mem_around hs hx
  have hz := Span.sub_range_of_mem_around hs hz
  rw [Int32.sub_zero] at hx hz
  exact (p.near_shift dy (natAbs_toInt_le hx.1 hx.2) (natAbs_toInt_le hz.1 hz.2)).mono
    (natAbs_toInt_mono hs hk)

theorem near_add_delta (p : Pos) (f : Face) : p.Near 1 (p + f.delta) :=
  p.near_shift f.delta.y f.natAbs_delta_le.1 f.natAbs_delta_le.2

theorem near_offset (p : Pos) (f : Face) : p.Near 1 (p.offset f 1) := by
  cases f <;> exact p.near_shift _ (by decide) (by decide)

end Pos

end VoxelFeatures
