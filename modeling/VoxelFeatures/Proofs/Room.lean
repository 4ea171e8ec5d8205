import VoxelFeatures.Build.Walk
import VoxelFeatures.Proofs.Distance

/-!
# Room around an origin

A walk over coordinates is laid between two sums, and near the ends of the words
one of them may wrap; then the walk is empty. Where neither end wraps, the walk is
the one over the offsets, moved to the origin. So it takes the same steps around
every origin that has room for it.
-/

namespace VoxelFeatures

theorem add_sub_self (c d : Int32) : c + d - c = d := by
  grind

namespace Span

/-- The same walk from another word on. -/
def move (c : Int32) (s : Span) : Span := ⟨c + s.first, s.stride, s.size⟩

theorem listFrom_add (stride c i : Int32) (n : Nat) :
    listFrom stride (c + i) n = (listFrom stride i n).map (c + ·) := by
  induction n generalizing i with
  | zero => rfl
  | succ n ih => rw [listFrom, listFrom, List.map_cons, Int32.add_assoc, ih]

theorem toList_move (c : Int32) (s : Span) : (s.move c).toList = s.toList.map (c + ·) :=
  listFrom_add s.stride c s.first s.size

theorem listFrom_concat (stride i : Int32) (n : Nat) :
    listFrom stride i (n + 1) = listFrom stride i n ++ [i + stride * .ofNat n] := by
  induction n generalizing i with
  | zero =>
      have hzero : Int32.ofNat 0 = 0 := rfl
      simp [listFrom, hzero]
  | succ n ih =>
      have hlast : i + stride + stride * .ofNat n = i + stride * .ofNat (n + 1) := by
        rw [ofNat_succ]
        grind
      rw [listFrom, ih, hlast]
      rfl

theorem toList_reverse (s : Span) : s.reverse.toList = s.toList.reverse := by
  have hlist (stride i : Int32) (n : Nat) :
      listFrom (-stride) (i + stride * (.ofNat n - 1)) n = (listFrom stride i n).reverse := by
    induction n with
    | zero => rfl
    | succ n ih =>
        have hfirst : i + stride * (.ofNat (n + 1) - 1) = i + stride * .ofNat n := by
          rw [ofNat_succ_sub_one]
        have hnext : i + stride * .ofNat n + -stride = i + stride * (.ofNat n - 1) := by grind
        rw [hfirst, listFrom, hnext, ih, listFrom_concat, List.reverse_concat]
  exact hlist s.stride s.first s.size

section Walks

variable {m : Type → Type} [Monad m]

theorem forM_move [LawfulMonad m] (c : Int32) (s : Span) (f : Int32 → m Unit) :
    (s.move c).forM f = s.forM fun i => f (c + i) := by
  rw [forM_eq, forM_eq, toList_move, List.forM_eq_forM, List.forM_map]

theorem allM_move (c : Int32) (s : Span) (f : Int32 → m Bool) :
    (s.move c).allM f = s.allM fun i => f (c + i) := by
  have hlist (l : List Int32) : (l.map (c + ·)).allM f = l.allM fun i => f (c + i) := by
    induction l with
    | nil => rfl
    | cons i l ih => simp only [List.map_cons, List.allM, ih]
  rw [allM_eq, allM_eq, toList_move, hlist]

end Walks

/-- The ends of the span around `c` do not wrap. -/
structure Fits (c r : Int32) : Prop where
  low : (c - r).toInt = c.toInt - r.toInt
  high : (c + r).toInt = c.toInt + r.toInt

theorem Fits.mono {c r k : Int32} (h : Fits c k) (hr : 0 ≤ r) (hk : r ≤ k) : Fits c r := by
  have hzero : (0 : Int32).toInt = 0 := Int32.toInt_zero
  have hlow := h.low
  have hhigh := h.high
  have hfirst := toInt_range (c - k)
  have hlast := toInt_range (c + k)
  rw [Int32.le_iff_toInt_le] at hr hk
  constructor
  · rw [Int32.toInt_sub]
    exact Int.bmod_eq_of_le (by omega) (by omega)
  · rw [Int32.toInt_add]
    exact Int.bmod_eq_of_le (by omega) (by omega)

/-- The words around `c` stay within any wider span that fits. -/
theorem Fits.bounds_of_mem_around {c r k x : Int32} (h : Fits c k) (hr : 0 ≤ r) (hk : r ≤ k)
    (hx : x ∈ (around c r).toList) : c - k ≤ x ∧ x ≤ c + k := by
  have hnarrow := h.mono hr hk
  rw [Int32.le_iff_toInt_le] at hk
  rw [around, mem_closed, Int32.le_iff_toInt_le, Int32.le_iff_toInt_le, hnarrow.low,
    hnarrow.high] at hx
  rw [Int32.le_iff_toInt_le, Int32.le_iff_toInt_le, h.low, h.high]
  omega

theorem Fits.mem_around_self {c r : Int32} (h : Fits c r) (hr : 0 ≤ r) :
    c ∈ (around c r).toList := by
  have hzero : (0 : Int32).toInt = 0 := Int32.toInt_zero
  rw [Int32.le_iff_toInt_le, hzero] at hr
  rw [around, mem_closed, Int32.le_iff_toInt_le, Int32.le_iff_toInt_le, h.low, h.high]
  omega

/-- A closed span whose ends do not wrap is the one of its offsets. -/
theorem closed_add {c a b : Int32} (ha : (c + a).toInt = c.toInt + a.toInt)
    (hb : (c + b).toInt = c.toInt + b.toInt) : closed (c + a) (c + b) = (closed a b).move c := by
  have hlength : c.toInt + b.toInt - (c.toInt + a.toInt) = b.toInt - a.toInt := by omega
  rw [closed, closed, move, ha, hb, hlength]

theorem around_eq_move {c r : Int32} (h : Fits c r) : around c r = (around 0 r).move c := by
  have hzero : (0 : Int32).toInt = 0 := Int32.toInt_zero
  have hlow := h.low
  have hhigh := h.high
  have hr := toInt_range r
  have hfirst := toInt_range (c - r)
  have hlast := toInt_range (c + r)
  -- the least word fits around no other word, so the sign of a radius that fits can be changed
  have hneg : (0 - r).toInt = -r.toInt := by
    rw [Int32.toInt_sub, hzero, Int.zero_sub]
    exact Int.bmod_eq_of_le (by omega) (by omega)
  have hsum : c - r = c + (0 - r) := by grind
  rw [around, around, hsum, Int32.zero_add, closed_add]
  · rw [← hsum, hlow, hneg, Int.sub_eq_add_neg]
  · exact hhigh

end Span

/-- The square of radius `r` around a position does not wrap. -/
structure Pos.HasRoom (p : Pos) (r : Int32) : Prop where
  x : Span.Fits p.x r
  z : Span.Fits p.z r

theorem Pos.HasRoom.mono {p : Pos} {r k : Int32} (h : p.HasRoom k) (hr : 0 ≤ r) (hk : r ≤ k) :
    p.HasRoom r :=
  ⟨h.x.mono hr hk, h.z.mono hr hk⟩

namespace Build

variable {p : Pos} {r : Int32}

/-- A walk over a square of coordinates is one over offsets. -/
theorem forSquare_around (h : p.HasRoom r) (f : Int32 → Int32 → Build Unit) :
    forSquare (.around p.x r) (.around p.z r) f =
      forOffsets r fun dx dz => f (p.x + dx) (p.z + dz) := by
  simp only [forOffsets, forSquare, Span.around_eq_move h.x, Span.around_eq_move h.z,
    Span.forM_move]

theorem allSquare_around (h : p.HasRoom r) (f : Int32 → Int32 → Build Bool) :
    allSquare (.around p.x r) (.around p.z r) f =
      allSquare (.around 0 r) (.around 0 r) fun dx dz => f (p.x + dx) (p.z + dz) := by
  simp only [allSquare, Span.around_eq_move h.x, Span.around_eq_move h.z, Span.allM_move]

end Build

end VoxelFeatures
