import Mathlib.Algebra.Order.Ring.Abs
import Mathlib.Tactic.Linarith
import VoxelFeatures.Proofs.NearActs
import VoxelFeatures.Proofs.Overgrowth
import VoxelFeatures.Proofs.Sweep

/-!
# How round the ice discs are

A path replaces the cells of a disc one after the other. No cell comes twice, so the disc
could as well be laid at once, by what was there before. Which cells belong to it is tested
on squares of words, and the width of a path has no upper bound. Up to the radius 32767 no
square of the test wraps, and the disc is round. A wider disc never is. Up to the radius
46340 it has the corners of its square, and from there on either a cell outside, or not even
the snow block that it is laid around.
-/

namespace VoxelFeatures

namespace IcePath

/-- The square of the distance of a cell from the axis of a disc. -/
def axisDistSq (q c : Pos) : Int := (c.x.toInt - q.x.toInt) ^ 2 + (c.z.toInt - q.z.toInt) ^ 2

/-- The cells of the round disc around `q`, in three layers. -/
structure InRound (q : Pos) (r : Int) (c : Pos) : Prop where
  layer : -1 ≤ c.y.toInt - q.y.toInt ∧ c.y.toInt - q.y.toInt ≤ 1
  round : axisDistSq q c ≤ r ^ 2

/-- The cells of the disc around `q` that is tested on words. -/
structure InDisc (q : Pos) (r : Int) (c : Pos) : Prop where
  x : -r ≤ c.x.toInt - q.x.toInt ∧ c.x.toInt - q.x.toInt ≤ r
  layer : -1 ≤ c.y.toInt - q.y.toInt ∧ c.y.toInt - q.y.toInt ≤ 1
  z : -r ≤ c.z.toInt - q.z.toInt ∧ c.z.toInt - q.z.toInt ≤ r
  test : (axisDistSq q c).bmod (2 ^ 32) ≤ (r ^ 2).bmod (2 ^ 32)

variable {p q c : Pos} {r dx dz : Int32}

/-! ## The test of a disc -/

/-- The test of a disc compares the integers as words keep them. -/
theorem test_iff : dx * dx + dz * dz ≤ r * r ↔
    (dx.toInt ^ 2 + dz.toInt ^ 2).bmod (2 ^ 32) ≤ (r.toInt ^ 2).bmod (2 ^ 32) := by
  rw [Int32.le_iff_toInt_le, Int32.toInt_add, Int32.toInt_mul, Int32.toInt_mul, Int32.toInt_mul,
    Int.bmod_add_bmod, Int.add_bmod_bmod, ← pow_two, ← pow_two, ← pow_two]

/-- No square of the test wraps up to the radius 32767. -/
theorem bmod_sq {a b r : Int} (ha : -r ≤ a ∧ a ≤ r) (hb : -r ≤ b ∧ b ≤ r) (hr : r ≤ 32767) :
    (a ^ 2 + b ^ 2).bmod (2 ^ 32) = a ^ 2 + b ^ 2 ∧ (r ^ 2).bmod (2 ^ 32) = r ^ 2 := by
  have hsquare : r ^ 2 ≤ 32767 ^ 2 := by nlinarith
  have ha2 : a ^ 2 ≤ r ^ 2 := sq_le_sq' ha.1 ha.2
  have hb2 : b ^ 2 ≤ r ^ 2 := sq_le_sq' hb.1 hb.2
  have ha0 := sq_nonneg a
  have hb0 := sq_nonneg b
  constructor
  · exact Int.bmod_eq_of_le (by omega) (by omega)
  · exact Int.bmod_eq_of_le (by omega) (by omega)

/-- From the radius 32768 on the test is wrong at some offset of the square. -/
theorem exists_wrong_offset {r : Int} (hr : 32768 ≤ r) : ∃ a b : Int,
    (-r ≤ a ∧ a ≤ r) ∧ (-r ≤ b ∧ b ≤ r) ∧
    ¬((a ^ 2 + b ^ 2).bmod (2 ^ 32) ≤ (r ^ 2).bmod (2 ^ 32) ↔ a ^ 2 + b ^ 2 ≤ r ^ 2) := by
  by_cases hsmall : r ≤ 46340
  · -- the square of the radius does not wrap yet, that of the diagonal does
    have hlow : 32768 ^ 2 ≤ r ^ 2 := by nlinarith
    have hhigh : r ^ 2 ≤ 46340 ^ 2 := by nlinarith
    refine ⟨r, r, by omega, by omega, fun h => ?_⟩
    have htest : (r ^ 2 + r ^ 2).bmod (2 ^ 32) ≤ (r ^ 2).bmod (2 ^ 32) := by
      simp only [Int.bmod]
      omega
    have hround := h.1 htest
    omega
  · by_cases hsign : 0 ≤ (r ^ 2).bmod (2 ^ 32)
    · refine ⟨r, 46341, by omega, by omega, fun h => ?_⟩
      have htest : (r ^ 2 + 46341 ^ 2).bmod (2 ^ 32) ≤ (r ^ 2).bmod (2 ^ 32) := by
        simp only [Int.bmod] at hsign ⊢
        omega
      have hround := h.1 htest
      omega
    · refine ⟨0, 0, by omega, by omega, fun h => ?_⟩
      have hround : (0 : Int) ^ 2 + 0 ^ 2 ≤ r ^ 2 := by nlinarith
      exact hsign (by simpa using h.2 hround)

/-- The two discs have the same cells up to the radius 32767. -/
theorem inDisc_iff_inRound {r : Int} (hr0 : 0 ≤ r) (hr : r ≤ 32767) :
    InDisc q r c ↔ InRound q r c := by
  constructor
  · intro ⟨hx, hy, hz, htest⟩
    obtain ⟨hdist, hradius⟩ := bmod_sq hx hz hr
    rw [axisDistSq, hdist, hradius] at htest
    exact ⟨hy, htest⟩
  · intro ⟨hy, hround⟩
    have hdx := sq_nonneg (c.x.toInt - q.x.toInt)
    have hdz := sq_nonneg (c.z.toInt - q.z.toInt)
    have hx := abs_le_of_sq_le_sq' (a := c.x.toInt - q.x.toInt)
      (by rw [axisDistSq] at hround; omega) hr0
    have hz := abs_le_of_sq_le_sq' (a := c.z.toInt - q.z.toInt)
      (by rw [axisDistSq] at hround; omega) hr0
    obtain ⟨hdist, hradius⟩ := bmod_sq hx hz hr
    refine ⟨hx, hy, hz, ?_⟩
    rw [axisDistSq, hdist, hradius]
    exact hround

/-! ## The cells of a disc -/

/-- The cells of a disc in the column at an offset. -/
def columnCells (q : Pos) (r dx dz : Int32) : List Pos :=
  if dx * dx + dz * dz ≤ r * r then (Span.closed (-1) 1).toList.map fun dy => q.shift dx dy dz
  else []

/-- The cells of a disc, in the order in which they are replaced. -/
def discCells (q : Pos) (r : Int32) : List Pos :=
  (Span.around 0 r).toList.flatMap fun dx =>
    (Span.around 0 r).toList.flatMap fun dz => columnCells q r dx dz

theorem disc_eq_forM (q : Pos) (r : Int32) :
    disc q r = forM (discCells q r) fun c =>
      Build.replace PackedIce.pathReplaceable c PackedIce.block := by
  simp only [disc_eq, Build.forOffsets, Build.forSquare, discCells, Span.forM_eq,
    List.forM_eq_forM, Build.forM_flatMap]
  refine congrArg (forM _) (funext fun dx => congrArg (forM _) (funext fun dz => ?_))
  rw [columnCells]
  split
  · rw [List.forM_map]
  · rfl

theorem mem_columnCells : c ∈ columnCells q r dx dz ↔ dx * dx + dz * dz ≤ r * r ∧
    ∃ dy, (-1 ≤ dy ∧ dy ≤ 1) ∧ q.shift dx dy dz = c := by
  rw [columnCells]
  split
  · rename_i htest
    simp only [List.mem_map, Span.mem_closed, htest, true_and]
  · rename_i htest
    simp [htest]

theorem mem_discCells : c ∈ discCells q r ↔ (-r ≤ c.x - q.x ∧ c.x - q.x ≤ r) ∧
    (-1 ≤ c.y - q.y ∧ c.y - q.y ≤ 1) ∧ (-r ≤ c.z - q.z ∧ c.z - q.z ≤ r) ∧
    (c.x - q.x) * (c.x - q.x) + (c.z - q.z) * (c.z - q.z) ≤ r * r := by
  have hspan (d : Int32) : d ∈ (Span.around 0 r).toList ↔ -r ≤ d ∧ d ≤ r := by
    rw [Span.around, Span.mem_closed, Int32.zero_sub, Int32.zero_add]
  simp only [discCells, List.mem_flatMap, hspan, mem_columnCells]
  constructor
  · rintro ⟨dx, hx, dz, hz, htest, dy, hy, rfl⟩
    simp only [Pos.shift, add_sub_self]
    exact ⟨hx, hy, hz, htest⟩
  · rintro ⟨hx, hy, hz, htest⟩
    have hback (a b : Int32) : a + (b - a) = b := by grind
    exact ⟨c.x - q.x, hx, c.z - q.z, hz, htest, c.y - q.y, hy, by simp only [Pos.shift, hback]⟩

theorem nodup_discCells (q : Pos) (r : Int32) : (discCells q r).Nodup := by
  have hne {a d d' : Int32} (hlt : d < d') : a + d ≠ a + d' := fun heq =>
    Int32.lt_irrefl ((Int32.add_right_inj a).1 heq ▸ hlt)
  refine List.pairwise_flatMap.2 ⟨fun dx _ => List.pairwise_flatMap.2 ⟨fun dz _ => ?_, ?_⟩, ?_⟩
  · rw [columnCells]
    split
    · refine List.pairwise_map.2 ((Span.pairwise_closed _ _).imp fun {dy dy'} hlt heq => ?_)
      exact hne hlt (congrArg Pos.y heq)
    · exact .nil
  · refine (Span.pairwise_closed _ _).imp fun {dz dz'} hlt c hc d hd heq => ?_
    obtain ⟨-, dy, -, rfl⟩ := mem_columnCells.1 hc
    obtain ⟨-, dy', -, rfl⟩ := mem_columnCells.1 hd
    exact hne hlt (congrArg Pos.z heq)
  · refine (Span.pairwise_closed _ _).imp fun {dx dx'} hlt c hc d hd heq => ?_
    simp only [List.mem_flatMap, mem_columnCells] at hc hd
    obtain ⟨dz, -, -, dy, -, rfl⟩ := hc
    obtain ⟨dz', -, -, dy', -, rfl⟩ := hd
    exact hne hlt (congrArg Pos.x heq)

/-! ## Words and integers around a centre -/

/-- Offsets within a radius that fits are the same as words and as integers. -/
theorem toInt_offset {a b r : Int32} (hr : 0 ≤ r) (h : Span.Fits a r) :
    ((-r ≤ b - a ∧ b - a ≤ r) ↔ -r.toInt ≤ b.toInt - a.toInt ∧ b.toInt - a.toInt ≤ r.toInt) ∧
      (-r.toInt ≤ b.toInt - a.toInt ∧ b.toInt - a.toInt ≤ r.toInt →
        (b - a).toInt = b.toInt - a.toInt) := by
  have hzero : (0 : Int32).toInt = 0 := Int32.toInt_zero
  have hlow := h.low
  have hhigh := h.high
  have hrange := toInt_range r
  have hfirst := toInt_range (a - r)
  have hlast := toInt_range (a + r)
  rw [Int32.le_iff_toInt_le, hzero] at hr
  have hneg : (-r).toInt = -r.toInt := by
    rw [Int32.toInt_neg]
    exact Int.bmod_eq_of_le (by omega) (by omega)
  have hexact (hb : -r.toInt ≤ b.toInt - a.toInt ∧ b.toInt - a.toInt ≤ r.toInt) :
      (b - a).toInt = b.toInt - a.toInt := by
    rw [Int32.toInt_sub]
    exact Int.bmod_eq_of_le (by omega) (by omega)
  have hsum : (a + (b - a)).toInt = b.toInt := congrArg Int32.toInt (by grind)
  have hcases := toInt_add_cases a (b - a)
  have hb := toInt_range b
  rw [hsum] at hcases
  rw [Int32.le_iff_toInt_le, Int32.le_iff_toInt_le, hneg]
  refine ⟨⟨fun hword => by omega, fun hb => ?_⟩, hexact⟩
  rwa [hexact hb]

/-- A disc with room has the cells that its test makes on the integers. -/
theorem mem_discCells_iff_inDisc (hr : 0 ≤ r) (hroom : q.HasRoom r) (hq : q.inHeight) :
    c ∈ discCells q r ↔ InDisc q r.toInt c := by
  have hlayers : Span.Fits q.y 1 := by
    have hone : (1 : Int32).toInt = 1 := Int32.toInt_one
    rw [Pos.inHeight_iff_toInt] at hq
    constructor
    · rw [Int32.toInt_sub, hone]
      exact Int.bmod_eq_of_le (by omega) (by omega)
    · rw [Int32.toInt_add, hone]
      exact Int.bmod_eq_of_le (by omega) (by omega)
  obtain ⟨hx, hdx⟩ := toInt_offset (b := c.x) hr hroom.x
  obtain ⟨hy, -⟩ := toInt_offset (b := c.y) (by decide) hlayers
  obtain ⟨hz, hdz⟩ := toInt_offset (b := c.z) hr hroom.z
  rw [mem_discCells, hx, hz, test_iff]
  constructor
  · intro ⟨hcx, hcy, hcz, htest⟩
    rw [hdx hcx, hdz hcz] at htest
    exact ⟨hcx, hy.1 hcy, hcz, htest⟩
  · intro ⟨hcx, hcy, hcz, htest⟩
    rw [hdx hcx, hdz hcz]
    exact ⟨hcx, hy.2 hcy, hcz, htest⟩

/-! ## Paths -/

section Paths

variable {s : Site}

theorem looks_findSnow (p : Pos) : (PackedIce.findSnow p).Only Act.Looks := by
  have hsink (n : Nat) (p : Pos) : (Build.sink p n).Only Act.Looks := by
    induction n generalizing p with
    | zero => exact .done p
    | succ n ih => simp [Build.sink, ih]
  simp [PackedIce.findSnow, hsink]

/-- The snow is straight below the origin. -/
theorem findSnow_some (h : ((PackedIce.findSnow p).run s).1 = some q) :
    s.journal.idAt q = .snowBlock ∧ q.x = p.x ∧ q.z = p.z := by
  have hsink : (Build.sink p (p.y.toInt - 2).toNat).Only Act.Inspects := Build.inspects_sink ..
  rw [PackedIce.findSnow, Build.run_bind, Build.run_bind, Build.run_isBlock,
    hsink.journal_run] at h
  split at h
  · rename_i hsnow
    obtain rfl : _ = q := Option.some.inj h
    exact ⟨of_decide_eq_true hsnow, (Build.near_sink p _).2 _ (Build.returns_run ..)⟩
  · cases h

/-- A radius that is drawn is below the width of the path. -/
theorem radius_range (i : IcePath) (s : Site) :
    2 ≤ (i.radius.run s).1 ∧ (i.width = 2 → (i.radius.run s).1 = 2) ∧
      (i.width ≠ 2 → (i.radius.run s).1 < i.width) := by
  have hreturns := Build.returns_run i.radius s
  have hwidth := i.two_le_width
  generalize (i.radius.run s).1 = r at hreturns ⊢
  rw [radius] at hreturns
  split at hreturns
  · rename_i hwide
    simp only [Build.returns_bind, Build.returns_bounded, Draw.Allows] at hreturns
    obtain ⟨u, ⟨hu, -⟩, rfl⟩ := hreturns
    have hdraw := hu (by lia)
    exact ⟨by lia, fun h => by lia, fun _ => by lia⟩
  · obtain rfl : r = 2 := hreturns
    exact ⟨by decide, fun _ => rfl, fun hne => by lia⟩

/-- A path lays its disc around the snow that it has found. -/
theorem run_build (i : IcePath) (h : ((PackedIce.findSnow p).run s).1 = some q) :
    (i.build p).run s =
      (true, ((disc q (i.radius.run s).1).run (i.radius.run s).2).2) := by
  rw [build, Build.run_bind, (looks_findSnow p).run_looks, h]
  simp only [Build.run_bind, Build.pure_eq, Build.run_done]

theorem exists_snow_of_built (i : IcePath) (h : ((i.build p).run s).1 = true) :
    ∃ q, ((PackedIce.findSnow p).run s).1 = some q := by
  rw [build, Build.run_bind] at h
  cases hsnow : ((PackedIce.findSnow p).run s).1 with
  | none =>
      rw [hsnow] at h
      cases h
  | some q => exact ⟨q, rfl⟩

/-- A laid disc has come to what is tested on words, by the ids that there were before. -/
theorem laid_disc (hr : 0 ≤ r) (hroom : q.HasRoom r) (hq : q.inHeight) (s : Site) :
    let t := ((disc q r).run s).2
    (∀ c, t.journal.idAt c ≠ s.journal.idAt c ↔
      InDisc q r.toInt c ∧ c.inHeight ∧
        s.journal.idAt c ∈ ([.dirt, .snowBlock, .ice] : List BlockId)) ∧
    ∀ c, t.journal.idAt c ≠ s.journal.idAt c → t.journal.get c = PackedIce.block := by
  intro t
  have hdata : PackedIce.block.data < 16 := by decide
  obtain ⟨hdisc, hkept⟩ := Build.replaced_forM PackedIce.pathReplaceable hdata
    (nodup_discCells q r) s
  rw [← disc_eq_forM] at hdisc hkept
  have hreplaceable (c : Pos) : PackedIce.pathReplaceable.contains (s.journal.idAt c) ↔
      s.journal.idAt c ∈ ([.dirt, .snowBlock, .ice] : List BlockId) := by
    simp only [PackedIce.pathReplaceable, BlockSet.contains_ofList, decide_eq_true_eq]
  have hchanged (c : Pos) (hne : t.journal.idAt c ≠ s.journal.idAt c) :
      InDisc q r.toInt c ∧ (c.inHeight ∧
        s.journal.idAt c ∈ ([.dirt, .snowBlock, .ice] : List BlockId)) ∧
        t.journal.get c = PackedIce.block := by
    have hc : c ∈ discCells q r := by
      by_contra hc
      exact hne (hkept c hc)
    have hcell := hdisc c hc
    rw [Build.Replaced] at hcell
    split at hcell
    · rename_i hfree
      exact ⟨(mem_discCells_iff_inDisc hr hroom hq).1 hc,
        ⟨hfree.2, (hreplaceable c).1 hfree.1⟩, hcell.2⟩
    · exact absurd hcell hne
  refine ⟨fun c => ⟨fun hne => ⟨(hchanged c hne).1, (hchanged c hne).2.1⟩, ?_⟩,
    fun c hne => (hchanged c hne).2.2⟩
  rintro ⟨hc, hin, hid⟩ hsame
  have hcell := hdisc c ((mem_discCells_iff_inDisc hr hroom hq).2 hc)
  rw [Build.Replaced, if_pos ⟨(hreplaceable c).2 hid, hin⟩] at hcell
  rw [← hsame, Journal.idAt_eq, hcell.2] at hid
  exact absurd hid (by decide)

/-- The round disc and the one that is tested on words have the same cells around a position
with room exactly up to the radius 32767. -/
theorem forall_inDisc_iff_inRound (hr : 0 ≤ r) (hroom : q.HasRoom r) :
    (∀ c, InDisc q r.toInt c ↔ InRound q r.toInt c) ↔ r.toInt ≤ 32767 := by
  have hzero : (0 : Int32).toInt = 0 := Int32.toInt_zero
  rw [Int32.le_iff_toInt_le, hzero] at hr
  refine ⟨fun hsame => ?_, fun hsmall c => inDisc_iff_inRound hr hsmall⟩
  by_contra hlarge
  obtain ⟨a, b, ha, hb, hwrong⟩ := exists_wrong_offset (r := r.toInt) (by omega)
  have hword {w : Int32} {d : Int} (hfits : Span.Fits w r) (hd : -r.toInt ≤ d ∧ d ≤ r.toInt) :
      (Int32.ofInt (w.toInt + d)).toInt - w.toInt = d := by
    have hlow := hfits.low
    have hhigh := hfits.high
    have hfirst := toInt_range (w - r)
    have hlast := toInt_range (w + r)
    rw [Int32.toInt_ofInt_of_le (by omega) (by omega)]
    omega
  let c : Pos := ⟨.ofInt (q.x.toInt + a), q.y, .ofInt (q.z.toInt + b)⟩
  have hx : c.x.toInt - q.x.toInt = a := hword hroom.x ha
  have hz : c.z.toInt - q.z.toInt = b := hword hroom.z hb
  have hy : -1 ≤ c.y.toInt - q.y.toInt ∧ c.y.toInt - q.y.toInt ≤ 1 := by simp [c]
  have hdist : axisDistSq q c = a ^ 2 + b ^ 2 := by rw [axisDistSq, hx, hz]
  have hdisc : InDisc q r.toInt c ↔ (a ^ 2 + b ^ 2).bmod (2 ^ 32) ≤ (r.toInt ^ 2).bmod (2 ^ 32) :=
    ⟨fun h => hdist ▸ h.test, fun h => ⟨hx.symm ▸ ha, hy, hz.symm ▸ hb, hdist.symm ▸ h⟩⟩
  have hround : InRound q r.toInt c ↔ a ^ 2 + b ^ 2 ≤ r.toInt ^ 2 :=
    ⟨fun h => hdist ▸ h.round, fun h => ⟨hy, hdist.symm ▸ h⟩⟩
  exact hwrong (hdisc.symm.trans ((hsame c).trans hround))

/-- The middle of a disc passes its test if the square of the radius is not negative as a
word. -/
theorem inDisc_self {r : Int} (hr : 0 ≤ r) : InDisc q r q ↔ 0 ≤ (r ^ 2).bmod (2 ^ 32) := by
  have hdist : axisDistSq q q = 0 := by simp [axisDistSq]
  constructor
  · intro h
    simpa [hdist] using h.test
  · intro h
    exact ⟨by omega, by omega, by omega, by simpa [hdist] using h⟩

/-- A path changes the cells that its disc has around the snow, as it is tested on words. -/
theorem changed_build (i : IcePath) (hroom : p.HasRoom (i.radius.run s).1)
    (hfound : ((PackedIce.findSnow p).run s).1 = some q) :
    let t := ((i.build p).run s).2
    (∀ c, t.journal.idAt c ≠ s.journal.idAt c ↔
      InDisc q (i.radius.run s).1.toInt c ∧ c.inHeight ∧
        s.journal.idAt c ∈ ([.dirt, .snowBlock, .ice] : List BlockId)) ∧
    ∀ c, t.journal.idAt c ≠ s.journal.idAt c → t.journal.get c = PackedIce.block := by
  obtain ⟨hsnow, hx, hz⟩ := findSnow_some hfound
  have hq : q.inHeight := s.journal.inHeight_of_idAt_ne (by rw [hsnow]; decide)
  have hr : 0 ≤ (i.radius.run s).1 := Int32.le_trans (by decide) (radius_range i s).1
  have hjournal : (i.radius.run s).2.journal = s.journal := i.inspects_radius.journal_run s
  have hlaid := laid_disc hr ⟨hx ▸ hroom.x, hz ▸ hroom.z⟩ hq (i.radius.run s).2
  rw [hjournal] at hlaid
  rwa [run_build i hfound]

/-- The snow itself changes if the square of the radius is not negative as a word. -/
theorem changed_snow_iff (i : IcePath) (hroom : p.HasRoom (i.radius.run s).1)
    (hfound : ((PackedIce.findSnow p).run s).1 = some q) :
    ((i.build p).run s).2.journal.idAt q ≠ .snowBlock ↔
      0 ≤ ((i.radius.run s).1.toInt ^ 2).bmod (2 ^ 32) := by
  obtain ⟨hsnow, -, -⟩ := findSnow_some hfound
  have hq : q.inHeight := s.journal.inHeight_of_idAt_ne (by rw [hsnow]; decide)
  have hzero : (0 : Int32).toInt = 0 := Int32.toInt_zero
  have hr : (0 : Int32) ≤ (i.radius.run s).1 := Int32.le_trans (by decide) (radius_range i s).1
  rw [Int32.le_iff_toInt_le, hzero] at hr
  have hchanged := (changed_build i hroom hfound).1 q
  rw [hsnow] at hchanged
  rw [hchanged, inDisc_self hr]
  exact and_iff_left ⟨hq, by decide⟩

/-- A path that was built has changed the cells of a disc around the snow that it has found,
as it is tested on words, and all of them to packed ice. The disc is round exactly if its
radius is at most 32767. The snow is packed ice in the end exactly if the square of the
radius is not negative as a word. -/
theorem path_is_round_below_wrapping_squares (i : IcePath) {p : Pos} {s : Site}
    (hroom : p.HasRoom (i.radius.run s).1) (hbuilt : ((i.build p).run s).1 = true) :
    let r := (i.radius.run s).1.toInt
    let t := ((i.build p).run s).2
    (2 ≤ r ∧ (i.width = 2 → r = 2) ∧ (i.width ≠ 2 → r < i.width.toInt)) ∧
    ∃ q, ((PackedIce.findSnow p).run s).1 = some q ∧ s.journal.idAt q = .snowBlock ∧
      (∀ c, t.journal.idAt c ≠ s.journal.idAt c ↔
        InDisc q r c ∧ c.inHeight ∧
          s.journal.idAt c ∈ ([.dirt, .snowBlock, .ice] : List BlockId)) ∧
      (∀ c, t.journal.idAt c ≠ s.journal.idAt c → t.journal.get c = ⟨.packedIce, 0⟩) ∧
      ((∀ c, InDisc q r c ↔ InRound q r c) ↔ r ≤ 32767) ∧
      (t.journal.get q = ⟨.packedIce, 0⟩ ↔ 0 ≤ (r ^ 2).bmod (2 ^ 32)) := by
  intro r t
  have htwo : (2 : Int32).toInt = 2 := by decide
  obtain ⟨hleast, hfixed, hdrawn⟩ := radius_range i s
  have hr : 2 ≤ r := by rwa [← htwo, ← Int32.le_iff_toInt_le]
  obtain ⟨q, hfound⟩ := exists_snow_of_built i hbuilt
  obtain ⟨hsnow, hx, hz⟩ := findSnow_some hfound
  obtain ⟨hchanged, hlaid⟩ := changed_build i hroom hfound
  have hround := forall_inDisc_iff_inRound (Int32.le_trans (by decide) hleast)
    ⟨hx ▸ hroom.x, hz ▸ hroom.z⟩
  refine ⟨⟨hr, fun h => ?_, fun h => Int32.lt_iff_toInt_lt.1 (hdrawn h)⟩, q, hfound, hsnow,
    hchanged, hlaid, hround, ?_⟩
  · rw [← htwo, ← hfixed h]
  · rw [← changed_snow_iff i hroom hfound, ← hsnow]
    constructor
    · intro hice hsame
      rw [Journal.idAt_eq, hice, hsnow] at hsame
      exact absurd hsame (by decide)
    · exact hlaid q

/-- A path of width four on a field of snow. -/
theorem narrow_path_is_round :
    let i : IcePath := ⟨4, by decide⟩
    let p : Pos := ⟨8, 5, 8⟩
    let s : Site := ⟨.ofWorld (.ofLayers 0 [(.plain .dirt, 2), (.plain .snowBlock, 1)]),
      .ofSeed 7, #[]⟩
    let t := ((i.build p).run s).2
    p.HasRoom (i.radius.run s).1 ∧ ((i.build p).run s).1 = true ∧
      (∀ c, t.journal.idAt c ≠ s.journal.idAt c ↔
        InRound ⟨8, 2, 8⟩ 3 c ∧ c.inHeight ∧
          s.journal.idAt c ∈ ([.dirt, .snowBlock, .ice] : List BlockId)) ∧
      t.journal.get ⟨8, 2, 8⟩ = ⟨.packedIce, 0⟩ := by
  intro i p s t
  have hradius : (i.radius.run s).1 = 3 := by decide +kernel
  have hfound : ((PackedIce.findSnow p).run s).1 = some ⟨8, 2, 8⟩ := by decide +kernel
  have hroom : p.HasRoom (i.radius.run s).1 := by
    rw [hradius]
    exact ⟨⟨by decide, by decide⟩, ⟨by decide, by decide⟩⟩
  have hbuilt : ((i.build p).run s).1 = true := by decide +kernel
  obtain ⟨-, q, hq, -, hchanged, -, hround, hsnow⟩ :=
    path_is_round_below_wrapping_squares i hroom hbuilt
  obtain rfl : (⟨8, 2, 8⟩ : Pos) = q := Option.some.inj (hfound.symm.trans hq)
  rw [hradius] at hchanged hround hsnow
  refine ⟨hroom, hbuilt, fun c => ?_, hsnow.2 (by decide)⟩
  rw [hchanged c, hround.2 (by decide) c]
  rfl

/-- A path of width 46342 may leave the snow that it has found as it was. -/
theorem wide_path_leaves_its_snow :
    let i : IcePath := ⟨46342, by decide⟩
    let p : Pos := ⟨0, 2, 0⟩
    let s : Site := ⟨(Journal.ofWorld (.ofLayers 0 [])).set p (.plain .snowBlock) false,
      .ofSeed 49088, #[]⟩
    (i.radius.run s).1 = 46341 ∧ p.HasRoom (i.radius.run s).1 ∧
      ((PackedIce.findSnow p).run s).1 = some p ∧ ((i.build p).run s).1 = true ∧
      ((i.build p).run s).2.journal.idAt p = .snowBlock ∧
      ¬∀ c, ((i.build p).run s).2.journal.idAt c ≠ s.journal.idAt c ↔
        InRound p (i.radius.run s).1.toInt c ∧ c.inHeight ∧
          s.journal.idAt c ∈ ([.dirt, .snowBlock, .ice] : List BlockId) := by
  intro i p s
  have hradius : (i.radius.run s).1 = 46341 := by decide +kernel
  have hfound : ((PackedIce.findSnow p).run s).1 = some p := by decide +kernel
  have hroom : p.HasRoom (i.radius.run s).1 := by
    rw [hradius]
    exact ⟨⟨by decide, by decide⟩, ⟨by decide, by decide⟩⟩
  have hbuilt : ((i.build p).run s).1 = true := by rw [run_build i hfound]
  have hsnow : s.journal.idAt p = .snowBlock := (findSnow_some hfound).1
  have hkept : ((i.build p).run s).2.journal.idAt p = .snowBlock := by
    by_contra hne
    have hsquare := (changed_snow_iff i hroom hfound).1 hne
    rw [hradius] at hsquare
    exact absurd hsquare (by decide)
  refine ⟨hradius, hroom, hfound, hbuilt, hkept, fun hround => ?_⟩
  have hmiddle : InRound p (i.radius.run s).1.toInt p := by
    rw [hradius]
    exact ⟨by decide, by decide⟩
  exact (hround p).2 ⟨hmiddle, by decide, by rw [hsnow]; decide⟩ (hkept.trans hsnow.symm)

end Paths

end IcePath

end VoxelFeatures
