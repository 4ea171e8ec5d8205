import VoxelFeatures.Tree.Small
import VoxelFeatures.Proofs.Layers
import VoxelFeatures.Proofs.Overgrowth
import VoxelFeatures.Proofs.Room

/-!
# The space that a small tree asks for

Before a small tree grows, its column is looked at layer by layer, up to two layers above
the trunk, in squares whose radius is a counter (`countedScan`). It goes up above the base
and again at the top of the trunk. Where these two layers are one, above a trunk of a single
cell, the counter goes up once and stays behind the radius that the column is to be clear for
(`statedRadius`); for all other trunks the check passes exactly if that space is clear.
-/

namespace VoxelFeatures

namespace Span

/-- The words around a word that do not wrap are those at a small distance of it. -/
theorem Fits.mem_around {c r x : Int32} (h : Fits c r) :
    x ∈ (around c r).toList ↔ (x.toInt - c.toInt).natAbs ≤ r.toInt := by
  rw [around, mem_closed, Int32.le_iff_toInt_le, Int32.le_iff_toInt_le, h.low, h.high]
  omega

end Span

theorem looks_isSquareIn (S : BlockSet) (p : Pos) (r : Int32) :
    (isSquareIn S p r).Only Act.Looks :=
  .allSquare fun x _ z _ => by simp

/-- A square is in a set exactly if the cells at a small distance are. -/
theorem run_isSquareIn_iff {S : BlockSet} {p : Pos} {r : Int32} (h : p.HasRoom r) (s : Site) :
    ((isSquareIn S p r).run s).1 = true ↔
      ∀ q : Pos, q.y = p.y → (q.x.toInt - p.x.toInt).natAbs ≤ r.toInt →
        (q.z.toInt - p.z.toInt).natAbs ≤ r.toInt → S.contains (s.journal.idAt q) := by
  have hrow (x : Int32) : ((Span.around p.z r).allM fun z => Build.isIn S ⟨x, p.y, z⟩).Only
      Act.Looks := .allM_span fun z _ => by simp
  rw [isSquareIn, Build.allSquare, Build.run_allM_span_iff fun x _ => hrow x]
  simp only [Build.run_allM_span_iff fun z _ => (Build.only_isIn S _).2 (Act.looks_look _),
    h.x.mem_around, h.z.mem_around, Build.run_isIn]
  constructor
  · rintro hall ⟨x, y, z⟩ rfl hx hz
    exact hall x hx z hz
  · intro hall x hx z hz
    exact hall ⟨x, p.y, z⟩ rfl hx hz

namespace SmallTree

/-! ## Radii -/

/-- The radius that layer `dy` of the column of a trunk is to be clear for: none at the base,
one along the trunk, and two from its top on. -/
def statedRadius (height dy : Int) : Nat :=
  if dy < 1 then 0 else if dy < height then 1 else 2

/-- The radius that layer `dy` is looked at in. Above a trunk of one cell it stays one. -/
def scannedRadius (height dy : Int) : Nat :=
  if height = 1 then min 1 (statedRadius height dy) else statedRadius height dy

theorem statedRadius_le (height dy : Int) : statedRadius height dy ≤ 2 := by
  rw [statedRadius]
  split
  · decide
  · split
    · decide
    · decide

theorem scannedRadius_le (height dy : Int) : scannedRadius height dy ≤ statedRadius height dy := by
  rw [scannedRadius]
  split
  · exact Nat.min_le_right 1 _
  · exact Nat.le_refl _

theorem toInt_clearRadius {height dy : Int32} (hheight : 0 < height.toInt) :
    (clearRadius height dy).toInt = scannedRadius height.toInt dy.toInt := by
  have hzero : (0 : Int32).toInt = 0 := Int32.toInt_zero
  have hone : (1 : Int32).toInt = 1 := Int32.toInt_one
  have hbase : (1 : Int32) ≤ dy ↔ ¬dy.toInt < 1 := by
    rw [Int32.le_iff_toInt_le, hone]
    omega
  have htop : (0 ≤ height ∧ height ≠ 1 ∧ height ≤ dy) ↔
      ¬height.toInt = 1 ∧ ¬dy.toInt < height.toInt := by
    rw [Int32.le_iff_toInt_le, Int32.le_iff_toInt_le, ne_eq, ← Int32.toInt_inj, hzero, hone]
    omega
  simp only [clearRadius, hbase, htop, scannedRadius, statedRadius]
  by_cases hlow : dy.toInt < 1
  · have hbelow : dy.toInt < height.toInt := by omega
    simp [hlow, hbelow, hzero]
  · by_cases hshort : height.toInt = 1
    · simp [hlow, hshort, hone]
    · by_cases hbelow : dy.toInt < height.toInt
      · simp [hlow, hshort, hbelow, hone]
      · simp [hlow, hshort, hbelow]

/-- The scanned radius goes up above the base and at the top of the trunk, by one where these
are one layer. -/
theorem scannedRadius_add_one {height dy : Int} (hheight : 0 < height) (hdy : 0 ≤ dy) :
    scannedRadius height (dy + 1) =
      scannedRadius height dy + if dy + 1 = 1 ∨ dy + 1 = height then 1 else 0 := by
  simp only [scannedRadius, statedRadius]
  grind

theorem scannedRadius_le_top {height : Int} (hheight : 0 < height) (dy : Int) :
    scannedRadius height dy ≤ scannedRadius height (height + 2) := by
  simp only [scannedRadius, statedRadius]
  grind

/-! ## The check -/

/-- Every layer of the column is stored, and the cells within the radius of the layer hold
blocks of the set. -/
def Clear (S : BlockSet) (j : Journal) (p : Pos) (height : Int) (radius : Int → Nat) : Prop :=
  ∀ dy, 0 ≤ dy → dy < height + 3 →
    (0 ≤ p.y.toInt + dy ∧ p.y.toInt + dy < 256) ∧
      ∀ q : Pos, q.y.toInt = p.y.toInt + dy → (q.x.toInt - p.x.toInt).natAbs ≤ radius dy →
        (q.z.toInt - p.z.toInt).natAbs ≤ radius dy → S.contains (j.idAt q)

theorem Clear.mono {S : BlockSet} {j : Journal} {p : Pos} {height : Int} {r r' : Int → Nat}
    (h : Clear S j p height r) (hr : ∀ dy, r' dy ≤ r dy) : Clear S j p height r' := by
  intro dy hlow hhigh
  rcases h dy hlow hhigh with ⟨hlayer, hcells⟩
  exact ⟨hlayer, fun q hy hx hz => hcells q hy (Nat.le_trans hx (hr dy)) (Nat.le_trans hz (hr dy))⟩

/-- A layer above the origin that wraps is not stored. -/
theorem inHeight_up_iff {p : Pos} {dy : Int32} (hdy : 0 ≤ dy.toInt) :
    (p.up dy).inHeight ↔ 0 ≤ p.y.toInt + dy.toInt ∧ p.y.toInt + dy.toInt < 256 := by
  have hcases := toInt_add_cases p.y dy
  have hp := toInt_range p.y
  have hd := toInt_range dy
  have hsum := toInt_range (p.y + dy)
  have hup : (p.up dy).y = p.y + dy := rfl
  rw [Pos.inHeight_iff_toInt, hup]
  omega

/-- The look at one layer. -/
def isLayerClear (S : BlockSet) (p : Pos) (height dy : Int32) : Build Bool :=
  if isLayer (p.y + dy) then isSquareIn S (p.up dy) (clearRadius height dy) else return false

theorem looks_isLayerClear (S : BlockSet) (p : Pos) (height dy : Int32) :
    (isLayerClear S p height dy).Only Act.Looks :=
  .ite (looks_isSquareIn S _ _) (.done false)

theorem run_isLayerClear_iff {S : BlockSet} {p : Pos} {height dy : Int32}
    (hheight : 0 < height.toInt) (hdy : 0 ≤ dy.toInt) (hroom : p.HasRoom (clearRadius height dy))
    (s : Site) :
    ((isLayerClear S p height dy).run s).1 = true ↔
      (0 ≤ p.y.toInt + dy.toInt ∧ p.y.toInt + dy.toInt < 256) ∧
        ∀ q : Pos, q.y.toInt = p.y.toInt + dy.toInt →
          (q.x.toInt - p.x.toInt).natAbs ≤ scannedRadius height.toInt dy.toInt →
          (q.z.toInt - p.z.toInt).natAbs ≤ scannedRadius height.toInt dy.toInt →
            S.contains (s.journal.idAt q) := by
  have hroomUp : (p.up dy).HasRoom (clearRadius height dy) := ⟨hroom.x, hroom.z⟩
  have hp := toInt_range p.y
  rw [← inHeight_up_iff hdy, isLayerClear]
  by_cases hlayer : isLayer (p.y + dy)
  · have hin := (inHeight_up_iff hdy).1 hlayer
    have hy : (p.y + dy).toInt = p.y.toInt + dy.toInt := toInt_add_of_fits (by omega) (by omega)
    rw [if_pos hlayer, run_isSquareIn_iff hroomUp, toInt_clearRadius hheight]
    simp only [Pos.up, ← Int32.toInt_inj, hy, Int.ofNat_le]
    exact ⟨fun h => ⟨hlayer, h⟩, fun h => h.2⟩
  · rw [if_neg hlayer]
    constructor
    · intro h
      cases h
    · rintro ⟨h, -⟩
      exact absurd h hlayer

/-! ## The counter -/

/-- The check of `n` layers from layer `dy` on as a loop that carries the radius of the layer
before and counts it up at the layers `1` and `height`. -/
def countedScan (S : BlockSet) (p : Pos) (height : Int32) : Nat → Int32 → Int32 → Build Bool
  | 0, _, _ => .done true
  | n + 1, dy, r => do
      let r := if dy = 1 ∨ dy = height then r + 1 else r
      if isLayer (p.y + dy) then
        if ← isSquareIn S (p.up dy) r then countedScan S p height n (dy + 1) r else return false
      else return false

/-- The counter comes from the radius of a layer to that of the next one. -/
theorem clearRadius_add_one {height dy : Int32} (hheight : 0 < height.toInt)
    (hdy : 0 ≤ dy.toInt) (hnext : dy.toInt + 1 < 2147483648) :
    (if dy + 1 = 1 ∨ dy + 1 = height then clearRadius height dy + 1 else clearRadius height dy) =
      clearRadius height (dy + 1) := by
  have hone : (1 : Int32).toInt = 1 := Int32.toInt_one
  have hint : (dy + 1).toInt = dy.toInt + 1 := toInt_add_one hnext
  have hbumped : (dy + 1 = 1 ∨ dy + 1 = height) ↔
      dy.toInt + 1 = 1 ∨ dy.toInt + 1 = height.toInt := by
    rw [← Int32.toInt_inj, ← Int32.toInt_inj, hint, hone]
  have hstep := scannedRadius_add_one hheight hdy
  have hradius : (clearRadius height dy).toInt = scannedRadius height.toInt dy.toInt :=
    toInt_clearRadius hheight
  have hsmall : scannedRadius height.toInt dy.toInt ≤ 2 :=
    Nat.le_trans (scannedRadius_le _ _) (statedRadius_le _ _)
  rw [← Int32.toInt_inj, toInt_clearRadius hheight, hint, hstep]
  simp only [hbumped]
  split
  · rw [toInt_add_one (by omega), hradius]
    rfl
  · exact hradius

/-- The walk over the layers is the loop, by induction on the layers that are left. The
invariant is that the counter, once counted up, is the radius of the layer. -/
theorem allFrom_eq_countedScan {S : BlockSet} {p : Pos} {height : Int32}
    (hheight : 0 < height.toInt) {n : Nat} {dy r : Int32} (hdy : 0 ≤ dy.toInt)
    (hend : dy.toInt + n ≤ 2147483647)
    (hr : (if dy = 1 ∨ dy = height then r + 1 else r) = clearRadius height dy) :
    Span.allFrom 1 (isLayerClear S p height) dy n = countedScan S p height n dy r := by
  induction n generalizing dy r with
  | zero => rfl
  | succ n ih =>
      have hnext : (dy + 1).toInt = dy.toInt + 1 := toInt_add_one (by omega)
      have hrest : Span.allFrom 1 (isLayerClear S p height) (dy + 1) n =
          countedScan S p height n (dy + 1) (clearRadius height dy) :=
        ih (by omega) (by omega) (clearRadius_add_one hheight hdy (by omega))
      rw [Span.allFrom, hrest, isLayerClear, countedScan, hr]
      by_cases hlayer : isLayer (p.y + dy)
      · rw [if_pos hlayer, if_pos hlayer]
      · rw [if_neg hlayer, if_neg hlayer]
        rfl

theorem isClear_eq_countedScan (S : BlockSet) (p : Pos) {height : Int32}
    (hheight : 0 < height.toInt) (hend : height.toInt + 3 ≤ 2147483647) :
    isClear S p height = countedScan S p height (height.toInt + 3).toNat 0 0 := by
  have hzero : (0 : Int32).toInt = 0 := Int32.toInt_zero
  have hthree : (3 : Int32).toInt = 3 := by decide
  have hsize : (Span.halfOpen 0 (height + 3)).size = (height.toInt + 3).toNat := by
    rw [Span.halfOpen, toInt_add_of_fits (by omega) (by omega), hthree, hzero, Int.sub_zero]
  have hbase : (if (0 : Int32) = 1 ∨ 0 = height then (0 : Int32) + 1 else 0) =
      clearRadius height 0 := by
    have hne : ¬((0 : Int32) = 1 ∨ 0 = height) := by
      rw [← Int32.toInt_inj, ← Int32.toInt_inj, hzero]
      have hone : (1 : Int32).toInt = 1 := Int32.toInt_one
      omega
    rw [if_neg hne, ← Int32.toInt_inj, toInt_clearRadius hheight, hzero, scannedRadius,
      statedRadius]
    simp
  have hfrom : 0 ≤ (0 : Int32).toInt := by decide
  have hfits : (0 : Int32).toInt + (Span.halfOpen 0 (height + 3)).size ≤ 2147483647 := by
    rw [hsize, hzero]
    omega
  rw [← hsize]
  exact allFrom_eq_countedScan hheight hfrom hfits hbase

/-! ## The space -/

/-- The check passes exactly if the column is clear within the radii that it looks at. -/
theorem run_isClear_iff {S : BlockSet} {p : Pos} {height : Int32} (hheight : 0 < height.toInt)
    (hend : height.toInt + 3 ≤ 2147483647) (hroom : p.HasRoom (clearRadius height (height + 2)))
    (s : Site) :
    ((isClear S p height).run s).1 = true ↔
      Clear S s.journal p height.toInt (scannedRadius height.toInt) := by
  have hzero : (0 : Int32).toInt = 0 := Int32.toInt_zero
  have htwo : (2 : Int32).toInt = 2 := by decide
  have hthree : (3 : Int32).toInt = 3 := by decide
  have htop : (height + 2).toInt = height.toInt + 2 := toInt_add_of_fits (by omega) (by omega)
  have hlast : (height + 3).toInt = height.toInt + 3 := toInt_add_of_fits (by omega) (by omega)
  have hroomAt (dy : Int32) : p.HasRoom (clearRadius height dy) := by
    refine hroom.mono ?_ ?_
    · rw [Int32.le_iff_toInt_le, toInt_clearRadius hheight, hzero]
      exact Int.natCast_nonneg _
    · rw [Int32.le_iff_toInt_le, toInt_clearRadius hheight, toInt_clearRadius hheight, htop]
      exact Int.ofNat_le.2 (scannedRadius_le_top hheight _)
  have hmem (dy : Int32) : dy ∈ (Span.halfOpen 0 (height + 3)).toList ↔
      0 ≤ dy.toInt ∧ dy.toInt < height.toInt + 3 := by
    rw [Span.mem_halfOpen, Int32.le_iff_toInt_le, Int32.lt_iff_toInt_lt, hzero, hlast]
  have hlayers : isClear S p height =
      (Span.halfOpen 0 (height + 3)).allM (isLayerClear S p height) := rfl
  rw [hlayers, Build.run_allM_span_iff fun dy _ => looks_isLayerClear S p height dy]
  simp only [hmem]
  constructor
  · intro hall dy hlow hhigh
    have hint : (Int32.ofInt dy).toInt = dy := Int32.toInt_ofInt_of_le (by omega) (by omega)
    have hlayer := hall (.ofInt dy) (by omega)
    rwa [run_isLayerClear_iff hheight (by omega) (hroomAt _), hint] at hlayer
  · rintro hclear dy ⟨hlow, hhigh⟩
    exact (run_isLayerClear_iff hheight hlow (hroomAt dy) s).2 (hclear dy.toInt hlow hhigh)

/-- The check is a loop whose radius is a counter that goes up at two layers. It leaves the
site as it is, and passes exactly if the column is clear within the radii that it looks at. These
are the stated ones, unless the trunk is a single cell: then the two layers are one, and the
radius stays one above it. So the check passes wherever the stated space is clear, and above all
other trunks only there. -/
theorem check_covers_stated_space {S : BlockSet} {p : Pos} {height : Int32}
    (hheight : 1 ≤ height.toInt) (hend : height.toInt + 3 ≤ 2147483647)
    (hroom : p.HasRoom (clearRadius height (height + 2))) (s : Site) :
    let clear := (isClear S p height).run s
    isClear S p height = countedScan S p height (height.toInt + 3).toNat 0 0 ∧
    clear.2 = s ∧
    (clear.1 = true ↔ Clear S s.journal p height.toInt (scannedRadius height.toInt)) ∧
    (height ≠ 1 → (clear.1 = true ↔ Clear S s.journal p height.toInt (statedRadius height.toInt))) ∧
    (Clear S s.journal p height.toInt (statedRadius height.toInt) → clear.1 = true) := by
  intro clear
  have hone : (1 : Int32).toInt = 1 := by decide
  have hiff : clear.1 = true ↔ Clear S s.journal p height.toInt (scannedRadius height.toInt) :=
    run_isClear_iff hheight hend hroom s
  have hkept : clear.2 = s :=
    Build.Only.run_looks (.allM_span fun dy _ => looks_isLayerClear S p height dy) s
  refine ⟨isClear_eq_countedScan S p hheight hend, hkept, hiff, fun hne => ?_, fun h => ?_⟩
  · have hradius : scannedRadius height.toInt = statedRadius height.toInt := by
      rw [ne_eq, ← Int32.toInt_inj, hone] at hne
      exact funext fun dy => if_neg hne
    rw [← hradius]
    exact hiff
  · exact hiff.2 (h.mono (scannedRadius_le height.toInt))

/-- Stone beside the trunk of an oak, two layers above its base. -/
theorem stone_blocks_oak :
    1 ≤ (4 : Int32).toInt ∧ (4 : Int32).toInt + 3 ≤ 2147483647 ∧
      (⟨8, 64, 8⟩ : Pos).HasRoom (clearRadius 4 (4 + 2)) ∧
      ∀ s : Site, s.journal.idAt ⟨9, 66, 8⟩ = .stone →
        ((isClear Species.treeOverridable ⟨8, 64, 8⟩ 4).run s).1 = false := by
  have hheight : 1 ≤ (4 : Int32).toInt := by decide
  have hend : (4 : Int32).toInt + 3 ≤ 2147483647 := by decide
  have hroom : (⟨8, 64, 8⟩ : Pos).HasRoom (clearRadius 4 (4 + 2)) :=
    ⟨⟨by decide, by decide⟩, ⟨by decide, by decide⟩⟩
  refine ⟨hheight, hend, hroom, fun s hstone => Bool.eq_false_iff.2 fun hpassed => ?_⟩
  rcases check_covers_stated_space (S := Species.treeOverridable) hheight hend hroom s with
    ⟨-, -, -, hstated, -⟩
  have hclear := (hstated (by decide)).1 hpassed
  have hcell := (hclear 2 (by decide) (by decide)).2 ⟨9, 66, 8⟩ rfl (by decide) (by decide)
  rw [hstone] at hcell
  exact absurd hcell (by decide)

/-- Stone at the edge of the stated space above a trunk of one cell, which passes the check. -/
theorem short_trunk_passes_stone :
    let p : Pos := ⟨0, 2, 0⟩
    let ground := World.ofLayers 0 [(.plain .dirt, 1), (.plain .grass, 1)]
    let s : Site := ⟨(Journal.ofWorld ground).set ⟨2, 3, 0⟩ (.plain .stone) false, .ofSeed 0, #[]⟩
    p.HasRoom 2 ∧ ((isClear Species.treeOverridable p 1).run s).1 = true ∧
      ¬Clear Species.treeOverridable s.journal p 1 (statedRadius 1) := by
  intro p ground s
  refine ⟨⟨⟨by decide, by decide⟩, ⟨by decide, by decide⟩⟩, by decide +kernel, fun h => ?_⟩
  have hcell := (h 1 (by decide) (by decide)).2 ⟨2, 3, 0⟩ rfl (by decide) (by decide)
  have hstone : s.journal.idAt ⟨2, 3, 0⟩ = .stone := by decide +kernel
  rw [hstone] at hcell
  exact absurd hcell (by decide)

end SmallTree

end VoxelFeatures
