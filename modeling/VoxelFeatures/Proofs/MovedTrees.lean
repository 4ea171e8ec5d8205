import VoxelFeatures.Feature.Basic
import VoxelFeatures.Proofs.Moves
import VoxelFeatures.Proofs.Room

/-!
# Moved trees

A tree that lays its parts by offsets from its origin is moved by moving the origin,
for every move. Checks and crowns that walk over coordinates are moved where the
spans around both origins do not wrap (`Pos.HasRoom`). `layerIsClear` is the check of
one layer of a species, which the check of the whole tree asks from the base upwards.
Trunks that bend carry a cell from layer to layer; they end in the moved cell.
-/

namespace VoxelFeatures

variable (d : Move)

@[simp] theorem Ground.moved_below (soils : BlockSet) (p : Pos) :
    (below soils p).moved d = below soils (p.moved d) := by
  have hfind (n : Nat) :
      (find soils p.x p.z n).moved d = find soils (p.moved d).x (p.moved d).z n := by
    induction n with
    | zero => rfl
    | succ n ih =>
        rw [find, find, Build.moved_bind]
        simp [ih]
  exact hfind _

@[simp] theorem moved_growTrunk (s : BlockSet) (trunk : Block) (p : Pos) (height : Int32) :
    (growTrunk s trunk p height).moved d = growTrunk s trunk (p.moved d) height := by
  simp [growTrunk]

@[simp] theorem moved_tryVine (p : Pos) (f : Face) :
    (tryVine p f).moved d = tryVine (p.moved d) f := by
  simp [tryVine]

/-- A square of coordinates is moved if it has room before and after. -/
theorem moved_isSquareIn (s : BlockSet) {p : Pos} {r : Int32} (h : p.HasRoom r)
    (h' : (p.moved d).HasRoom r) : (isSquareIn s p r).moved d = isSquareIn s (p.moved d) r := by
  rw [isSquareIn, isSquareIn, Build.allSquare_around h, Build.allSquare_around h']
  simp

/-! ## Small trees -/

namespace SmallTree

@[simp] theorem moved_height (t : SmallTree) : t.height.moved d = t.height := by
  simp [height]

@[simp] theorem moved_hasLeaf (r depth dx dz : Int32) :
    (hasLeaf r depth dx dz).moved d = hasLeaf r depth dx dz := by
  simp [hasLeaf]

/-- The check of one layer. -/
def layerIsClear (s : BlockSet) (p : Pos) (height dy : Int32) : Build Bool := do
  if isLayer (p.y + dy) then isSquareIn s (p.up dy) (clearRadius height dy) else return false

theorem moved_layerIsClear (s : BlockSet) {p : Pos} {height dy : Int32}
    (h : isLayer (p.y + dy) → p.HasRoom (clearRadius height dy))
    (h' : isLayer (p.y + dy) → (p.moved d).HasRoom (clearRadius height dy)) :
    (layerIsClear s p height dy).moved d = layerIsClear s (p.moved d) height dy := by
  rw [layerIsClear, layerIsClear, Pos.moved_y]
  by_cases hy : isLayer (p.y + dy)
  · rw [if_pos hy, if_pos hy]
    exact moved_isSquareIn d s (p := p.up dy) ⟨(h hy).x, (h hy).z⟩ ⟨(h' hy).x, (h' hy).z⟩
  · rw [if_neg hy, if_neg hy]
    rfl

theorem moved_crownLayer (leaf : Block) {p : Pos} {top y : Int32}
    (h : p.HasRoom (crownRadius 1 (y - top)))
    (h' : (p.moved d).HasRoom (crownRadius 1 (y - top))) :
    (crownLayer leaf p top y).moved d = crownLayer leaf (p.moved d) top y := by
  simp only [crownLayer, Build.forSquare_around h, Build.forSquare_around h', add_sub_self]
  simp

end SmallTree

/-! ## Conifers -/

@[simp] theorem Conifer.moved_leafLayer (c : Pos) (r : Int32) :
    (leafLayer c r).moved d = leafLayer (c.moved d) r := by
  simp [leafLayer]

namespace Pine

@[simp] theorem moved_crown (p : Pos) (bottom top : Int32) :
    (crown p bottom top).moved d = crown (p.moved d) bottom top := by
  simp [crown]

@[simp] theorem moved_trunk (p : Pos) (height dy : Int32) (n : Nat) :
    (trunk p height dy n).moved d = trunk (p.moved d) height dy n := by
  induction n generalizing dy with
  | zero => simp [trunk]
  | succ n ih => simp [trunk, ih]

theorem moved_build (p : Pos) : (build p).moved d = build (p.moved d) := by
  simp [build]

end Pine

namespace Spruce

@[simp] theorem moved_crown (p : Pos) (height layers limit first : Int32) :
    (crown p height layers limit first).moved d = crown (p.moved d) height layers limit first := by
  simp [crown]

theorem moved_build (p : Pos) : (build p).moved d = build (p.moved d) := by
  simp [build]

end Spruce

/-! ## Dark oaks -/

namespace DarkOak

@[simp] theorem moved_placeLog (p : Pos) : (placeLog p).moved d = placeLog (p.moved d) := by
  simp [placeLog]

@[simp] theorem moved_placeLeaf (p : Pos) : (placeLeaf p).moved d = placeLeaf (p.moved d) := by
  simp [placeLeaf]

@[simp] theorem moved_isClear (p : Pos) (height : Int32) :
    (isClear p height).moved d = isClear (p.moved d) height := by
  simp [isClear]

@[simp] theorem moved_forM_square {f : Pos → Build Unit}
    (h : ∀ q, (f q).moved d = f (q.moved d)) (p : Pos) :
    (forM (square p) f).moved d = forM (square (p.moved d)) f := by
  rw [Build.moved_forM_cells d h]
  simp [square]

@[simp] theorem moved_forM_ring {f : Pos → Build Unit}
    (h : ∀ q, (f q).moved d = f (q.moved d)) (p : Pos) :
    (forM (ring p) f).moved d = forM (ring (p.moved d)) f := by
  rw [Build.moved_forM_cells d h]
  simp [ring]

/-- A trunk in the moved column. -/
def Trunk.moved (t : Trunk) (d : Move) : Trunk := ⟨t.x + d.x, t.z + d.z, t.bends⟩

@[simp] theorem moved_cell (t : Trunk) (y : Int32) :
    (⟨t.x, y, t.z⟩ : Pos).moved d = ⟨(t.moved d).x, y, (t.moved d).z⟩ := rfl

theorem trunkLayer_moved (p towards : Pos) (start : Int32) (t : Trunk) (dy : Int32) :
    trunkLayer (p.moved d) towards start (t.moved d) dy =
      (trunkLayer p towards start t dy).moved d >>= fun u => .done (u.moved d) := by
  have hbend : (t.moved d).bend towards start dy = (t.bend towards start dy).moved d := by
    by_cases hb : start ≤ dy ∧ 0 < t.bends
    · have hb' : start ≤ dy ∧ 0 < (t.moved d).bends := hb
      rw [Trunk.bend, Trunk.bend, if_pos hb, if_pos hb']
      simp only [Trunk.moved, Trunk.mk.injEq]
      grind
    · have hb' : ¬(start ≤ dy ∧ 0 < (t.moved d).bends) := hb
      rw [Trunk.bend, Trunk.bend, if_neg hb, if_neg hb']
  simp only [trunkLayer, hbend]
  generalize t.bend towards start dy = u
  simp only [List.forM_eq_forM, Build.moved_bind, bind_assoc, Build.moved_isIn, moved_cell,
    Build.moved_ite, Pos.moved_y]
  refine congrArg _ (funext fun free => ?_)
  cases free with
  | false => rfl
  | true => simp

@[simp] theorem moved_quarterLeaves (c : Pos) (dx dz : Int32) :
    (quarterLeaves c dx dz).moved d = quarterLeaves (c.moved d) dx dz := by
  have hx : 1 + c.x - dx + d.x = 1 + (c.moved d).x - dx := by simp only [Pos.moved]; grind
  have hz : 1 + c.z - dz + d.z = 1 + (c.moved d).z - dz := by simp only [Pos.moved]; grind
  have hx' : c.x + dx + d.x = (c.moved d).x + dx := by simp only [Pos.moved]; grind
  have hz' : c.z + dz + d.z = (c.moved d).z + dz := by simp only [Pos.moved]; grind
  simp [quarterLeaves, Pos.mk_moved _ hx hz, Pos.mk_moved _ hx hz', Pos.mk_moved _ hx' hz]

@[simp] theorem moved_sideLayers (top : Pos) :
    (sideLayers top).moved d = sideLayers (top.moved d) := by
  simp [sideLayers]

@[simp] theorem moved_middleLayer (top : Pos) :
    (middleLayer top).moved d = middleLayer (top.moved d) := by
  simp [middleLayer]

@[simp] theorem moved_hang (p top : Pos) (dx dz : Int32) :
    (hang p top dx dz).moved d = hang (p.moved d) (top.moved d) dx dz := by
  simp [hang, logLeaves]

theorem moved_build (p : Pos) : (build p).moved d = build (p.moved d) := by
  have htrunk (towards : Pos) (start height bends : Int32) :
      (Span.halfOpen 0 height).foldM (trunkLayer (p.moved d) towards start)
          ⟨(p.moved d).x, (p.moved d).z, bends⟩ =
        ((Span.halfOpen 0 height).foldM (trunkLayer p towards start) ⟨p.x, p.z, bends⟩).moved d >>=
          fun t => .done (t.moved d) :=
    Build.foldM_span_moved d (g := (Trunk.moved · d))
      (fun t dy => trunkLayer_moved d p towards start t dy) ⟨p.x, p.z, bends⟩
  simp only [build, htrunk]
  simp

end DarkOak

/-! ## Acacias -/

namespace Acacia

@[simp] theorem moved_placeLog (p : Pos) : (placeLog p).moved d = placeLog (p.moved d) := rfl

@[simp] theorem moved_placeLeaf (p : Pos) : (placeLeaf p).moved d = placeLeaf (p.moved d) := by
  simp [placeLeaf]

@[simp] theorem moved_leafLayers (c : Pos) (r : Int32) :
    (leafLayers c r).moved d = leafLayers (c.moved d) r := by
  simp [leafLayers]

@[simp] theorem moved_crown (c : Pos) : (crown c).moved d = crown (c.moved d) := by
  simp [crown]

/-- The check of one layer. -/
def layerIsClear (p : Pos) (height y : Int32) : Build Bool := do
  if isLayer y then
    isSquareIn Species.acacia.overridable ⟨p.x, y, p.z⟩ (clearRadius p height y)
  else return false

theorem moved_layerIsClear {p : Pos} {height y : Int32}
    (h : isLayer y → p.HasRoom (clearRadius p height y))
    (h' : isLayer y → (p.moved d).HasRoom (clearRadius p height y)) :
    (layerIsClear p height y).moved d = layerIsClear (p.moved d) height y := by
  rw [layerIsClear, layerIsClear]
  by_cases hy : isLayer y
  · rw [if_pos hy, if_pos hy]
    exact moved_isSquareIn d _ (p := ⟨p.x, y, p.z⟩) ⟨(h hy).x, (h hy).z⟩ ⟨(h' hy).x, (h' hy).z⟩
  · rw [if_neg hy, if_neg hy]
    rfl

/-- A trunk whose last log is moved. -/
def Trunk.moved (t : Trunk) (d : Move) : Trunk := ⟨t.last.moved d, t.bends⟩

theorem trunkLayer_moved (p towards : Pos) (start : Int32) (t : Trunk) (dy : Int32) :
    trunkLayer (p.moved d) towards start (t.moved d) dy =
      (trunkLayer p towards start t dy).moved d >>= fun u => .done (u.moved d) := by
  by_cases hb : start ≤ dy ∧ 0 < t.bends
  · have hb' : start ≤ dy ∧ 0 < (t.moved d).bends := hb
    simp only [trunkLayer, if_pos hb, if_pos hb']
    simp [Trunk.moved]
  · have hb' : ¬(start ≤ dy ∧ 0 < (t.moved d).bends) := hb
    simp only [trunkLayer, if_neg hb, if_neg hb']
    simp [Trunk.moved]

theorem branch_moved (p towards : Pos) (height : Int32) (n : Nat) (dy : Int32) (last : Pos)
    (top : Option Pos) :
    branch (p.moved d) towards height n dy (last.moved d) (top.map (·.moved d)) =
      (branch p towards height n dy last top).moved d >>= fun o => .done (o.map (·.moved d)) := by
  induction n generalizing dy last top with
  | zero => rfl
  | succ n ih =>
      rw [branch, branch]
      split
      · split
        · rw [← Pos.moved_mk_add, Build.moved_bind, Build.bind_assoc]
          exact congrArg _ (funext fun _ => ih _ _ (some _))
        · exact ih _ _ _
      · rfl

@[simp] theorem moved_secondBranch (p towards : Pos) (height start : Int32) :
    (secondBranch p towards height start).moved d =
      secondBranch (p.moved d) towards height start := by
  have hbranch (n : Nat) (dy : Int32) : branch (p.moved d) towards height n dy (p.moved d) none =
      (branch p towards height n dy p none).moved d >>= fun o => .done (o.map (·.moved d)) :=
    branch_moved d p towards height n dy p none
  simp only [secondBranch, Build.moved_bind, Build.moved_bounded, hbranch, Build.bind_assoc]
  refine congrArg _ (funext fun fork => congrArg _ (funext fun more => ?_))
  refine congrArg _ (funext fun o => ?_)
  cases o with
  | none => rfl
  | some c => exact moved_leafLayers d c 2

end Acacia

/-! ## Swamp oaks -/

namespace SwampOak

theorem sink_moved (p : Pos) (n : Nat) :
    sink (p.moved d) n = (sink p n).moved d >>= fun q => .done (q.moved d) := by
  induction n generalizing p with
  | zero => rfl
  | succ n ih =>
      rw [sink, sink, Build.moved_bind, Build.bind_assoc]
      refine congrArg _ (funext fun below => ?_)
      by_cases hwater : below.isWater
      · rw [if_pos hwater, if_pos hwater]
        exact ih (p.down 1)
      · rw [if_neg hwater, if_neg hwater]
        rfl

/-- The check of one layer. -/
def layerIsClear (p : Pos) (height y : Int32) : Build Bool := do
  if isLayer y then
    Build.allSquare (.around p.x (clearRadius p height y)) (.around p.z (clearRadius p height y))
      fun x z => hasRoom p ⟨x, y, z⟩
  else return false

theorem moved_layerIsClear {p : Pos} {height y : Int32}
    (h : isLayer y → p.HasRoom (clearRadius p height y))
    (h' : isLayer y → (p.moved d).HasRoom (clearRadius p height y)) :
    (layerIsClear p height y).moved d = layerIsClear (p.moved d) height y := by
  have hradius : clearRadius (p.moved d) height y = clearRadius p height y := rfl
  rw [layerIsClear, layerIsClear, hradius]
  by_cases hy : isLayer y
  · rw [if_pos hy, if_pos hy, Build.allSquare_around (h hy), Build.allSquare_around (h' hy)]
    simp [hasRoom]
    rfl
  · rw [if_neg hy, if_neg hy]
    rfl

@[simp] theorem moved_crownLayer (p : Pos) (top y : Int32) :
    (crownLayer p top y).moved d = crownLayer (p.moved d) top y := by
  simp [crownLayer]

@[simp] theorem moved_extendVine (data : UInt8) (p : Pos) (n : Nat) :
    (extendVine data p n).moved d = extendVine data (p.moved d) n := by
  induction n generalizing p with
  | zero => rfl
  | succ n ih => simp [extendVine, ih]

@[simp] theorem moved_vineBeside (leaf : Pos) (f : Face) :
    (vineBeside leaf f).moved d = vineBeside (leaf.moved d) f := by
  simp [vineBeside, hangVine]

theorem moved_vineLayer {p : Pos} {top y : Int32}
    (h : p.HasRoom (SmallTree.crownRadius 2 (y - top)))
    (h' : (p.moved d).HasRoom (SmallTree.crownRadius 2 (y - top))) :
    (vineLayer p top y).moved d = vineLayer (p.moved d) top y := by
  simp only [vineLayer, Build.forSquare_around h, Build.forSquare_around h']
  simp

end SwampOak

/-! ## Jungle trees and bushes -/

namespace JungleTree

@[simp] theorem moved_hang (data : UInt8) (x y z : Int32) (n : Nat) :
    (hang data x y z n).moved d = hang data (x + d.x) y (z + d.z) n := by
  induction n generalizing y with
  | zero => rfl
  | succ n ih =>
      simp [hang, ih, Pos.mk_moved y rfl rfl]

@[simp] theorem moved_trunkLayer (t : JungleTree) (base : Pos) (dy : Int32) :
    (t.trunkLayer base dy).moved d = t.trunkLayer (base.moved d) dy := by
  simp [trunkLayer, sides]

@[simp] theorem moved_hasLeaf (r depth dx dz : Int32) :
    (hasLeaf r depth dx dz).moved d = hasLeaf r depth dx dz := by
  simp [hasLeaf]

@[simp] theorem moved_placeLeaf (t : JungleTree) (depth : Int32) (p : Pos) :
    (t.placeLeaf depth p).moved d = t.placeLeaf depth (p.moved d) := by
  simp [placeLeaf, vineBelow]
  rfl

@[simp] theorem moved_crownLayer (t : JungleTree) (p : Pos) (top y : Int32) :
    (t.crownLayer p top y).moved d = t.crownLayer (p.moved d) top y := by
  simp [crownLayer]

theorem moved_build (t : JungleTree) (p : Pos) : (t.build p).moved d = t.build (p.moved d) := by
  simp only [build, Build.moved_bind, Build.moved_bounded, Ground.moved_below]
  refine congrArg _ (funext fun tall => congrArg _ (funext fun ground => ?_))
  cases ground with
  | none => rfl
  | some y => simp

end JungleTree

namespace JungleBush

@[simp] theorem moved_mound (b : JungleBush) (base : Pos) (dy : Int32) :
    (b.mound base dy).moved d = b.mound (base.moved d) dy := by
  simp [mound]

theorem moved_build (b : JungleBush) (p : Pos) : (b.build p).moved d = b.build (p.moved d) := by
  simp [build, Build.sink_moved]

end JungleBush

/-! ## Giant trees -/

namespace GiantJungle

@[simp] theorem moved_placeLeaf (p : Pos) : (placeLeaf p).moved d = placeLeaf (p.moved d) := by
  simp [placeLeaf]

@[simp] theorem moved_crown (c : Pos) : (crown c).moved d = crown (c.moved d) := by
  simp [crown, discLayer]

@[simp] theorem moved_branchLog (p : Pos) (y : Int32) (angle : Float) (i : Int32) :
    (branchLog p y angle i).moved d = branchLog (p.moved d) y angle i :=
  Pos.moved_mk_add ..

@[simp] theorem moved_branch (p : Pos) (y : Int32) :
    (branch p y).moved d = branch (p.moved d) y := by
  simp [branch, squareLayer]

@[simp] theorem moved_branches (p : Pos) (height y : Int32) (n : Nat) :
    (branches p height y n).moved d = branches (p.moved d) height y n := by
  induction n generalizing y with
  | zero => rfl
  | succ n ih => simp [branches, ih]

@[simp] theorem moved_trunkLayer (p : Pos) (height dy : Int32) :
    (trunkLayer p height dy).moved d = trunkLayer (p.moved d) height dy := by
  simp [trunkLayer, log]

theorem moved_build (p : Pos) : (build p).moved d = build (p.moved d) := by
  have hcells : (soilCells p).map (·.moved d) = soilCells (p.moved d) := by
    simp [soilCells]
  have hsoils : ((soilCells p).allM (Build.isIn Ground.soils)).moved d =
      (soilCells (p.moved d)).allM (Build.isIn Ground.soils) := by
    rw [Build.moved_allM_cells d (fun _ => rfl), hcells]
  have hdirt : (forM (soilCells p) (Build.place · Ground.dirt)).moved d =
      forM (soilCells (p.moved d)) (Build.place · Ground.dirt) := by
    rw [Build.moved_forM_cells d (fun _ => rfl), hcells]
  simp [build, hsoils, hdirt]

end GiantJungle

namespace GiantPine

@[simp] theorem moved_spreadPodzol (base : Pos) :
    (spreadPodzol base).moved d = spreadPodzol (base.moved d) := by
  simp [spreadPodzol]

@[simp] theorem moved_soils (base : Pos) :
    (columns.allM fun (dx, dz) => Build.isIn soils (base.shift dx (-1) dz)).moved d =
      columns.allM fun (dx, dz) => Build.isIn soils ((base.moved d).shift dx (-1) dz) := by
  simp

@[simp] theorem moved_trunkLayer (base : Pos) (dy : Int32) :
    (trunkLayer base dy).moved d = trunkLayer (base.moved d) dy := by
  simp [trunkLayer]

@[simp] theorem moved_crownRadius (fromTop : Int32) :
    (crownRadius fromTop).moved d = crownRadius fromTop := by
  simp [crownRadius]

/-- The span that reaches `r` beyond the two columns of a trunk does not wrap. -/
structure Fits (c r : Int32) : Prop where
  low : (c - r).toInt = c.toInt - r.toInt
  high : (c + 1 + r).toInt = c.toInt + 1 + r.toInt

theorem closed_eq_move {c r : Int32} (h : Fits c r) (hr : 0 ≤ r ∧ r ≤ 3) :
    Span.closed (c - r) (c + 1 + r) = (Span.closed (-r) (1 + r)).move c := by
  have hsmall : (0 : Int32).toInt = 0 ∧ (1 : Int32).toInt = 1 ∧ (3 : Int32).toInt = 3 := by decide
  rw [Int32.le_iff_toInt_le, Int32.le_iff_toInt_le] at hr
  have hneg : (-r).toInt = -r.toInt := by
    rw [Int32.toInt_neg]
    exact Int.bmod_eq_of_le (by omega) (by omega)
  have hnext : (1 + r).toInt = 1 + r.toInt := by
    rw [Int32.toInt_add, hsmall.2.1]
    exact Int.bmod_eq_of_le (by omega) (by omega)
  have hhigh := h.high
  rw [Int32.sub_eq_add_neg, Int32.add_assoc, Span.closed_add]
  · rw [← Int32.sub_eq_add_neg, h.low, hneg, Int.sub_eq_add_neg]
  · rw [← Int32.add_assoc, hhigh, hnext, Int.add_assoc]

/-- A crown layer of a drawn radius. -/
theorem moved_crownSquare {p : Pos} {r : Int32} (hr : 0 ≤ r ∧ r ≤ 3)
    (h : Fits p.x r ∧ Fits p.z r) (h' : Fits (p.moved d).x r ∧ Fits (p.moved d).z r) (y : Int32) :
    (Build.forSquare (.closed (p.x - r) (p.x + 1 + r)) (.closed (p.z - r) (p.z + 1 + r))
      fun x z => do
        if (x - p.x).abs + (z - p.z).abs ≤ r + 2 then
          Build.replace leafReplaceable ⟨x, y, z⟩ Species.spruce.leaf).moved d =
      (Build.forSquare (.closed ((p.moved d).x - r) ((p.moved d).x + 1 + r))
        (.closed ((p.moved d).z - r) ((p.moved d).z + 1 + r))
        fun x z => do
          if (x - (p.moved d).x).abs + (z - (p.moved d).z).abs ≤ r + 2 then
            Build.replace leafReplaceable ⟨x, y, z⟩ Species.spruce.leaf) := by
  simp only [Build.forSquare, closed_eq_move h.1 hr, closed_eq_move h.2 hr, closed_eq_move h'.1 hr,
    closed_eq_move h'.2 hr, Span.forM_move, add_sub_self]
  simp

end GiantPine

end VoxelFeatures
