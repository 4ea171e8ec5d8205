import VoxelFeatures.Proofs.Alignment
import VoxelFeatures.Proofs.Inspection
import VoxelFeatures.Proofs.NearTrees
import VoxelFeatures.Proofs.Room

/-!
# Trees in step

Wherever a tree grows from some stream, it leaves the same stream behind. Ground,
clearance and what is in the way decide which blocks are placed, never how much is
drawn. The crown of a small tree is laid over coordinates and draws for its
corners, so there it takes room around the origin and below the top.
-/

namespace VoxelFeatures

@[simp] theorem Build.still_replace (s : BlockSet) (p : Pos) (b : Block) :
    (replace s p b).Only Act.Still := by
  simp [replace]

@[simp] theorem still_isSquareIn (s : BlockSet) (p : Pos) (r : Int32) :
    (isSquareIn s p r).Only Act.Still :=
  .allSquare fun x _ z _ => by simp

@[simp] theorem still_growTrunk (s : BlockSet) (trunk : Block) (p : Pos) (height : Int32) :
    (growTrunk s trunk p height).Only Act.Still := by
  simp [growTrunk]

@[simp] theorem Build.still_sink (p : Pos) (n : Nat) : (sink p n).Only Act.Still := by
  induction n generalizing p with
  | zero => exact .done _
  | succ n ih => simp [sink, ih]

namespace Ground

@[simp] theorem still_below (soils : BlockSet) (p : Pos) : (below soils p).Only Act.Still := by
  have hfind (n : Nat) : (find soils p.x p.z n).Only Act.Still := by
    induction n with
    | zero => exact .done none
    | succ n ih => simp [find, ih]
  exact hfind _

/-- The ground is never found below layer one. -/
theorem one_le_of_returns_below {soils : BlockSet} {p : Pos} {y : Int32}
    (h : (below soils p).Returns (some y)) : 1 ≤ y := by
  have hfind (n : Nat) (hn : n < 2147483648) (h : (find soils p.x p.z n).Returns (some y)) :
      1 ≤ y := by
    induction n with
    | zero => cases h
    | succ n ih =>
        rw [find, Build.returns_bind] at h
        obtain ⟨id, -, h⟩ := h
        split at h
        · cases h
          exact one_le_ofNat_succ hn
        · split at h
          · exact ih (by omega) h
          · cases h
  have hp := toInt_range p.y
  exact hfind _ (by omega) h

end Ground

/-! ## Small trees -/

namespace SmallTree

theorem forM_crown {top : Int32} (hlow : (top - 3).toInt = top.toInt - 3)
    (f : Int32 → Build Unit) :
    (Span.closed (top - 3) top).forM f = (Span.closed (-3) 0).forM fun d => f (top + d) := by
  have hthree : (-3 : Int32).toInt = -3 := by decide
  have hspan : Span.closed (top - 3) top = (Span.closed (-3) 0).move top := by
    have hclosed := Span.closed_add (c := top) (a := -3) (b := 0)
      (by rw [hthree, ← Int32.sub_eq_add_neg, hlow, Int.sub_eq_add_neg]) (by simp)
    rwa [Int32.add_zero, ← Int32.sub_eq_add_neg] at hclosed
  rw [hspan, Span.forM_move]

/-- A crown layer over offsets. -/
theorem crownLayer_eq (leaf : Block) {p : Pos} {top y : Int32}
    (h : p.HasRoom (crownRadius 1 (y - top))) :
    crownLayer leaf p top y = (Build.forOffsets (crownRadius 1 (y - top)) fun dx dz => do
      if ← hasLeaf (crownRadius 1 (y - top)) (y - top) dx dz then
        Build.replace leafReplaceable ⟨p.x + dx, y, p.z + dz⟩ leaf) := by
  simp only [crownLayer, Build.forSquare_around h, add_sub_self]

@[simp] theorem still_isClear (s : BlockSet) (p : Pos) (height : Int32) :
    (isClear s p height).Only Act.Still :=
  .allM_span fun dy _ => by simp

theorem abreast_hasLeaf (r depth dx dz : Int32) :
    Build.Abreast Eq (hasLeaf r depth dx dz) (hasLeaf r depth dx dz) :=
  Build.Only.abreast (by simp [hasLeaf])

/-- The crown of a tree at `p` whose height is the next draw at `s` has room around
the origin, and its lowest layer does not wrap. -/
structure CrownFits (t : SmallTree) (p : Pos) (s : Site) : Prop where
  room : p.HasRoom 2
  low : (p.y + (t.height.run s).1 - 3).toInt = (p.y + (t.height.run s).1).toInt - 3

/-- Crown layers of the same depth draw for the same corners. -/
theorem parallel_crownLayer (leaf : Block) {p q : Pos} {top top' d : Int32}
    (hd : d ∈ (Span.closed (-3) 0).toList) (hp : p.HasRoom 2) (hq : q.HasRoom 2) :
    Build.Parallel (crownLayer leaf p top (top + d)) (crownLayer leaf q top' (top' + d)) := by
  have hd : d ∈ (Span.closed (0 - 3) 0).toList := hd
  obtain ⟨hlow, hhigh⟩ := crownRadius_range 1 (by decide) hd
  rw [Int32.sub_zero] at hlow hhigh
  have hroom {c : Pos} (hc : c.HasRoom 2) (top : Int32) :
      c.HasRoom (crownRadius 1 (top + d - top)) := by
    rw [add_sub_self]
    exact hc.mono hlow hhigh
  rw [crownLayer_eq leaf (hroom hp top), crownLayer_eq leaf (hroom hq top'), add_sub_self,
    add_sub_self]
  refine Build.Abreast.forSquare fun dx _ dz _ => ?_
  refine (abreast_hasLeaf _ d dx dz).bind fun kept _ h => .ite (by rw [h]) (fun _ => ?_) fun _ => ?_
  · exact Build.parallel_still (by simp) (by simp)
  · exact Build.abreast_done trivial

theorem stream_build_eq {t : SmallTree} {p q : Pos} {s u : Site} (hp : t.CrownFits p s)
    (hq : t.CrownFits q u) (hsu : s.stream = u.stream) (hs : ((t.build p).run s).1 = true)
    (hu : ((t.build q).run u).1 = true) :
    ((t.build p).run s).2.stream = ((t.build q).run u).2.stream := by
  obtain ⟨hheight, hafter⟩ := (Build.Only.abreast (m := t.height) (by simp [height])) s u hsu
  have hlow := hp.low
  have hlow' := hq.low
  rw [build, Build.run_bind t.height] at hs hu
  rw [build, build, Build.run_bind t.height, Build.run_bind t.height]
  rw [← hheight] at hu hlow' ⊢
  generalize (t.height.run s).1 = h at hs hu hlow hlow' ⊢
  refine (Build.InStep.check (by simp) (by simp) (Build.InStep.check (by simp) (by simp) ?_))
    _ _ hafter hs hu
  refine .bind (Build.parallel_still (by simp) (by simp)) fun _ _ _ => ?_
  refine .bind (R := fun _ _ => True) ?_ fun _ _ _ => Build.inStep_still (by simp) (by simp)
  rw [forM_crown hlow, forM_crown hlow']
  exact .forM_span fun d hd => parallel_crownLayer _ hd hp.room hq.room

end SmallTree

/-! ## Large oaks and dark oaks -/

namespace LargeOak

@[simp] theorem still_limb (a b : Pos) : (limb a b).Only Act.Still := by
  simp [limb]

theorem still_blockedAt (a b : Pos) : (blockedAt a b).Only Act.Still :=
  .findIndexM? fun p _ => by simp

theorem still_stand (p : Pos) (drawn : Int32) : (stand? p drawn).Only Act.Still := by
  refine .bind (by simp) fun soil => .ite ?_ (.done none)
  refine .bind (still_blockedAt ..) fun free => ?_
  cases free <;> simp

theorem still_clusters (s : Stand) (t : LargeOak) (stream : Stream) :
    (s.clusters t stream).Only Act.Still := by
  have hcluster (layer : Int32) (size : Float32) (c : Stand.Choice) :
      (s.tryCluster t layer size c).Only Act.Still := by
    refine .bind ?_ fun cluster => ?_
    · simp [Stand.admit?, still_blockedAt]
    · cases cluster <;> exact .done _
  have hlayer (layer : Int32) (c : Stand.Choice) : (s.tryLayer t layer c).Only Act.Still := by
    rw [Stand.tryLayer]
    split
    · exact .foldM_span (fun _ _ _ => hcluster ..) c
    · exact .done c
  exact .bind (.foldM_span (fun _ _ _ => hlayer ..) _) fun c => .done c.clusters.toList

/-- A large oak takes one draw, and its limbs take theirs from a stream of their own. -/
theorem inStep_build (t : LargeOak) (p q : Pos) : Build.InStep (t.build p) (t.build q) := by
  refine .bind (Build.Only.abreast (m := Build.child) (by simp)) fun own _ h => ?_
  rw [← h]
  refine .bind_still (still_stand ..) (still_stand ..) fun stand stand' _ _ => ?_
  refine Build.inStep_still ?_ ?_
  · cases stand <;> simp [still_clusters, foliage, leafDisc, trunk, limbTo]
  · cases stand' <;> simp [still_clusters, foliage, leafDisc, trunk, limbTo]

end LargeOak

namespace DarkOak

@[simp] theorem still_placeLog (p : Pos) : (placeLog p).Only Act.Still :=
  Build.still_replace ..

@[simp] theorem still_placeLeaf (p : Pos) : (placeLeaf p).Only Act.Still := by
  simp [placeLeaf]

@[simp] theorem still_isClear (p : Pos) (height : Int32) : (isClear p height).Only Act.Still :=
  .allM_span fun dy _ => .allSquare fun dx _ dz _ => by simp

theorem still_trunk (p towards : Pos) (start height bends : Int32) :
    ((Span.halfOpen 0 height).foldM (trunkLayer p towards start) ⟨p.x, p.z, bends⟩).Only
      Act.Still :=
  .foldM_span (fun t dy _ => by simp [trunkLayer]) _

/-- The columns around both origins draw for their hanging logs alike. -/
theorem parallel_hang (p q top top' : Pos) (dx dz : Int32) :
    Build.Parallel (hang p top dx dz) (hang q top' dx dz) := by
  refine .ite Iff.rfl (fun _ => ?_) fun _ => Build.abreast_done trivial
  refine (Build.abreast_bounded 3).bind fun u _ h => ?_
  refine .ite (by rw [h]) (fun _ => Build.abreast_done trivial) fun _ => ?_
  refine (Build.abreast_bounded 3).bind fun more _ h => ?_
  subst h
  exact Build.parallel_still (by simp [logLeaves]) (by simp [logLeaves])

theorem inStep_build (p q : Pos) : Build.InStep (build p) (build q) := by
  have hlast (top top' : Pos) :
      Build.InStep (do
          middleLayer top
          Build.forSquare (.closed (-1) 2) (.closed (-1) 2) (hang p top)
          return true)
        (do
          middleLayer top'
          Build.forSquare (.closed (-1) 2) (.closed (-1) 2) (hang q top')
          return true) := by
    refine .bind (Build.parallel_still (by simp [middleLayer]) (by simp [middleLayer]))
      fun _ _ _ => ?_
    refine .bind (.forSquare fun dx _ dz _ => parallel_hang p q top top' dx dz) fun _ _ _ => ?_
    exact Build.inStep_still (.done true) (.done true)
  refine .draw fun first _ => .draw fun second _ => .unless fun _ _ => ?_
  refine .check (by simp) (by simp) (.check (by simp) (by simp) ?_)
  refine .bind (Build.parallel_still (by simp) (by simp)) fun _ _ _ => ?_
  refine .draw fun side _ => .draw fun late _ => .draw fun straight _ => ?_
  refine .bind_still (still_trunk ..) (still_trunk ..) fun t t' _ _ => ?_
  refine .bind (Build.parallel_still (by simp [sideLayers, quarterLeaves])
    (by simp [sideLayers, quarterLeaves])) fun _ _ _ => ?_
  refine .bind (Build.Only.abreast (m := Build.coin) (by simp)) fun c _ h => ?_
  subst h
  cases c with
  | false => exact hlast _ _
  | true => exact .bind (Build.parallel_still (by simp) (by simp)) fun _ _ _ => hlast _ _

end DarkOak

/-! ## Conifers -/

@[simp] theorem Conifer.still_leafLayer (c : Pos) (r : Int32) :
    (leafLayer c r).Only Act.Still := by
  simp [leafLayer]

namespace Pine

theorem still_crown (p : Pos) (bottom top : Int32) : (crown p bottom top).Only Act.Still := by
  simp [crown, Build.Only.foldM_span]

/-- How far a trunk goes is drawn alike, whatever it grows into. -/
theorem parallel_trunk (p q : Pos) (height dy : Int32) (n : Nat) :
    Build.Parallel (trunk p height dy n) (trunk q height dy n) := by
  induction n generalizing dy with
  | zero => exact (Build.abreast_bounded 3).bind fun _ _ _ => Build.abreast_done trivial
  | succ n ih =>
      refine (Build.abreast_bounded 3).bind fun gap _ h => ?_
      refine .ite (by rw [h]) (fun _ => ?_) fun _ => ?_
      · exact .bind (Build.parallel_still (by simp) (by simp)) fun _ _ _ => ih _
      · exact Build.abreast_done trivial

theorem inStep_build (p q : Pos) : Build.InStep (build p) (build q) := by
  have hgrow (height bottom : Int32) :
      Build.InStep (do
          crown p (p.y + bottom) (p.y + height)
          trunk p height 0 height.toInt.toNat
          return true)
        (do
          crown q (q.y + bottom) (q.y + height)
          trunk q height 0 height.toInt.toNat
          return true) := by
    refine .bind (Build.parallel_still (still_crown ..) (still_crown ..)) fun _ _ _ => ?_
    refine .bind (parallel_trunk p q height 0 _) fun _ _ _ => ?_
    exact Build.inStep_still (.done true) (.done true)
  refine .draw fun tall _ => .draw fun gap _ => .unless fun _ _ => ?_
  refine .bind_still (by simp) (by simp) fun soil soil' _ _ => .guard fun _ _ => ?_
  exact .optional (by simp) (by simp) (hgrow _ _)

end Pine

namespace Spruce

theorem still_crown (p : Pos) (height layers limit first : Int32) :
    (crown p height layers limit first).Only Act.Still := by
  simp [crown, Build.Only.foldM_span]

theorem inStep_build (p q : Pos) : Build.InStep (build p) (build q) := by
  refine .check (by simp) (by simp) ?_
  refine .draw fun tall _ => .draw fun gap _ => .draw fun wide _ => .draw fun bare _ => ?_
  refine .bind (Build.parallel_still (by simp) (by simp)) fun _ _ _ => ?_
  refine .bind (Build.parallel_still (by simp) (by simp)) fun _ _ _ => .draw fun first _ => ?_
  exact Build.inStep_still (by simp [still_crown]) (by simp [still_crown])

end Spruce

/-! ## Acacias -/

namespace Acacia

@[simp] theorem still_isClear (p : Pos) (height : Int32) : (isClear p height).Only Act.Still :=
  .allM_span fun y _ => by simp

@[simp] theorem still_placeLeaf (p : Pos) : (placeLeaf p).Only Act.Still :=
  Build.still_replace ..

theorem still_leafLayers (c : Pos) (r : Int32) : (leafLayers c r).Only Act.Still := by
  simp [leafLayers]

theorem still_crown (c : Pos) : (crown c).Only Act.Still := by
  simp [crown, still_leafLayers]

theorem still_trunk (p towards : Pos) (start height bends : Int32) :
    ((Span.halfOpen 0 height).foldM (trunkLayer p towards start) ⟨p, bends⟩).Only Act.Still :=
  .foldM_span (fun t dy _ => by simp [trunkLayer, placeLog]) _

theorem still_branch (p towards : Pos) (height : Int32) (n : Nat) (dy : Int32) (last : Pos)
    (top : Option Pos) : (branch p towards height n dy last top).Only Act.Still := by
  induction n generalizing dy last top with
  | zero => exact .done top
  | succ n ih => simp [branch, placeLog, ih]

theorem parallel_secondBranch (p q towards : Pos) (height start : Int32) :
    Build.Parallel (secondBranch p towards height start) (secondBranch q towards height start) := by
  refine (Build.abreast_bounded 2).bind fun fork _ hfork => ?_
  refine (Build.abreast_bounded 3).bind fun more _ hmore => ?_
  rw [← hfork, ← hmore]
  refine .bind (Build.abreast_still (still_branch ..) (still_branch ..)) fun top top' _ => ?_
  refine Build.parallel_still ?_ ?_
  · cases top <;> simp [still_leafLayers]
  · cases top' <;> simp [still_leafLayers]

theorem inStep_build (p q : Pos) : Build.InStep (build p) (build q) := by
  refine .draw fun first _ => .draw fun second _ => .unless fun _ _ => ?_
  refine .check (by simp) (by simp) (.bind_still (by simp) (by simp) fun soil soil' _ _ => ?_)
  refine .guard fun _ _ => .unless fun _ _ => ?_
  refine .bind (Build.parallel_still (by simp) (by simp)) fun _ _ _ => ?_
  refine .draw fun side _ => .draw fun late _ => .draw fun straight _ => ?_
  refine .bind_still (still_trunk ..) (still_trunk ..) fun t t' _ _ => ?_
  refine .bind (Build.parallel_still (still_crown _) (still_crown _)) fun _ _ _ => ?_
  refine .draw fun other _ => Build.Abreast.inStep (R := fun _ _ => True) ?_
  refine .ite Iff.rfl (fun _ => ?_) fun _ => Build.abreast_done trivial
  exact .bind (parallel_secondBranch p q _ _ _) fun _ _ _ => Build.abreast_done trivial

end Acacia

/-! ## Jungle trees and bushes -/

namespace JungleTree

variable {t : JungleTree}

theorem still_trunkLayer (ht : t.vines = false) (base : Pos) (dy : Int32) :
    (t.trunkLayer base dy).Only Act.Still := by
  simp [trunkLayer, ht]

theorem still_placeLeaf (ht : t.vines = false) (depth : Int32) (p : Pos) :
    (t.placeLeaf depth p).Only Act.Still := by
  simp [placeLeaf, ht]

/-- Crown layers of the same depth draw for the same corners. -/
theorem parallel_crownLayer (ht : t.vines = false) (p q : Pos) (top top' d : Int32) :
    Build.Parallel (t.crownLayer p top (top + d)) (t.crownLayer q top' (top' + d)) := by
  simp only [crownLayer, add_sub_self]
  refine Build.Abreast.forSquare fun dx _ dz _ => ?_
  refine (Build.Only.abreast (m := hasLeaf _ d dx dz) (by simp [hasLeaf])).bind fun kept _ h => ?_
  refine .ite (by rw [h]) (fun _ => ?_) fun _ => Build.abreast_done trivial
  exact Build.parallel_still (still_placeLeaf ht ..) (still_placeLeaf ht ..)

/-- Where the ground is not too high for the tree, no layer of its crown wraps. -/
theorem crown_low {ground height : Int32} (hground : 1 ≤ ground)
    (hheight : 4 ≤ height ∧ height ≤ 10) (htop : ¬127 - height < ground) :
    (ground + height - 3).toInt = (ground + height).toInt - 3 := by
  have hsmall : 0 ≤ ground ∧ ground ≤ 123 := by lia
  have hconst : (0 : Int32).toInt = 0 ∧ (3 : Int32).toInt = 3 ∧ (4 : Int32).toInt = 4 ∧
      (10 : Int32).toInt = 10 ∧ (123 : Int32).toInt = 123 := by decide
  simp only [Int32.le_iff_toInt_le] at hsmall hheight
  have hsum : (ground + height).toInt = ground.toInt + height.toInt := by
    rw [Int32.toInt_add]
    exact Int.bmod_eq_of_le (by omega) (by omega)
  rw [Int32.toInt_sub, hconst.2.1, hsum]
  exact Int.bmod_eq_of_le (by omega) (by omega)

theorem inStep_build (ht : t.vines = false) (p q : Pos) :
    Build.InStep (t.build p) (t.build q) := by
  refine .draw fun tall htall => .bind_still (by simp) (by simp) fun ground ground' hp hq => ?_
  have hheight : 4 ≤ 4 + tall ∧ 4 + tall ≤ 10 := by
    have hrange := htall.1 (by decide)
    lia
  cases ground with
  | none => exact Build.inStep_refused_left _
  | some y =>
      cases ground' with
      | none => exact Build.inStep_refused_right _
      | some y' =>
          refine .unless fun hy hy' => .check (by simp) (by simp) ?_
          refine .bind (Build.parallel_still (by simp) (by simp)) fun _ _ _ => ?_
          refine .bind (Build.parallel_still (by simp [still_trunkLayer ht])
            (by simp [still_trunkLayer ht])) fun _ _ _ => ?_
          have hlow := crown_low (Ground.one_le_of_returns_below hp) hheight hy
          have hlow' := crown_low (Ground.one_le_of_returns_below hq) hheight hy'
          simp only [SmallTree.forM_crown hlow, SmallTree.forM_crown hlow']
          refine .bind (.forM_span fun d _ => parallel_crownLayer ht p q _ _ d) fun _ _ _ => ?_
          exact Build.inStep_still (.done true) (.done true)

end JungleTree

namespace JungleBush

theorem parallel_mound (b : JungleBush) (base base' : Pos) (dy : Int32) :
    Build.Parallel (b.mound base dy) (b.mound base' dy) := by
  refine .forSquare fun dx _ dz _ => ?_
  have hcell (kept : Bool) : Build.Parallel
      (if kept = true then Build.replace leafReplaceable (base.shift dx dy dz) b.leaf else .done ())
      (if kept = true then Build.replace leafReplaceable (base'.shift dx dy dz) b.leaf
        else .done ()) :=
    Build.parallel_still (by simp) (by simp)
  refine .ite Iff.rfl (fun _ => ?_) fun _ => hcell true
  refine .bind (Build.Only.abreast (m := (· != 0) <$> Build.bounded 2) ?_) fun kept _ h => ?_
  · rw [map_eq_pure_bind]
    simp
  · subst h
    exact hcell kept

theorem inStep_build (b : JungleBush) (p q : Pos) : Build.InStep (b.build p) (b.build q) := by
  refine .bind_still (by simp) (by simp) fun soil soil' _ _ => .check (by simp) (by simp) ?_
  refine .bind (Build.parallel_still (by simp) (by simp)) fun _ _ _ => ?_
  refine .bind (Build.parallel_still (by simp) (by simp)) fun _ _ _ => ?_
  refine .bind (.forM_span fun dy _ => parallel_mound b _ _ dy) fun _ _ _ => ?_
  exact Build.inStep_still (.done true) (.done true)

end JungleBush

namespace GiantPine

@[simp] theorem still_trunkLayer (base : Pos) (dy : Int32) :
    (trunkLayer base dy).Only Act.Still := by
  simp [trunkLayer]

theorem parallel_spreadPodzol (base base' : Pos) :
    Build.Parallel (spreadPodzol base) (spreadPodzol base') := by
  refine (Build.abreast_bounded 2).bind fun u _ h => ?_
  subst h
  exact Build.parallel_still (by simp) (by simp)

/-- No crown layer is six cells below the top, so no radius is drawn. -/
theorem still_crownLayer (p : Pos) {top y : Int32} (h : top - y < 6) :
    (crownLayer p top y).Only Act.Still := by
  refine .bind ?_ fun r => by simp
  rw [crownRadius, if_pos h]
  simp

theorem still_crown (p : Pos) {top short : Int32} (hshort : 0 ≤ short ∧ short < 3) :
    ((Span.closed (top - short - 3) top).reverse.forM (crownLayer p top)).Only Act.Still := by
  rw [Build.only_forM_span, Span.toList_reverse]
  intro y hy
  have hbottom : top - short - 3 = top + (-short - 3) := by grind
  rw [List.mem_reverse, hbottom, ← Int32.add_zero top, Int32.add_assoc, Int32.zero_add] at hy
  obtain ⟨hlow, hhigh⟩ := Span.sub_range_of_mem_closed (by lia) hy
  exact still_crownLayer p (by lia)

theorem inStep_build (t : GiantPine) (p q : Pos) : Build.InStep (t.build p) (t.build q) := by
  have hcrown (height ground ground' : Int32) : Build.InStep (do
        (Span.halfOpen 0 height).forM (trunkLayer ⟨p.x, ground, p.z⟩)
        let top := ground + height
        let bottom := top - (← Build.bounded 3) - 3
        (Span.closed bottom top).reverse.forM (crownLayer p top)
        return true)
      (do
        (Span.halfOpen 0 height).forM (trunkLayer ⟨q.x, ground', q.z⟩)
        let top := ground' + height
        let bottom := top - (← Build.bounded 3) - 3
        (Span.closed bottom top).reverse.forM (crownLayer q top)
        return true) := by
    refine .bind (Build.parallel_still (by simp) (by simp)) fun _ _ _ => ?_
    refine .draw fun short hshort => ?_
    have hshort := hshort.1 (by decide)
    exact Build.inStep_still ((still_crown p hshort).bind fun _ => .done true)
      ((still_crown q hshort).bind fun _ => .done true)
  refine .bind_still (by simp) (by simp) fun ground ground' _ _ => ?_
  cases ground with
  | none => exact Build.inStep_refused_left _
  | some y =>
      cases ground' with
      | none => exact Build.inStep_refused_right _
      | some y' =>
          refine .unless fun _ _ => .check (.allM (by simp)) (.allM (by simp)) ?_
          refine .draw fun tall _ => ?_
          cases t.podzol with
          | false => exact hcrown _ _ _
          | true => exact .bind (parallel_spreadPodzol _ _) fun _ _ _ => hcrown _ _ _

end GiantPine

end VoxelFeatures
