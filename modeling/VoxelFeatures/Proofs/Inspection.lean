import VoxelFeatures.Feature.Basic
import VoxelFeatures.Feature.OreLayer
import VoxelFeatures.Proofs.Walks

/-!
# Programs that only inspect

Searches, clearance checks and shape draws draw and look, but neither place nor
report. This module goes through all of them, kind by kind, so that what is
shown of a placing program need not look into the searches that it makes.
-/

namespace VoxelFeatures

/-- The act draws or looks. -/
def Act.Inspects : Act → Prop
  | draw _ | look _ => True
  | place .. | report _ => False

@[simp] theorem Act.inspects_draw (d : Draw) : (Act.draw d).Inspects := trivial

@[simp] theorem Act.inspects_look (p : Pos) : (Act.look p).Inspects := trivial

namespace Build

@[simp] theorem inspects_double : double.Only Act.Inspects := by
  simp [double]

@[simp] theorem inspects_sink (p : Pos) (n : Nat) : (sink p n).Only Act.Inspects := by
  induction n generalizing p with
  | zero => exact .done _
  | succ n ih => simp [sink, ih]

end Build

/-! ## Trees -/

namespace Ground

theorem inspects_find (soils : BlockSet) (x z : Int32) (n : Nat) :
    (find soils x z n).Only Act.Inspects := by
  induction n with
  | zero => exact .done _
  | succ n ih => simp [find, ih]

@[simp] theorem inspects_below (soils : BlockSet) (p : Pos) :
    (below soils p).Only Act.Inspects :=
  inspects_find ..

end Ground

@[simp] theorem inspects_isSquareIn (s : BlockSet) (p : Pos) (r : Int32) :
    (isSquareIn s p r).Only Act.Inspects :=
  .allSquare fun x _ z _ => by simp

namespace SmallTree

@[simp] theorem inspects_height (t : SmallTree) : t.height.Only Act.Inspects := by
  simp [height]

@[simp] theorem inspects_isClear (s : BlockSet) (p : Pos) (height : Int32) :
    (isClear s p height).Only Act.Inspects :=
  .allM_span fun dy _ => by simp

@[simp] theorem inspects_hasLeaf (r depth dx dz : Int32) :
    (hasLeaf r depth dx dz).Only Act.Inspects := by
  simp [hasLeaf]

end SmallTree

@[simp] theorem DarkOak.inspects_isClear (p : Pos) (height : Int32) :
    (isClear p height).Only Act.Inspects :=
  .allM_span fun dy _ => .allSquare fun dx _ dz _ => by simp

@[simp] theorem Acacia.inspects_isClear (p : Pos) (height : Int32) :
    (isClear p height).Only Act.Inspects :=
  .allM_span fun y _ => by simp

namespace SwampOak

@[simp] theorem inspects_sink (p : Pos) (n : Nat) : (sink p n).Only Act.Inspects := by
  induction n generalizing p with
  | zero => exact .done _
  | succ n ih => simp [sink, ih]

theorem inspects_hasRoom (p q : Pos) : (hasRoom p q).Only Act.Inspects := by
  simp [hasRoom]

@[simp] theorem inspects_isClear (p : Pos) (height : Int32) :
    (isClear p height).Only Act.Inspects := by
  refine .allM_span fun y _ => (Build.only_ite ..).2 ⟨fun _ => ?_, fun _ => .done false⟩
  exact .allSquare fun x _ z _ => inspects_hasRoom ..

end SwampOak

@[simp] theorem JungleTree.inspects_hasLeaf (r depth dx dz : Int32) :
    (hasLeaf r depth dx dz).Only Act.Inspects := by
  simp [hasLeaf]

@[simp] theorem GiantPine.inspects_crownRadius (fromTop : Int32) :
    (crownRadius fromTop).Only Act.Inspects := by
  simp [crownRadius]

namespace LargeOak

@[simp] theorem inspects_blockedAt (a b : Pos) : (blockedAt a b).Only Act.Inspects :=
  .findIndexM? fun p _ => by simp

@[simp] theorem inspects_stand (p : Pos) (drawn : Int32) :
    (stand? p drawn).Only Act.Inspects := by
  refine .bind (by simp) fun soil => (Build.only_ite ..).2 ⟨fun _ => ?_, fun _ => .done none⟩
  refine .bind (inspects_blockedAt ..) fun free => ?_
  cases free <;> simp

namespace Stand

theorem inspects_admission (s : Stand) (t : LargeOak) (p : Pos) :
    (s.admit? t p).Only Act.Inspects := by
  simp [admit?]

theorem inspects_tryCluster (s : Stand) (t : LargeOak) (layer : Int32) (size : Float32)
    (c : Choice) : (s.tryCluster t layer size c).Only Act.Inspects := by
  refine .bind (inspects_admission ..) fun cluster => ?_
  cases cluster <;> exact .done _

theorem inspects_tryLayer (s : Stand) (t : LargeOak) (layer : Int32) (c : Choice) :
    (s.tryLayer t layer c).Only Act.Inspects := by
  rw [tryLayer]
  split
  · exact .foldM_span (fun _ _ _ => inspects_tryCluster ..) c
  · exact .done c

@[simp] theorem inspects_clusters (s : Stand) (t : LargeOak) (stream : Stream) :
    (s.clusters t stream).Only Act.Inspects :=
  .bind (.foldM_span (fun _ _ _ => inspects_tryLayer ..) _) fun c => .done c.clusters.toList

end Stand

end LargeOak

/-! ## Other features -/

namespace LakeBasin

@[simp] theorem inspects_ground (p : Pos) : (ground p).Only Act.Inspects :=
  Build.inspects_sink ..

theorem inspects_bowls (n : Nat) : (bowls n).Only Act.Inspects := by
  induction n with
  | zero => exact .done _
  | succ n ih => simp [bowls, unitVec, ih]

@[simp] theorem inspects_draw : draw.Only Act.Inspects := by
  simp [draw, inspects_bowls]

@[simp] theorem inspects_opening (corner : Pos) (b : LakeBasin) (cells : List (Nat × Nat × Nat)) :
    (opening corner b cells).Only Act.Inspects := by
  induction cells with
  | nil => exact .done _
  | cons c cells ih =>
      obtain ⟨x, y, z⟩ := c
      simp [opening, ih]

end LakeBasin

namespace Dungeon

theorem inspects_scanCell (r : Room) (p : Pos) (openings : Nat) :
    (scanCell r p openings).Only Act.Inspects := by
  simp [scanCell]

theorem inspects_scanAll (r : Room) (cells : List Pos) (openings : Nat) :
    (scanAll r cells openings).Only Act.Inspects := by
  induction cells generalizing openings with
  | nil => exact .done _
  | cons p cells ih =>
      refine .bind (inspects_scanCell ..) fun next => ?_
      cases next with
      | none => exact .done none
      | some openings => exact ih openings

@[simp] theorem inspects_openings (r : Room) : (openings? r).Only Act.Inspects :=
  inspects_scanAll ..

@[simp] theorem inspects_masonry (r : Room) (p : Pos) : (masonry r p).Only Act.Inspects := by
  simp [masonry]

end Dungeon

namespace HugeMushroom

@[simp] theorem inspects_species (k : MushroomKind) : (species k).Only Act.Inspects := by
  cases k <;> simp [species]

@[simp] theorem inspects_height : height.Only Act.Inspects := by
  simp [height]

@[simp] theorem inspects_isClear (p : Pos) (height : Int32) :
    (isClear p height).Only Act.Inspects :=
  .allM_span fun y _ => .allSquare fun x _ z _ => by simp

end HugeMushroom

@[simp] theorem PackedIce.inspects_findSnow (p : Pos) : (findSnow p).Only Act.Inspects := by
  simp [findSnow]

@[simp] theorem IcePath.inspects_radius (i : IcePath) : i.radius.Only Act.Inspects := by
  simp [radius]

namespace IceSpike

@[simp] theorem inspects_hasCell (layer : Float) (r dx dz : Int32) :
    (hasCell layer r dx dz).Only Act.Inspects := by
  simp [hasCell]

@[simp] theorem inspects_rootDepth (dx dz : Int32) : (rootDepth dx dz).Only Act.Inspects := by
  simp [rootDepth]

end IceSpike

namespace Boulder

@[simp] theorem inspects_fall (p : Pos) (n : Nat) : (fall p n).Only Act.Inspects := by
  induction n generalizing p with
  | zero => exact .done _
  | succ n ih => simp [fall, ih]

@[simp] theorem inspects_sideStep : sideStep.Only Act.Inspects := by
  simp [sideStep]

end Boulder

@[simp] theorem OreDistribution.inspects_height (d : OreDistribution) :
    d.height.Only Act.Inspects := by
  cases d <;> simp [height]

/-! ## Plants -/

@[simp] theorem inspects_scatter (p : Pos) : (scatter p).Only Act.Inspects := by
  simp [scatter, jitter]

@[simp] theorem inspects_isPlantable (soils : BlockSet) (p : Pos) :
    (isPlantable soils p).Only Act.Inspects := by
  simp [isPlantable]

@[simp] theorem Patch.inspects_orientation : orientation.Only Act.Inspects := by
  simp [orientation]

namespace Stalk

@[simp] theorem inspects_height (least : Int32) : (height least).Only Act.Inspects := by
  simp [height]

@[simp] theorem inspects_hasWaterBeside (ground : Pos) :
    (hasWaterBeside ground).Only Act.Inspects :=
  .anyM fun f _ => by simp

end Stalk

@[simp] theorem TallPlant.inspects_fits (p : Pos) : (fits p).Only Act.Inspects := by
  simp [fits]

@[simp] theorem Vines.inspects_heldBits (p : Pos) : (heldBits p).Only Act.Inspects :=
  .bind (.filterM fun f _ => by simp [isHeld]) fun fs => .done (bits fs)

end VoxelFeatures
