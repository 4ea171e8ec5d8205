import VoxelFeatures.Feature.Basic
import VoxelFeatures.Proofs.Moves
import VoxelFeatures.Proofs.Room

/-!
# Moved features

Plants, lakes, springs and ice are laid by offsets from their origins or from cells
found below them, so they are moved with the origin. The box of a dungeon, the cap of
a mushroom, and discs and boulders are walked over by coordinates; they are moved
where the spans around both origins do not wrap.
-/

namespace VoxelFeatures

variable (d : Move)

/-! ## Plants -/

@[simp] theorem moved_jitter (bound : Int32) : (jitter bound).moved d = jitter bound := rfl

theorem scatter_moved (p : Pos) :
    scatter (p.moved d) = (scatter p).moved d >>= fun q => .done (q.moved d) := by
  simp [scatter]

@[simp] theorem moved_isPlantable (soils : BlockSet) (p : Pos) :
    (isPlantable soils p).moved d = isPlantable soils (p.moved d) := by
  simp [isPlantable]

theorem moved_plantAround {plant : Pos → Build Unit}
    (h : ∀ q, (plant q).moved d = plant (q.moved d)) (trials : Nat) (soils : BlockSet) (p : Pos) :
    (plantAround trials soils plant p).moved d = plantAround trials soils plant (p.moved d) := by
  simp [plantAround, plantTrial, scatter_moved, h]
  rfl

theorem Patch.moved_pumpkin (p : Pos) : (pumpkin p).moved d = pumpkin (p.moved d) :=
  moved_plantAround d (fun q => by simp [orientation]) _ _ p

theorem Patch.moved_turned (id : BlockId) (p : Pos) :
    (turned id p).moved d = turned id (p.moved d) :=
  moved_plantAround d (fun q => by simp [orientation]) _ _ p

namespace Stalk

@[simp] theorem moved_grow (id : BlockId) (height : Int32) (p : Pos) :
    (grow id height p).moved d = grow id height (p.moved d) := by
  simp [grow]

@[simp] theorem moved_height (least : Int32) : (height least).moved d = height least := rfl

theorem moved_cactus (p : Pos) : (cactus p).moved d = cactus (p.moved d) :=
  moved_plantAround d (fun q => by simp) _ _ p

@[simp] theorem moved_hasWaterBeside (ground : Pos) :
    (hasWaterBeside ground).moved d = hasWaterBeside (ground.moved d) := by
  simp [hasWaterBeside]

theorem moved_sugarCanes (p : Pos) : (sugarCanes p).moved d = sugarCanes (p.moved d) := by
  simp [sugarCanes, caneTrial]
  rfl

end Stalk

theorem TallPlant.moved_build (t : TallPlant) (p : Pos) :
    (t.build p).moved d = t.build (p.moved d) := by
  simp [build, trial, fits, scatter_moved]
  rfl

namespace Vines

@[simp] theorem moved_isHeld (p : Pos) (f : Face) :
    (isHeld p f).moved d = isHeld (p.moved d) f := by
  simp [isHeld]

@[simp] theorem moved_heldBits (p : Pos) : (heldBits p).moved d = heldBits (p.moved d) := by
  simp [heldBits]

theorem moved_build (p : Pos) : (build p).moved d = build (p.moved d) := by
  simp [build, trial, scatter_moved]
  rfl

end Vines

/-! ## Lakes and springs -/

namespace LakeBasin

theorem ground_moved (p : Pos) :
    ground (p.moved d) = (ground p).moved d >>= fun q => .done (q.moved d) := by
  simp only [ground, ← Pos.moved_sub, Pos.moved_y, Build.sink_moved]

@[simp] theorem moved_cell (corner : Pos) (x y z : Nat) :
    (cell corner x y z).moved d = cell (corner.moved d) x y z :=
  Pos.moved_shift ..

@[simp] theorem moved_draw : draw.moved d = draw := by
  have hbowls (n : Nat) : (bowls n).moved d = bowls n := by
    induction n with
    | zero => rfl
    | succ n ih => simp [bowls, unitVec, ih]
  simp [draw, hbowls]

theorem opening_moved (corner : Pos) (b : LakeBasin) (cells : List (Nat × Nat × Nat)) :
    opening (corner.moved d) b cells =
      (opening corner b cells).moved d >>= fun o => .done (o.map (·.moved d)) := by
  induction cells with
  | nil => rfl
  | cons c cells ih =>
      obtain ⟨x, y, z⟩ := c
      rw [opening, opening]
      split
      · simp
        refine congrArg _ (funext fun id => ?_)
        split
        · simp
        · exact ih
      · exact ih

@[simp] theorem moved_fill (fluid : BlockId) (corner : Pos) (b : LakeBasin) :
    (fill fluid corner b).moved d = fill fluid (corner.moved d) b := by
  simp [fill, dig]

theorem moved_build (fluid : BlockId) (p : Pos) :
    (build fluid p).moved d = build fluid (p.moved d) := by
  simp only [build, ground_moved, Build.moved_bind, Build.bind_assoc, Build.done_bind]
  refine congrArg _ (funext fun bottom => ?_)
  by_cases hlow : bottom.y ≤ 4
  · have hlow' : (bottom.moved d).y ≤ 4 := hlow
    rw [if_pos hlow, if_pos hlow']
    rfl
  · have hlow' : ¬(bottom.moved d).y ≤ 4 := hlow
    have hopening (b : LakeBasin) : opening ((bottom.moved d).down 4) b (boxCells 4 4) =
        (opening (bottom.down 4) b (boxCells 4 4)).moved d >>= fun o => .done (o.map (·.moved d)) :=
      opening_moved d (bottom.down 4) b _
    rw [if_neg hlow, if_neg hlow']
    simp only [hopening, Build.moved_bind, moved_draw, Build.bind_assoc, Build.done_bind]
    refine congrArg _ (funext fun b => congrArg _ (funext fun fluidAt => ?_))
    cases fluidAt with
    | none => simp
    | some q => rfl

end LakeBasin

theorem Spring.moved_build (fluid : BlockId) (p : Pos) :
    (build fluid p).moved d = build fluid (p.moved d) := by
  simp [build, Function.comp_def]

/-! ## Mushrooms and ice -/

namespace HugeMushroom

@[simp] theorem moved_species (k : MushroomKind) : (species k).moved d = species k := by
  cases k <;> rfl

@[simp] theorem moved_height : height.moved d = height := by
  simp [height]

/-- How far around the column layer `y` has to be clear. -/
def clearRadius (p : Pos) (y : Int32) : Int32 := if y ≤ p.y + 3 then 0 else 3

/-- The check of one layer. -/
def layerIsClear (p : Pos) (y : Int32) : Build Bool :=
  Build.allSquare (.around p.x (clearRadius p y)) (.around p.z (clearRadius p y)) fun x z =>
    Build.isIn clearance ⟨x, y, z⟩

theorem moved_layerIsClear {p : Pos} {y : Int32} (h : p.HasRoom (clearRadius p y))
    (h' : (p.moved d).HasRoom (clearRadius p y)) :
    (layerIsClear p y).moved d = layerIsClear (p.moved d) y := by
  have hradius : clearRadius (p.moved d) y = clearRadius p y := rfl
  simp only [layerIsClear, hradius, Build.allSquare_around h, Build.allSquare_around h']
  simp

theorem moved_capLayer (s : Species) {p : Pos} {top y : Int32} (h : p.HasRoom (capRadius s top y))
    (h' : (p.moved d).HasRoom (capRadius s top y)) :
    (capLayer s p top y).moved d = capLayer s (p.moved d) top y := by
  simp only [capLayer, Build.forSquare_around h, Build.forSquare_around h', add_sub_self,
    Build.moved_forOffsets]
  refine congrArg _ (funext fun dx => funext fun dz => ?_)
  cases texture? s top y dx dz with
  | none => rfl
  | some t => simp

end HugeMushroom

theorem PackedIce.findSnow_moved (p : Pos) :
    findSnow (p.moved d) = (findSnow p).moved d >>= fun o => .done (o.map (·.moved d)) := by
  simp [findSnow, Build.sink_moved]
  refine congrArg _ (funext fun q => congrArg _ (funext fun snow => ?_))
  cases snow <;> rfl

namespace IcePath

@[simp] theorem moved_radius (i : IcePath) : i.radius.moved d = i.radius := by
  simp [radius]

theorem moved_build (i : IcePath) (p : Pos) : (i.build p).moved d = i.build (p.moved d) := by
  simp only [build, PackedIce.findSnow_moved, Build.moved_bind, Build.bind_assoc, Build.done_bind]
  refine congrArg _ (funext fun snow => ?_)
  cases snow with
  | none => rfl
  | some c => simp [disc_eq]

end IcePath

namespace IceSpike

@[simp] theorem moved_hasCell (layer : Float) (r dx dz : Int32) :
    (hasCell layer r dx dz).moved d = hasCell layer r dx dz := by
  simp [hasCell]

@[simp] theorem moved_layer (p : Pos) (height base dy : Int32) :
    (layer p height base dy).moved d = layer (p.moved d) height base dy := by
  simp [layer]

@[simp] theorem moved_root (p : Pos) (depth : Int32) (n : Nat) :
    (root p depth n).moved d = root (p.moved d) depth n := by
  induction n generalizing p depth with
  | zero => rfl
  | succ n ih => simp [root, ih]

@[simp] theorem moved_rootDepth (dx dz : Int32) : (rootDepth dx dz).moved d = rootDepth dx dz := by
  simp [rootDepth]

@[simp] theorem moved_roots (p : Pos) (base : Int32) :
    (roots p base).moved d = roots (p.moved d) base := by
  simp [roots]
  rfl

theorem lift_moved (p : Pos) (base : Int32) :
    lift (p.moved d) base = (lift p base).moved d >>= fun q => .done (q.moved d) := by
  rw [lift, lift]
  split
  · simp
    refine congrArg _ (funext fun rare => ?_)
    split
    · simp [Note.moved]
    · rfl
  · rfl

theorem moved_build (p : Pos) : (build p).moved d = build (p.moved d) := by
  simp only [build, PackedIce.findSnow_moved, Build.moved_bind, Build.bind_assoc, Build.done_bind]
  refine congrArg _ (funext fun snow => ?_)
  cases snow with
  | none => rfl
  | some c =>
      have hlift (n base : Int32) : lift ((c.moved d).up n) base =
          (lift (c.up n) base).moved d >>= fun q => .done (q.moved d) :=
        lift_moved d (c.up n) base
      simp [hlift]

end IceSpike

/-! ## Dungeons -/

namespace Dungeon

namespace Room

/-- A room around the moved origin. -/
def moved (r : Room) (d : Move) : Room := ⟨r.origin.moved d, r.radiusX, r.radiusZ⟩

/-- The box of a room does not wrap. -/
structure Fits (r : Room) : Prop where
  x : Span.Fits r.origin.x (r.radiusX + 1)
  z : Span.Fits r.origin.z (r.radiusZ + 1)

@[simp] theorem low_moved (r : Room) : (r.moved d).low = r.low.moved d :=
  (Pos.moved_sub ..).symm

@[simp] theorem high_moved (r : Room) : (r.moved d).high = r.high.moved d :=
  (Pos.moved_add ..).symm

@[simp] theorem isWall_moved (r : Room) (p : Pos) :
    (r.moved d).isWall (p.moved d).x (p.moved d).z = r.isWall p.x p.z := by
  simp only [isWall, low_moved, high_moved, Pos.moved, Int32.add_left_inj]

variable {d} {r : Room}

theorem spanX_moved (h : r.Fits) (h' : (r.moved d).Fits) :
    (r.moved d).spanX.toList = r.spanX.toList.map (· + d.x) := by
  have hx' : Span.Fits (r.origin.x + d.x) (r.radiusX + 1) := h'.x
  change (Span.around (r.origin.x + d.x) (r.radiusX + 1)).toList =
    (Span.around r.origin.x (r.radiusX + 1)).toList.map (· + d.x)
  rw [Span.around_eq_move h.x, Span.around_eq_move hx', Span.toList_move, Span.toList_move,
    List.map_map]
  exact List.map_congr_left fun i _ => by simp only [Function.comp_apply]; grind

theorem spanZ_moved (h : r.Fits) (h' : (r.moved d).Fits) :
    (r.moved d).spanZ.toList = r.spanZ.toList.map (· + d.z) := by
  have hz' : Span.Fits (r.origin.z + d.z) (r.radiusZ + 1) := h'.z
  change (Span.around (r.origin.z + d.z) (r.radiusZ + 1)).toList =
    (Span.around r.origin.z (r.radiusZ + 1)).toList.map (· + d.z)
  rw [Span.around_eq_move h.z, Span.around_eq_move hz', Span.toList_move, Span.toList_move,
    List.map_map]
  exact List.map_congr_left fun i _ => by simp only [Function.comp_apply]; grind

end Room

variable (r : Room)

theorem moved_scanCell (p : Pos) (openings : Nat) :
    (scanCell r p openings).moved d = scanCell (r.moved d) (p.moved d) openings := by
  have hlow : decide ((p.moved d).y = (r.moved d).low.y) = decide (p.y = r.low.y) := by
    rw [decide_eq_decide, Room.low_moved]
    rfl
  have hhigh : decide ((p.moved d).y = (r.moved d).high.y) = decide (p.y = r.high.y) := by
    rw [decide_eq_decide, Room.high_moved]
    rfl
  have horigin : decide ((p.moved d).y = (r.moved d).origin.y) = decide (p.y = r.origin.y) := rfl
  rw [scanCell, scanCell]
  simp only [Build.moved_bind, Build.moved_isAir, Build.moved_ite, Pos.moved_up, hlow, hhigh,
    horigin, Room.isWall_moved]
  rfl

theorem scanAll_moved (ps : List Pos) (openings : Nat) :
    scanAll (r.moved d) (ps.map (·.moved d)) openings = (scanAll r ps openings).moved d := by
  induction ps generalizing openings with
  | nil => rfl
  | cons p ps ih =>
      rw [List.map_cons, scanAll, scanAll, Build.moved_bind, moved_scanCell]
      refine congrArg _ (funext fun o => ?_)
      cases o with
      | none => rfl
      | some openings => exact ih openings

theorem moved_carve (p : Pos) : (carve r p).moved d = carve (r.moved d) (p.moved d) := by
  simp [carve, isInside, masonry]

/-! The orders of the cells in a box that does not wrap. -/

variable {d r}

theorem scanOrder_moved (h : r.Fits) (h' : (r.moved d).Fits) :
    scanOrder (r.moved d) = (scanOrder r).map (·.moved d) := by
  have hy : (r.moved d).spanY = r.spanY := by
    rw [Room.spanY, Room.spanY, Room.low_moved, Room.high_moved]
    rfl
  simp only [scanOrder, Room.spanX_moved h h', Room.spanZ_moved h h', hy, List.map_flatMap,
    List.flatMap_map, List.map_map]
  rfl

theorem carveOrder_moved (h : r.Fits) (h' : (r.moved d).Fits) :
    carveOrder (r.moved d) = (carveOrder r).map (·.moved d) := by
  have hy : (r.moved d).carvedY = r.carvedY := by
    rw [Room.carvedY, Room.carvedY, Room.low_moved, Room.high_moved]
    rfl
  simp only [carveOrder, Room.spanX_moved h h', Room.spanZ_moved h h', hy, List.map_flatMap,
    List.flatMap_map, List.map_map]
  rfl

theorem moved_openings? (h : r.Fits) (h' : (r.moved d).Fits) :
    (openings? r).moved d = openings? (r.moved d) := by
  rw [openings?, openings?, scanOrder_moved h h', scanAll_moved]

theorem moved_carveAll (h : r.Fits) (h' : (r.moved d).Fits) :
    (forM (carveOrder r) (carve r)).moved d =
      forM (carveOrder (r.moved d)) (carve (r.moved d)) := by
  rw [carveOrder_moved h h', List.forM_map, Build.moved_forM]
  exact congrArg _ (funext fun p => moved_carve d r p)

end Dungeon

/-! ## Discs and boulders -/

/-- The disc of a drawn radius. -/
theorem Disc.moved_square {p : Pos} {r : Int32} (h : p.HasRoom r) (h' : (p.moved d).HasRoom r)
    (half : Int32) (block : BlockId) (replaceable : BlockSet) :
    (Build.forSquare (.around p.x r) (.around p.z r) fun x z => do
      if isWithin r (x - p.x) (z - p.z) then
        (Span.around p.y half).forM fun y =>
          Build.replace replaceable ⟨x, y, z⟩ (.plain block)).moved d =
      (Build.forSquare (.around (p.moved d).x r) (.around (p.moved d).z r) fun x z => do
        if isWithin r (x - (p.moved d).x) (z - (p.moved d).z) then
          (Span.around (p.moved d).y half).forM fun y =>
            Build.replace replaceable ⟨x, y, z⟩ (.plain block)) := by
  simp only [Build.forSquare_around h, Build.forSquare_around h', add_sub_self]
  simp

namespace Boulder

theorem fall_moved (p : Pos) (n : Nat) :
    fall (p.moved d) n = (fall p n).moved d >>= fun q => .done (q.moved d) := by
  induction n generalizing p with
  | zero => rfl
  | succ n ih =>
      rw [fall, fall, Build.moved_bind, Build.bind_assoc]
      refine congrArg _ (funext fun air => ?_)
      cases air with
      | false => rfl
      | true => exact ih (p.down 1)

@[simp] theorem moved_sideStep : sideStep.moved d = sideStep := rfl

/-- A sphere of drawn radii. -/
theorem moved_heap (b : Boulder) {p : Pos} {rx rz : Int32} (hx : Span.Fits p.x rx)
    (hz : Span.Fits p.z rz) (hx' : Span.Fits (p.moved d).x rx) (hz' : Span.Fits (p.moved d).z rz)
    (ry : Int32) (distance : Float) :
    (Build.forSquare (.around p.x rx) (.around p.z rz) fun x z =>
      (Span.around p.y ry).forM fun y => do
        if isWithin distance (x - p.x) (y - p.y) (z - p.z) then
          Build.place ⟨x, y, z⟩ (.plain b.block)).moved d =
      (Build.forSquare (.around (p.moved d).x rx) (.around (p.moved d).z rz) fun x z =>
        (Span.around (p.moved d).y ry).forM fun y => do
          if isWithin distance (x - (p.moved d).x) (y - (p.moved d).y) (z - (p.moved d).z) then
            Build.place ⟨x, y, z⟩ (.plain b.block)) := by
  simp only [Build.forSquare, Span.around_eq_move hx, Span.around_eq_move hz,
    Span.around_eq_move hx', Span.around_eq_move hz', Span.forM_move, add_sub_self]
  simp
  rfl

end Boulder

end VoxelFeatures
