import VoxelFeatures.Proofs.Trace

/-!
# Every write of a feature is legal and traced

Every block that a feature places has metadata of four bits. Most blocks carry
none, or that of their species; the others compute it: caps of mushrooms by their
side, vines by the faces that hold them, logs by their axis, and turned blocks by
a draw whose range makes the difference. Species and bushes of the caller's own
choice have to bring metadata that fits.
-/

namespace VoxelFeatures

/-! ## Metadata -/

-- Not by `rfl`: side conditions on metadata need a rewrite that leaves a proof behind.
@[simp] theorem Block.data_plain (id : BlockId) : (plain id).data = 0 := by
  rw [plain]

theorem data_or_lt {v w : UInt8} (hv : v < 16) (hw : w < 16) : v ||| w < 16 := by
  rw [UInt8.lt_iff_toNat_lt, UInt8.toNat_or]
  exact Nat.or_lt_two_pow (n := 4) hv hw

@[simp] theorem Face.vineBit_lt (f : Face) : f.vineBit < 16 := by
  cases f <;> decide

theorem Vines.bits_lt (fs : List Face) : bits fs < 16 := by
  have step (v : UInt8) (hv : v < 16) : fs.foldl (fun v f => v ||| f.vineBit) v < 16 := by
    induction fs generalizing v with
    | nil => exact hv
    | cons f fs ih => exact ih _ (data_or_lt hv f.vineBit_lt)
  exact step 0 (by decide)

@[simp] theorem JungleTree.hangingData_lt (i : Int32) : hangingData i < 16 := by
  have h (n : Nat) : ([1, 2, 4, 8] : List UInt8).getD n 0 < 16 := by
    match n with
    | 0 | 1 | 2 | 3 => decide
    | n + 4 => exact (by decide : (0 : UInt8) < 16)
  exact h i.toInt.toNat

@[simp] theorem LargeOak.logData_lt (start p : Pos) : logData start p < 16 := by
  simp only [logData]
  split
  · decide
  · split <;> decide

/-- A drawn orientation is one of four, because the draw is in its range. -/
theorem Patch.orientation_lt {v : UInt8} (h : orientation.Returns v) : v < 4 := by
  obtain ⟨u, hu, rfl⟩ := (Build.returns_bind ..).1 h
  rw [Build.returns_bounded] at hu
  obtain ⟨hlow, hhigh⟩ := hu.1 (by decide)
  rw [Int32.le_iff_toInt_le, show (0 : Int32).toInt = 0 by decide] at hlow
  rw [Int32.lt_iff_toInt_lt, show (4 : Int32).toInt = 4 by decide] at hhigh
  have hcases : u.toInt = 0 ∨ u.toInt = 1 ∨ u.toInt = 2 ∨ u.toInt = 3 := by omega
  rw [← u.ofInt_toInt]
  rcases hcases with h | h | h | h <;> rw [h] <;> decide

namespace HugeMushroom

theorem sideTexture_lt (r dx dz : Int32) : sideTexture r dx dz < 16 := by
  simp only [sideTexture]
  repeat' split
  all_goals decide

theorem cutTexture_lt (r dx dz : Int32) : cutTexture r dx dz < 16 := by
  simp only [cutTexture]
  repeat' split
  case isFalse => exact sideTexture_lt ..
  all_goals decide

theorem texture_lt {s : Species} {top y dx dz : Int32} {t : UInt8}
    (h : texture? s top y dx dz = some t) : t < 16 := by
  simp only [texture?] at h
  split at h
  · cases h
  · split at h <;> split at h
    · cases h
    · cases h
      exact cutTexture_lt ..
    · cases h
    · cases h
      exact sideTexture_lt ..

end HugeMushroom

/-! ## Trees -/

@[simp] theorem legal_growTrunk {trunk : Block} (h : trunk.data < 16) (s : BlockSet) (p : Pos)
    (height : Int32) : (growTrunk s trunk p height).Only Act.Legal := by
  simp [growTrunk, h]

@[simp] theorem legal_tryVine (p : Pos) (f : Face) : (tryVine p f).Only Act.Legal := by
  simp [tryVine]

@[simp] theorem Ground.data_dirt : dirt.data = 0 := Block.data_plain ..

namespace SmallTree

@[simp] theorem legal_crownLayer {leaf : Block} (h : leaf.data < 16) (p : Pos) (top y : Int32) :
    (crownLayer leaf p top y).Only Act.Legal := by
  simp [crownLayer, h]

theorem legal_build {t : SmallTree} (htrunk : t.species.trunk.data < 16)
    (hleaf : t.species.leaf.data < 16) (p : Pos) : (t.build p).Only Act.Legal := by
  simp [build, htrunk, hleaf]

end SmallTree

namespace LargeOak

theorem legal_limb (a b : Pos) : (limb a b).Only Act.Legal := by
  simp [limb]

@[simp] theorem legal_trunk (t : LargeOak) (s : Stand) : (t.trunk s).Only Act.Legal := by
  simp [trunk, legal_limb]

@[simp] theorem legal_foliage (t : LargeOak) (c : Cluster) : (t.foliage c).Only Act.Legal := by
  simp [foliage, leafDisc]

@[simp] theorem legal_limbTo (s : Stand) (c : Cluster) : (limbTo s c).Only Act.Legal := by
  simp [limbTo, legal_limb]

theorem legal_build (t : LargeOak) (p : Pos) : (t.build p).Only Act.Legal := by
  apply Build.Only.bind (by simp)
  intro own
  apply Build.Only.bind (inspects_stand ..).legal
  intro stand
  cases stand with
  | none => exact .done _
  | some s => simp

end LargeOak

namespace DarkOak

@[simp] theorem legal_placeLog (p : Pos) : (placeLog p).Only Act.Legal :=
  Build.legal_replace (by decide) ..

@[simp] theorem legal_placeLeaf (p : Pos) : (placeLeaf p).Only Act.Legal := by
  simp [placeLeaf, Species.darkOak, Species.ofBlocks]

@[simp] theorem legal_trunkLayer (p towards : Pos) (start : Int32) (t : Trunk) (dy : Int32) :
    (trunkLayer p towards start t dy).Only Act.Legal := by
  simp [trunkLayer]

@[simp] theorem legal_sideLayers (top : Pos) : (sideLayers top).Only Act.Legal := by
  simp [sideLayers, quarterLeaves]

@[simp] theorem legal_middleLayer (top : Pos) : (middleLayer top).Only Act.Legal := by
  simp [middleLayer]

@[simp] theorem legal_hang (p top : Pos) (dx dz : Int32) :
    (hang p top dx dz).Only Act.Legal := by
  simp [hang, logLeaves]

theorem legal_build (p : Pos) : (build p).Only Act.Legal := by
  simp [build, Build.Only.foldM_span]

end DarkOak

@[simp] theorem Conifer.legal_leafLayer (c : Pos) (r : Int32) :
    (leafLayer c r).Only Act.Legal := by
  simp [leafLayer, Species.spruce, Species.ofBlocks]

namespace Pine

@[simp] theorem legal_crown (p : Pos) (bottom top : Int32) :
    (crown p bottom top).Only Act.Legal := by
  simp [crown, Build.Only.foldM_span]

@[simp] theorem legal_trunk (p : Pos) (height dy : Int32) (n : Nat) :
    (trunk p height dy n).Only Act.Legal := by
  induction n generalizing dy with
  | zero => simp [trunk]
  | succ n ih => simp [trunk, ih, Species.spruce, Species.ofBlocks]

theorem legal_build (p : Pos) : (build p).Only Act.Legal := by
  simp [build]

end Pine

namespace Spruce

@[simp] theorem legal_crown (p : Pos) (height layers limit first : Int32) :
    (crown p height layers limit first).Only Act.Legal := by
  simp [crown, Build.Only.foldM_span]

theorem legal_build (p : Pos) : (build p).Only Act.Legal := by
  simp [build, Species.spruce, Species.ofBlocks]

end Spruce

namespace Acacia

@[simp] theorem legal_placeLog (p : Pos) : (placeLog p).Only Act.Legal := by
  simp [placeLog, Species.acacia, Species.ofBlocks]

@[simp] theorem legal_placeLeaf (p : Pos) : (placeLeaf p).Only Act.Legal :=
  Build.legal_replace (by decide) ..

@[simp] theorem legal_leafLayers (c : Pos) (r : Int32) : (leafLayers c r).Only Act.Legal := by
  simp [leafLayers]

@[simp] theorem legal_crown (c : Pos) : (crown c).Only Act.Legal := by
  simp [crown]

@[simp] theorem legal_trunkLayer (p towards : Pos) (start : Int32) (t : Trunk) (dy : Int32) :
    (trunkLayer p towards start t dy).Only Act.Legal := by
  simp [trunkLayer]

theorem legal_branch (p towards : Pos) (height : Int32) (n : Nat) (dy : Int32) (last : Pos)
    (top : Option Pos) : (branch p towards height n dy last top).Only Act.Legal := by
  induction n generalizing dy last top with
  | zero => exact .done _
  | succ n ih => simp [branch, ih]

@[simp] theorem legal_secondBranch (p towards : Pos) (height start : Int32) :
    (secondBranch p towards height start).Only Act.Legal := by
  apply Build.Only.bind (by simp)
  intro fork
  apply Build.Only.bind (by simp)
  intro length
  apply Build.Only.bind (legal_branch ..)
  intro top
  cases top with
  | none => exact .done _
  | some c => exact legal_leafLayers c 2

theorem legal_build (p : Pos) : (build p).Only Act.Legal := by
  simp [build, Build.Only.foldM_span]

end Acacia

namespace SwampOak

@[simp] theorem legal_crownLayer (p : Pos) (top y : Int32) :
    (crownLayer p top y).Only Act.Legal := by
  simp [crownLayer, Species.oak, Species.ofBlocks]

theorem legal_extendVine {data : UInt8} (h : data < 16) (p : Pos) (n : Nat) :
    (extendVine data p n).Only Act.Legal := by
  induction n generalizing p with
  | zero => exact .done _
  | succ n ih => simp [extendVine, h, ih]

@[simp] theorem legal_vineLayer (p : Pos) (top y : Int32) :
    (vineLayer p top y).Only Act.Legal := by
  simp [vineLayer, vineBeside, hangVine, legal_extendVine]

theorem legal_build (p : Pos) : (build p).Only Act.Legal := by
  simp [build, Species.oak, Species.ofBlocks]

end SwampOak

namespace JungleTree

@[simp] theorem legal_hang {data : UInt8} (h : data < 16) (x y z : Int32) (n : Nat) :
    (hang data x y z n).Only Act.Legal := by
  induction n generalizing y with
  | zero => exact .done _
  | succ n ih => simp [hang, h, ih]

@[simp] theorem legal_trunkLayer (t : JungleTree) (base : Pos) (dy : Int32) :
    (t.trunkLayer base dy).Only Act.Legal := by
  simp [trunkLayer, Species.jungle, Species.ofBlocks]

@[simp] theorem legal_crownLayer (t : JungleTree) (p : Pos) (top y : Int32) :
    (t.crownLayer p top y).Only Act.Legal := by
  simp [crownLayer, placeLeaf, vineBelow, Species.jungle, Species.ofBlocks]

theorem legal_build (t : JungleTree) (p : Pos) : (t.build p).Only Act.Legal := by
  apply Build.Only.bind (by simp)
  intro extra
  apply Build.Only.bind (by simp)
  intro ground
  cases ground with
  | none => exact .done _
  | some y => simp

end JungleTree

theorem JungleBush.legal_build {b : JungleBush} (hlog : b.log.data < 16)
    (hleaf : b.leaf.data < 16) (p : Pos) : (b.build p).Only Act.Legal := by
  simp [build, mound, hlog, hleaf]

namespace GiantJungle

@[simp] theorem legal_placeLeaf (p : Pos) : (placeLeaf p).Only Act.Legal :=
  Build.legal_replace (by decide) ..

@[simp] theorem legal_branches (p : Pos) (height y : Int32) (n : Nat) :
    (branches p height y n).Only Act.Legal := by
  induction n generalizing y with
  | zero => exact .done _
  | succ n ih => simp [branches, branch, squareLayer, ih, Species.jungle, Species.ofBlocks]

@[simp] theorem legal_trunkLayer (p : Pos) (height dy : Int32) :
    (trunkLayer p height dy).Only Act.Legal := by
  simp [trunkLayer, log, Species.jungle, Species.ofBlocks]

theorem legal_build (p : Pos) : (build p).Only Act.Legal := by
  simp [build, crown, discLayer, Build.Only.allM]

end GiantJungle

namespace GiantPine

@[simp] theorem legal_spreadPodzol (base : Pos) : (spreadPodzol base).Only Act.Legal := by
  simp [spreadPodzol, podzolDirt]

@[simp] theorem legal_trunkLayer (base : Pos) (dy : Int32) :
    (trunkLayer base dy).Only Act.Legal := by
  simp [trunkLayer, Species.spruce, Species.ofBlocks]

@[simp] theorem legal_crownLayer (p : Pos) (top y : Int32) :
    (crownLayer p top y).Only Act.Legal := by
  simp [crownLayer, Species.spruce, Species.ofBlocks]

theorem legal_build (t : GiantPine) (p : Pos) : (t.build p).Only Act.Legal := by
  apply Build.Only.bind (by simp)
  intro ground
  cases ground with
  | none => exact .done _
  | some y => simp [Build.Only.allM]

end GiantPine

/-! ## Other features -/

namespace Vein

@[simp] theorem legal_link (spec : VeinSpec) (s : Segment) (i : Int32) :
    (link spec s i).Only Act.Legal := by
  have h : spec.ore.data < 16 := UInt8.lt_iff_toNat_lt.2 (Nat.lt_succ_of_le spec.data_le)
  simp [link, replaceHost, h]

@[simp] theorem legal_build (spec : VeinSpec) (p : Pos) : (build spec p).Only Act.Legal := by
  simp [build]

end Vein

theorem OreLayer.legal_buildAll (layers : List OreLayer) (cornerX cornerZ : Int32) :
    (buildAll layers cornerX cornerZ).Only Act.Legal := by
  simp [buildAll, OreLayer.build, vein, Note.isPlacement]

namespace LakeBasin

@[simp] theorem legal_fill (fluid : BlockId) (corner : Pos) (b : LakeBasin) :
    (fill fluid corner b).Only Act.Legal := by
  simp [fill, dig, content]

theorem legal_build (fluid : BlockId) (p : Pos) : (build fluid p).Only Act.Legal := by
  apply Build.Only.bind (by simp)
  intro bottom
  refine (Build.only_ite ..).2 ⟨fun _ => .done _, fun _ => ?_⟩
  apply Build.Only.bind (by simp)
  intro b
  apply Build.Only.bind (by simp)
  intro found
  cases found with
  | none => simp
  | some fluidAt => simp [Note.isPlacement]

end LakeBasin

theorem Spring.legal_build (fluid : BlockId) (p : Pos) : (build fluid p).Only Act.Legal := by
  simp [build, Build.Only.mapM]

namespace Dungeon

@[simp] theorem legal_carve (r : Room) (p : Pos) : (carve r p).Only Act.Legal := by
  simp [carve, Block.air]

theorem legal_build (p : Pos) : (build p).Only Act.Legal := by
  apply Build.Only.bind (by simp)
  intro drawnX
  apply Build.Only.bind (by simp)
  intro drawnZ
  apply Build.Only.bind (by simp)
  intro count
  cases count with
  | none => exact .done _
  | some openings => simp [Note.isPlacement]

end Dungeon

namespace HugeMushroom

@[simp] theorem legal_capLayer (s : Species) (p : Pos) (top y : Int32) :
    (capLayer s p top y).Only Act.Legal := by
  refine (Build.only_forSquare ..).2 fun x _ z _ => ?_
  split
  · rename_i t ht
    exact Build.legal_replace (texture_lt ht) ..
  · exact .done ()

theorem legal_build (k : MushroomKind) (p : Pos) : (build k p).Only Act.Legal := by
  simp [build, CapTexture.stem]

end HugeMushroom

@[simp] theorem PackedIce.data_block : block.data = 0 := Block.data_plain ..

theorem IcePath.legal_build (i : IcePath) (p : Pos) : (i.build p).Only Act.Legal := by
  apply Build.Only.bind (by simp)
  intro snow
  cases snow with
  | none => exact .done _
  | some q => simp [disc_eq]

namespace IceSpike

@[simp] theorem legal_layer (p : Pos) (height base dy : Int32) :
    (layer p height base dy).Only Act.Legal := by
  simp [layer]

theorem legal_root (p : Pos) (depth : Int32) (n : Nat) : (root p depth n).Only Act.Legal := by
  induction n generalizing p depth with
  | zero => exact .done _
  | succ n ih => simp [root, ih]

@[simp] theorem legal_roots (p : Pos) (base : Int32) : (roots p base).Only Act.Legal := by
  simp [roots, legal_root]

@[simp] theorem legal_lift (p : Pos) (base : Int32) : (lift p base).Only Act.Legal := by
  simp [lift, Note.isPlacement]

theorem legal_build (p : Pos) : (build p).Only Act.Legal := by
  apply Build.Only.bind (by simp)
  intro snow
  cases snow with
  | none => exact .done _
  | some q => simp

end IceSpike

theorem Disc.legal_lay (bound half : Int32) (block : BlockId) (replaceable : BlockSet) (p : Pos) :
    (lay bound half block replaceable p).Only Act.Legal := by
  simp [lay]

namespace Boulder

@[simp] theorem legal_sphere (b : Boulder) (p : Pos) : (b.sphere p).Only Act.Legal := by
  simp [sphere]

@[simp] theorem legal_spheres (b : Boulder) (p : Pos) (n : Nat) :
    (b.spheres p n).Only Act.Legal := by
  induction n generalizing p with
  | zero => exact .done _
  | succ n ih => simp [spheres, ih]

theorem legal_build (b : Boulder) (p : Pos) : (b.build p).Only Act.Legal := by
  simp [build, Note.isPlacement]

end Boulder

/-! ## Plants -/

theorem legal_plantAround {plant : Pos → Build Unit} (h : ∀ q, (plant q).Only Act.Legal)
    (trials : Nat) (soils : BlockSet) (p : Pos) :
    (plantAround trials soils plant p).Only Act.Legal := by
  simp [plantAround, Build.Only.repeated, plantTrial, h]

namespace Patch

theorem legal_bush (plant : Plant) (p : Pos) : (bush plant p).Only Act.Legal :=
  legal_plantAround (fun q => (Build.only_place q plant.block).2 plant.data_lt) ..

theorem legal_deadBush (p : Pos) : (deadBush p).Only Act.Legal :=
  legal_plantAround (fun _ => by simp) ..

theorem legal_tallGrass (data : UInt8) (p : Pos) : (tallGrass data p).Only Act.Legal :=
  let plant := Plant.ofByte .tallGrass data
  legal_plantAround (fun q => (Build.only_place q plant.block).2 plant.data_lt) ..

theorem legal_waterLily (p : Pos) : (waterLily p).Only Act.Legal :=
  legal_plantAround (fun _ => by simp) ..

/-- A placement turned by a draw. -/
theorem legal_placeTurned (id : BlockId) (q : Pos) :
    (orientation >>= fun v => Build.place q ⟨id, v⟩).Only Act.Legal := by
  refine (Build.only_bind ..).2 ⟨by simp, fun v hv => (Build.only_place ..).2 ?_⟩
  have hlt : v < 4 := orientation_lt hv
  rw [Act.legal_place]
  rw [UInt8.lt_iff_toNat_lt] at hlt ⊢
  exact Nat.lt_trans hlt (by decide)

theorem legal_pumpkin (p : Pos) : (pumpkin p).Only Act.Legal :=
  legal_plantAround (fun q => legal_placeTurned .pumpkin q) ..

theorem legal_turned (id : BlockId) (p : Pos) : (turned id p).Only Act.Legal :=
  legal_plantAround (fun q => .bind (by simp) fun _ => legal_placeTurned id q) ..

end Patch

namespace Stalk

@[simp] theorem legal_grow (id : BlockId) (height : Int32) (p : Pos) :
    (grow id height p).Only Act.Legal := by
  simp [grow]

theorem legal_cactus (p : Pos) : (cactus p).Only Act.Legal :=
  legal_plantAround (fun q => by simp) ..

theorem legal_sugarCanes (p : Pos) : (sugarCanes p).Only Act.Legal := by
  simp [sugarCanes, Build.Only.repeated, caneTrial, jitter]

end Stalk

namespace Vines

theorem heldBits_lt {p : Pos} {v : UInt8} (h : (heldBits p).Returns v) : v < 16 := by
  obtain ⟨fs, -, rfl⟩ := (Build.returns_bind ..).1 h
  exact bits_lt fs

theorem legal_trial (p : Pos) : (trial p).Only Act.Legal := by
  apply Build.Only.bind (by simp)
  intro q
  refine (Build.only_ite ..).2 ⟨fun _ => ?_, fun _ => .done _⟩
  apply Build.Only.bind (by simp)
  intro air
  refine (Build.only_ite ..).2 ⟨fun _ => ?_, fun _ => .done _⟩
  refine (Build.only_bind ..).2 ⟨by simp, fun held hheld => ?_⟩
  simp [heldBits_lt hheld]

theorem legal_build (p : Pos) : (build p).Only Act.Legal := by
  simp [build, Build.Only.repeated, legal_trial]

end Vines

namespace TallPlant

theorem upper_data_lt (t : TallPlant) : t.upper.data < 16 :=
  data_or_lt (by decide) (UInt8.lt_trans t.variant_lt (by decide))

theorem legal_build (t : TallPlant) (p : Pos) : (t.build p).Only Act.Legal := by
  have hlower : t.lower.data < 16 := UInt8.lt_trans t.variant_lt (by decide)
  refine .anyRepeated ?_ 64
  simp [trial, hlower, t.upper_data_lt]

end TallPlant

/-! ## The library -/

/-- The metadata of a caller's own species fits in four bits. -/
def Tree.MetadataFits : Tree → Prop
  | small t => t.species.trunk.data < 16 ∧ t.species.leaf.data < 16
  | jungleBush b => b.log.data < 16 ∧ b.leaf.data < 16
  | _ => True

/-- The metadata of a caller's own blocks fits in four bits, where the feature
does not see to it itself. -/
def Feature.MetadataFits : Feature → Prop
  | tree t => t.MetadataFits
  | _ => True

theorem Tree.legal_build (t : Tree) (h : t.MetadataFits) (p : Pos) :
    (t.build p).Only Act.Legal := by
  cases t with
  | small t => exact SmallTree.legal_build h.1 h.2 p
  | largeOak t => exact t.legal_build p
  | darkOak => exact DarkOak.legal_build p
  | pine => exact Pine.legal_build p
  | spruce => exact Spruce.legal_build p
  | acacia => exact Acacia.legal_build p
  | swampOak => exact SwampOak.legal_build p
  | jungle t => exact t.legal_build p
  | giantJungle => exact GiantJungle.legal_build p
  | giantPine t => exact t.legal_build p
  | jungleBush b => exact JungleBush.legal_build h.1 h.2 p

namespace Feature

theorem legal_build (f : Feature) (h : f.MetadataFits) (p : Pos) :
    (f.build p).Only Act.Legal := by
  cases f with
  | tree t => exact t.legal_build h p
  | vein spec => exact Vein.legal_build spec p
  | lake fluid => exact LakeBasin.legal_build fluid p
  | spring fluid => exact Spring.legal_build fluid p
  | dungeon => exact Dungeon.legal_build p
  | mushroom kind => exact HugeMushroom.legal_build kind p
  | icePath path => exact path.legal_build p
  | iceSpike => exact IceSpike.legal_build p
  | bush plant => exact Patch.legal_bush plant p
  | deadBush => exact Patch.legal_deadBush p
  | tallGrass data => exact Patch.legal_tallGrass data p
  | sugarCanes => exact Stalk.legal_sugarCanes p
  | pumpkin => exact Patch.legal_pumpkin p
  | cactus => exact Stalk.legal_cactus p
  | vines => exact Vines.legal_build p
  | waterLily => exact Patch.legal_waterLily p
  | tallPlant plant => exact plant.legal_build p
  | patch id => exact Patch.legal_turned id p
  | clay disc => exact Disc.legal_lay ..
  | sand disc => exact Disc.legal_lay ..
  | boulder b => exact b.legal_build p

/-- Every feature and the ore layers of a chunk write only within the height and
only metadata of four bits, and the traces of their placements are their writes. -/
theorem writes_traced :
    (∀ (f : Feature) (p : Pos) (s : Site), f.MetadataFits →
      ∃ ws ns, s.Traced ((f.build p).run s).2 ws ns) ∧
    (∀ (layers : List OreLayer) (cornerX cornerZ : Int32) (s : Site),
      ∃ ws ns, s.Traced ((OreLayer.buildAll layers cornerX cornerZ).run s).2 ws ns) :=
  ⟨fun f p s h => (f.legal_build h p).traced_run s,
    fun layers cornerX cornerZ s =>
      (OreLayer.legal_buildAll layers cornerX cornerZ).traced_run s⟩

/-- The bush of the jungle floor is built on dirt, and its writes are traced. -/
theorem writes_traced_of_bush :
    let s : Site := ⟨.ofWorld (.ofLayers 1 [(.plain .dirt, 1)]), .ofSeed 7, #[]⟩
    let f : Feature := .tree (.jungleBush .floor)
    f.MetadataFits ∧ ((f.build ⟨3, 1, -5⟩).run s).1 = true ∧
      ∃ ws ns, s.Traced ((f.build ⟨3, 1, -5⟩).run s).2 ws ns :=
  ⟨⟨by decide, by decide⟩, by decide +kernel, writes_traced.1 _ _ _ ⟨by decide, by decide⟩⟩

end Feature

end VoxelFeatures
