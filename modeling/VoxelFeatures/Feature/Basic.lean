import VoxelFeatures.Feature.Vein
import VoxelFeatures.Feature.LakeBasin
import VoxelFeatures.Feature.Spring
import VoxelFeatures.Feature.Dungeon
import VoxelFeatures.Feature.HugeMushroom
import VoxelFeatures.Feature.PackedIce
import VoxelFeatures.Feature.Disc
import VoxelFeatures.Feature.Boulder
import VoxelFeatures.Plant.Stalk
import VoxelFeatures.Plant.Vines
import VoxelFeatures.Plant.TallPlant
import VoxelFeatures.Tree.DarkOak
import VoxelFeatures.Tree.Conifer
import VoxelFeatures.Tree.Acacia
import VoxelFeatures.Tree.SwampOak
import VoxelFeatures.Tree.GiantJungle
import VoxelFeatures.Tree.GiantPine
import VoxelFeatures.Tree.LargeOak

/-!
# Features

Every feature of the library with its parameters. A feature is a build program
for each origin; the program tells whether the feature was built.
-/

namespace VoxelFeatures

inductive Tree where
  | small (t : SmallTree)
  | largeOak (t : LargeOak)
  | darkOak
  | pine
  | spruce
  | acacia
  | swampOak
  | jungle (t : JungleTree)
  | giantJungle
  | giantPine (t : GiantPine)
  | jungleBush (b : JungleBush)

/-- The program of a tree. -/
def Tree.build : Tree → Pos → Build Bool
  | small t => t.build
  | largeOak t => t.build
  | darkOak => DarkOak.build
  | pine => Pine.build
  | spruce => Spruce.build
  | acacia => Acacia.build
  | swampOak => SwampOak.build
  | jungle t => t.build
  | giantJungle => GiantJungle.build
  | giantPine t => t.build
  | jungleBush b => b.build

inductive Feature where
  | tree (t : Tree)
  | vein (spec : VeinSpec)
  | lake (fluid : BlockId)
  | spring (fluid : BlockId)
  | dungeon
  | mushroom (kind : MushroomKind)
  | icePath (path : IcePath)
  | iceSpike
  | bush (plant : Plant)
  | deadBush
  /-- Tall grass or fern, by the low four bits of a byte. -/
  | tallGrass (data : UInt8)
  | sugarCanes
  | pumpkin
  | cactus
  | vines
  | waterLily
  | tallPlant (plant : TallPlant)
  /-- Blocks of a kind, turned by a draw. -/
  | patch (id : BlockId)
  | clay (disc : ClayDisc)
  | sand (disc : SandDisc)
  | boulder (b : Boulder)

/-- The program of a feature. -/
def Feature.build : Feature → Pos → Build Bool
  | tree t => t.build
  | vein spec => Vein.build spec
  | lake fluid => LakeBasin.build fluid
  | spring fluid => Spring.build fluid
  | dungeon => Dungeon.build
  | mushroom kind => HugeMushroom.build kind
  | icePath path => path.build
  | iceSpike => IceSpike.build
  | bush plant => Patch.bush plant
  | deadBush => Patch.deadBush
  | tallGrass data => Patch.tallGrass data
  | sugarCanes => Stalk.sugarCanes
  | pumpkin => Patch.pumpkin
  | cactus => Stalk.cactus
  | vines => Vines.build
  | waterLily => Patch.waterLily
  | tallPlant plant => plant.build
  | patch id => Patch.turned id
  | clay disc => disc.build
  | sand disc => disc.build
  | boulder b => b.build

end VoxelFeatures
