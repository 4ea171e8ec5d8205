/-!
# Block ids

A block id is a byte. The catalog lists the ids that features read or write,
with their names; `name` and `ofName?` are the two readings of that list. Ids
outside the catalog are valid blocks without a name.
-/

namespace VoxelFeatures

structure BlockId where
  code : UInt8
deriving DecidableEq, Repr

namespace BlockId

def air : BlockId := ⟨0⟩
def stone : BlockId := ⟨1⟩
def grass : BlockId := ⟨2⟩
def dirt : BlockId := ⟨3⟩
def cobblestone : BlockId := ⟨4⟩
def sapling : BlockId := ⟨6⟩
def water : BlockId := ⟨8⟩
def stillWater : BlockId := ⟨9⟩
def lava : BlockId := ⟨10⟩
def stillLava : BlockId := ⟨11⟩
def sand : BlockId := ⟨12⟩
def gravel : BlockId := ⟨13⟩
def goldOre : BlockId := ⟨14⟩
def ironOre : BlockId := ⟨15⟩
def coalOre : BlockId := ⟨16⟩
def log : BlockId := ⟨17⟩
def leaves : BlockId := ⟨18⟩
def lapisOre : BlockId := ⟨21⟩
def tallGrass : BlockId := ⟨31⟩
def deadBush : BlockId := ⟨32⟩
def dandelion : BlockId := ⟨37⟩
def redFlower : BlockId := ⟨38⟩
def brownMushroom : BlockId := ⟨39⟩
def redMushroom : BlockId := ⟨40⟩
def mossStone : BlockId := ⟨48⟩
def monsterSpawner : BlockId := ⟨52⟩
def chest : BlockId := ⟨54⟩
def diamondOre : BlockId := ⟨56⟩
def farmland : BlockId := ⟨60⟩
def redstoneOre : BlockId := ⟨73⟩
def snowLayer : BlockId := ⟨78⟩
def ice : BlockId := ⟨79⟩
def snowBlock : BlockId := ⟨80⟩
def cactus : BlockId := ⟨81⟩
def clay : BlockId := ⟨82⟩
def sugarCanes : BlockId := ⟨83⟩
def pumpkin : BlockId := ⟨86⟩
def brownMushroomBlock : BlockId := ⟨99⟩
def redMushroomBlock : BlockId := ⟨100⟩
def vine : BlockId := ⟨106⟩
def mycelium : BlockId := ⟨110⟩
def waterLily : BlockId := ⟨111⟩
def emeraldOre : BlockId := ⟨129⟩
def stainedClay : BlockId := ⟨159⟩
def leaves2 : BlockId := ⟨161⟩
def wood2 : BlockId := ⟨162⟩
def hardenedClay : BlockId := ⟨172⟩
def packedIce : BlockId := ⟨174⟩
def doublePlant : BlockId := ⟨175⟩
def podzol : BlockId := ⟨243⟩

instance : Inhabited BlockId := ⟨air⟩

/-- The named blocks, in id order. -/
def catalog : List (BlockId × String) :=
  [(air, "air"), (stone, "stone"), (grass, "grass"), (dirt, "dirt"),
    (cobblestone, "cobblestone"), (sapling, "sapling"), (water, "flowing_water"),
    (stillWater, "water"), (lava, "flowing_lava"), (stillLava, "lava"), (sand, "sand"),
    (gravel, "gravel"), (goldOre, "gold_ore"), (ironOre, "iron_ore"), (coalOre, "coal_ore"),
    (log, "log"), (leaves, "leaves"), (lapisOre, "lapis_ore"), (tallGrass, "tall_grass"),
    (deadBush, "dead_bush"), (dandelion, "dandelion"), (redFlower, "red_flower"),
    (brownMushroom, "brown_mushroom"), (redMushroom, "red_mushroom"),
    (mossStone, "moss_stone"), (monsterSpawner, "monster_spawner"), (chest, "chest"),
    (diamondOre, "diamond_ore"), (farmland, "farmland"), (redstoneOre, "redstone_ore"),
    (snowLayer, "snow_layer"), (ice, "ice"), (snowBlock, "snow_block"), (cactus, "cactus"),
    (clay, "clay"), (sugarCanes, "sugar_canes"), (pumpkin, "pumpkin"),
    (brownMushroomBlock, "brown_mushroom_block"), (redMushroomBlock, "red_mushroom_block"),
    (vine, "vine"), (mycelium, "mycelium"), (waterLily, "water_lily"),
    (emeraldOre, "emerald_ore"), (stainedClay, "stained_clay"), (leaves2, "leaves2"),
    (wood2, "wood2"), (hardenedClay, "hardened_clay"), (packedIce, "packed_ice"),
    (doublePlant, "double_plant"), (podzol, "podzol")]

/-- The name of a block, empty outside the catalog. -/
def name (b : BlockId) : String := (catalog.lookup b).getD ""

/-- The block of a name. -/
def ofName? (s : String) : Option BlockId :=
  (catalog.find? fun entry => entry.2 == s).map (·.1)

/-- Water, flowing or still. -/
def isWater (b : BlockId) : Bool := b = water || b = stillWater

/-- Lava, flowing or still. -/
def isLava (b : BlockId) : Bool := b = lava || b = stillLava

def isFluid (b : BlockId) : Bool := b.isWater || b.isLava

/-- The soil that small plants grow on. -/
def isSoil (b : BlockId) : Bool := b = grass || b = dirt

/-- The catalog names each block once. -/
theorem catalog_nodup : (catalog.map (·.1)).Nodup := by decide

end BlockId

/-- A block as it is placed: an id and a byte of metadata, of which the world
keeps the low four bits. -/
structure Block where
  id : BlockId
  data : UInt8
deriving DecidableEq, Repr, Inhabited

namespace Block

/-- A block without metadata. -/
def plain (id : BlockId) : Block := ⟨id, 0⟩

/-- Air, as every cell outside the height of the world reads. -/
def air : Block := plain .air

/-- The block as the world keeps it. -/
def stored (b : Block) : Block := ⟨b.id, b.data &&& 0x0F⟩

@[simp] theorem stored_id (b : Block) : b.stored.id = b.id := rfl

end Block

end VoxelFeatures
