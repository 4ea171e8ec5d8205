import VoxelFeatures.Grid.Face
import VoxelFeatures.Plant.Scatter

/-!
# Cacti and sugar canes

Stalks grow upwards from the ground to a drawn height, in the cells that are
air. Cacti are scattered in all directions; canes spread in one layer only and
need water beside the block they stand on.
-/

namespace VoxelFeatures

namespace Stalk

/-- Grows a stalk of some height in the air above a cell. -/
def grow (id : BlockId) (height : Int32) (p : Pos) : Build Unit :=
  (Span.halfOpen 0 height).forM fun dy => do
    if ← Build.isAir (p.up dy) then Build.place (p.up dy) (.plain id)

/-- A height from `least` to `least + 2`, smaller heights more often. -/
def height (least : Int32) : Build Int32 := do
  let bound := (← Build.bounded 3) + 1
  return (← Build.bounded bound) + least

def cactusSoils : BlockSet := .ofList [.sand, .cactus]

def cactus (p : Pos) : Build Bool :=
  plantAround 10 cactusSoils (fun q => do grow .cactus (← height 1) q) p

def caneSoils : BlockSet := .ofList [.grass, .dirt, .sand]

/-- The sides of the ground that are searched for water, in order. -/
def caneSides : List Face := [.negX, .posX, .negZ, .posZ]

/-- Whether a block has water beside it. -/
def hasWaterBeside (ground : Pos) : Build Bool :=
  caneSides.anyM fun f => return (← Build.look (ground.offset f 1)).isWater

/-- One trial of canes, in the layer of the origin. -/
def caneTrial (p : Pos) : Build Unit := do
  let dx ← jitter 4
  let dz ← jitter 4
  let q := p + ⟨dx, 0, dz⟩
  if q.inHeight then
    if ← isPlantable caneSoils q then
      if ← hasWaterBeside (q.down 1) then grow .sugarCanes (← height 2) q

def sugarCanes (p : Pos) : Build Bool := do
  Build.repeated (caneTrial p) 20
  return true

end Stalk

end VoxelFeatures
