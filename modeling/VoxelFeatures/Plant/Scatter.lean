import VoxelFeatures.Build.Walk
import VoxelFeatures.Block.Plant

/-!
# Scattered plants

A scatter placer makes a fixed number of trials around its origin. Each trial
draws a cell, and plants there if the cell is air and the block below it is a
soil of the placer. A trial that fails leaves the others alone, so all placers
here succeed.
-/

namespace VoxelFeatures

/-- The difference of two draws below a bound. -/
def jitter (bound : Int32) : Build Int32 := do
  let ahead ← Build.bounded bound
  let back ← Build.bounded bound
  return ahead - back

/-- A cell less than eight columns and four layers off the origin. -/
def scatter (p : Pos) : Build Pos := do
  let dx ← jitter 8
  let dy ← jitter 4
  let dz ← jitter 8
  return p + ⟨dx, dy, dz⟩

/-- Whether a cell is air over a soil. -/
def isPlantable (soils : BlockSet) (p : Pos) : Build Bool := do
  if ← Build.isAir p then Build.isIn soils (p.down 1) else return false

/-- One trial: plants at a scattered cell if it is free and has soil below. -/
def plantTrial (soils : BlockSet) (plant : Pos → Build Unit) (p : Pos) : Build Unit := do
  let q ← scatter p
  if q.inHeight then
    if ← isPlantable soils q then plant q

/-- Some trials, one after the other. -/
def plantAround (trials : Nat) (soils : BlockSet) (plant : Pos → Build Unit) (p : Pos) :
    Build Bool := do
  Build.repeated (plantTrial soils plant p) trials
  return true

namespace Patch

def bushSoils : BlockSet := .ofList [.grass, .dirt, .farmland]

/-- Flowers, mushrooms and other plants of one cell. -/
def bush (plant : Plant) (p : Pos) : Build Bool :=
  plantAround 64 bushSoils (Build.place · plant.block) p

def deadBushSoils : BlockSet := .ofList [.sand, .dirt, .hardenedClay, .stainedClay]

def deadBush (p : Pos) : Build Bool :=
  plantAround 4 deadBushSoils (Build.place · (.plain .deadBush)) p

def tallGrassSoils : BlockSet := .ofList [.grass, .dirt]

/-- Tall grass or fern, by the low four bits of its metadata. -/
def tallGrass (data : UInt8) (p : Pos) : Build Bool :=
  plantAround 128 tallGrassSoils (Build.place · (Plant.ofByte .tallGrass data).block) p

def lilySoils : BlockSet := .ofList [.water, .stillWater]

/-- Lilies on water. -/
def waterLily (p : Pos) : Build Bool :=
  plantAround 10 lilySoils (Build.place · (.plain .waterLily)) p

def grassSoil : BlockSet := .ofList [.grass]

/-- One of four orientations. -/
def orientation : Build UInt8 := return (← Build.bounded 4).toUInt32.toUInt8

/-- Pumpkins, each turned by a draw. -/
def pumpkin (p : Pos) : Build Bool :=
  plantAround 64 grassSoil (fun q => do Build.place q ⟨.pumpkin, ← orientation⟩) p

/-- Blocks that are placed and then turned by a draw, such as melons. -/
def turned (id : BlockId) (p : Pos) : Build Bool :=
  plantAround 64 grassSoil
    (fun q => do
      Build.place q (.plain id)
      Build.place q ⟨id, ← orientation⟩)
    p

end Patch

end VoxelFeatures
