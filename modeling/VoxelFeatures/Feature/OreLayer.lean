import VoxelFeatures.Feature.Vein

/-!
# Ore layers

An ore layer is a vein generated a fixed number of times per chunk, each from
an origin of its own: a column of the chunk drawn evenly and a height drawn from
the distribution of the layer. `overworld` is the standard list of layers.
-/

namespace VoxelFeatures

/-- How the heights of vein origins are distributed. -/
inductive OreDistribution where
  /-- Evenly from one bound up to below the other, in either order. -/
  | uniform (lower upper : Int32)
  /-- Two even draws below `spread`, added up and shifted around `centre`. -/
  | triangular (centre spread : Int32)
deriving DecidableEq, Repr

namespace OreDistribution

/-- The bounds of a uniform distribution, put in order. Equal bounds are pushed
apart, upwards below the top layer and downwards from there on. -/
def bounds (lower upper : Int32) : Int32 × Int32 :=
  if upper < lower then (upper, lower)
  else if upper = lower then
    if lower < 255 then (lower, upper + 1) else (lower - 1, upper)
  else (lower, upper)

/-- Whether a distribution has heights to draw. -/
def Drawable : OreDistribution → Prop
  | uniform _ _ => True
  | triangular _ spread => 0 < spread

/-- Draws a height. -/
def height : OreDistribution → Build Int32
  | uniform lower upper => do
      let (low, high) := bounds lower upper
      return (← Build.bounded (high - low)) + low
  | triangular centre spread => do
      let first ← Build.bounded spread
      let second ← Build.bounded spread
      return first + second + centre - spread

end OreDistribution

structure OreLayer where
  spec : VeinSpec
  /-- Veins per chunk. -/
  veins : Int32
  distribution : OreDistribution
  veins_pos : 0 < veins
  drawable : distribution.Drawable

namespace OreLayer

/-- Accepts a positive number of veins and a distribution with heights to draw. -/
def ofParams (spec : VeinSpec) (veins : Int32) (distribution : OreDistribution) :
    Except ConfigError OreLayer :=
  if hv : 0 < veins then
    match distribution with
    | .uniform lower upper => .ok ⟨spec, veins, .uniform lower upper, hv, trivial⟩
    | .triangular centre spread =>
        if hs : 0 < spread then .ok ⟨spec, veins, .triangular centre spread, hv, hs⟩
        else .error (.emptySpread spread)
  else .error (.noVeins veins)

/-- Generates one vein in the chunk with the given corner. -/
def vein (l : OreLayer) (cornerX cornerZ : Int32) : Build Unit := do
  let x ← Build.bounded 16
  let y ← l.distribution.height
  let z ← Build.bounded 16
  let _ ← Vein.build l.spec ⟨cornerX + x, y, cornerZ + z⟩

/-- Generates all veins of a layer. -/
def build (l : OreLayer) (cornerX cornerZ : Int32) : Build Unit := do
  (Span.halfOpen 0 l.veins).forM fun _ => l.vein cornerX cornerZ
  Build.report (.veinsDone l.veins l.spec.ore.id)

/-- Generates the layers of a chunk in order. -/
def buildAll (layers : List OreLayer) (cornerX cornerZ : Int32) : Build Unit :=
  layers.forM fun l => l.build cornerX cornerZ

/-- A vein in stone. -/
def inStone (ore : BlockId) (data : UInt8) (count : Int32) (hc : 0 < count := by decide)
    (hd : data ≤ 0x0F := by decide) : VeinSpec :=
  ⟨.stone, ⟨ore, data⟩, count, hc, hd⟩

/-- Veins in stone, spread evenly below a height. -/
def below (spec : VeinSpec) (veins top : Int32) (hv : 0 < veins := by decide) : OreLayer :=
  ⟨spec, veins, .uniform 0 top, hv, trivial⟩

/-- The standard layers, in the order in which a chunk generates them. -/
def overworld : List OreLayer :=
  [below (inStone .dirt 0 33) 10 256,
    below (inStone .gravel 0 33) 8 256,
    below (inStone .stone 3 33) 10 80,
    below (inStone .stone 1 33) 10 80,
    below (inStone .stone 5 33) 10 80,
    below (inStone .coalOre 0 17) 20 128,
    below (inStone .ironOre 0 9) 20 64,
    below (inStone .goldOre 0 9) 2 32,
    below (inStone .redstoneOre 0 8) 8 16,
    below (inStone .diamondOre 0 8) 1 16,
    ⟨inStone .lapisOre 0 7, 1, .triangular 16 16, by decide, show (0 : Int32) < 16 by decide⟩]

end OreLayer

end VoxelFeatures
