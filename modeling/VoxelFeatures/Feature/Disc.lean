import VoxelFeatures.Build.Walk
import VoxelFeatures.Feature.ConfigError

/-!
# Discs under water

Clay, sand and gravel lie in discs on the ground under water. The origin must
be water; the disc replaces soil within a drawn radius and a few layers.
-/

namespace VoxelFeatures

namespace Disc

/-- The least exclusive bound of a disc radius. -/
def leastRadius : Int32 := 3

/-- Whether an offset is within a radius, measured in real numbers. -/
def isWithin (r dx dz : Int32) : Bool :=
  dx.toFloat * dx.toFloat + dz.toFloat * dz.toFloat ≤ (r * r).toFloat

/-- Lays a disc of a radius drawn below `bound`, `half` layers thick to both
sides. -/
def lay (bound half : Int32) (block : BlockId) (replaceable : BlockSet) (p : Pos) :
    Build Bool := do
  unless (← Build.look p).isWater do return false
  let r := (← Build.bounded (bound - 2)) + 2
  Build.forSquare (.around p.x r) (.around p.z r) fun x z => do
    if isWithin r (x - p.x) (z - p.z) then
      (Span.around p.y half).forM fun y => Build.replace replaceable ⟨x, y, z⟩ (.plain block)
  return true

end Disc

/-- A disc of clay, three layers thick. -/
structure ClayDisc where
  bound : Int32
  bound_le : Disc.leastRadius ≤ bound

namespace ClayDisc

def ofBound (bound : Int32) : Except ConfigError ClayDisc :=
  if h : Disc.leastRadius ≤ bound then .ok ⟨bound, h⟩
  else .error (.radiusTooSmall Disc.leastRadius bound)

def replaceable : BlockSet := .ofList [.dirt, .clay]

def build (d : ClayDisc) (p : Pos) : Build Bool := Disc.lay d.bound 1 .clay replaceable p

end ClayDisc

/-- A disc of sand or gravel, five layers thick. -/
structure SandDisc where
  block : BlockId
  bound : Int32
  bound_le : Disc.leastRadius ≤ bound

namespace SandDisc

def ofBound (block : BlockId) (bound : Int32) : Except ConfigError SandDisc :=
  if h : Disc.leastRadius ≤ bound then .ok ⟨block, bound, h⟩
  else .error (.radiusTooSmall Disc.leastRadius bound)

def replaceable : BlockSet := .ofList [.dirt, .grass]

def build (d : SandDisc) (p : Pos) : Build Bool := Disc.lay d.bound 2 d.block replaceable p

end SandDisc

end VoxelFeatures
