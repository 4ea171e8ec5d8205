import VoxelFeatures.Grid.Face
import VoxelFeatures.Plant.Scatter

/-!
# Vines

A scattered vine hangs on every horizontal neighbour that can hold it, and is
placed if there is one.
-/

namespace VoxelFeatures

namespace Vines

/-- Neighbours that hold no vine. -/
def unsupported : BlockSet := .ofList [.air, .vine, .tallGrass, .deadBush]

/-- Whether the neighbour across a face holds a vine. -/
def isHeld (p : Pos) (f : Face) : Build Bool :=
  return !unsupported.contains (← Build.look (p.offset f 1))

/-- The union of the vine bits of some faces. -/
def bits (fs : List Face) : UInt8 := fs.foldl (fun v f => v ||| f.vineBit) 0

/-- The bits of the faces of a cell that hold a vine. -/
def heldBits (p : Pos) : Build UInt8 := return bits (← Face.horizontal.filterM (isHeld p))

def trial (p : Pos) : Build Unit := do
  let q ← scatter p
  if q.inHeight then
    if ← Build.isAir q then
      let held ← heldBits q
      if held ≠ 0 then Build.place q ⟨.vine, held⟩

def build (p : Pos) : Build Bool := do
  Build.repeated (trial p) 64
  return true

end Vines

end VoxelFeatures
