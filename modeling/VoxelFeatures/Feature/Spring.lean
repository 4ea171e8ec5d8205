import VoxelFeatures.Grid.Face
import VoxelFeatures.Build.Basic

/-!
# Springs

A spring is one cell of fluid in a wall of stone, open to the air on one side.
-/

namespace VoxelFeatures

namespace Spring

/-- A spring opens where stone lies above, below and on three sides, and air on
the fourth. -/
def build (fluid : BlockId) (p : Pos) : Build Bool := do
  unless ← Build.isBlock (p.up 1) .stone do return false
  unless ← Build.isBlock (p.down 1) .stone do return false
  unless ← Build.isIn (.ofList [.air, .stone]) p do return false
  let sides ← (Face.horizontal.map (p.offset · 1)).mapM Build.look
  if sides.count .stone = 3 ∧ sides.count .air = 1 then
    Build.placeNotify p (.plain fluid)
    return true
  else return false

end Spring

end VoxelFeatures
