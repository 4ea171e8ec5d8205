import VoxelFeatures.Tree.Species
import VoxelFeatures.Build.Walk

/-!
# Ground, clearance and trunks

What trees of several species share: the search for the ground below the
origin, the check that a column has room, and straight trunks.
-/

namespace VoxelFeatures

namespace Ground

/-- What the search for the ground passes through. -/
def passable : BlockSet := .ofList [.air, .tallGrass, .leaves]

/-- Soils that a trunk turns to dirt. -/
def soils : BlockSet := .ofList [.grass, .dirt]

/-- Soils, and farmland. -/
def soilsAndFarmland : BlockSet := .ofList [.grass, .dirt, .farmland]

def dirt : Block := .plain .dirt

/-- The highest of the `n` layers from the bottom on that has a soil below it,
searched downwards through passable blocks. -/
def find (soils : BlockSet) (x z : Int32) : Nat → Build (Option Int32)
  | 0 => .done none
  | n + 1 => do
      let y := Int32.ofNat (n + 1)
      let id ← Build.look ⟨x, y - 1, z⟩
      if soils.contains id then return some y
      else if passable.contains id then find soils x z n
      else return none

/-- The highest layer at or below a position that has a soil below it, if only
passable blocks lie between. Layer zero has no ground. -/
def below (soils : BlockSet) (p : Pos) : Build (Option Int32) :=
  find soils p.x p.z p.y.toInt.toNat

end Ground

/-- Whether the square of radius `r` around a cell holds members of a set only. -/
def isSquareIn (s : BlockSet) (p : Pos) (r : Int32) : Build Bool :=
  Build.allSquare (.around p.x r) (.around p.z r) fun x z => Build.isIn s ⟨x, p.y, z⟩

/-- Places a straight trunk, upwards from a cell. -/
def growTrunk (replaceable : BlockSet) (trunk : Block) (p : Pos) (height : Int32) : Build Unit :=
  (Span.halfOpen 0 height).forM fun dy => Build.replace replaceable (p.up dy) trunk

end VoxelFeatures
