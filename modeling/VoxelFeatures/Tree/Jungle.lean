import VoxelFeatures.Grid.Face
import VoxelFeatures.Tree.Small

/-!
# Jungle trees and bushes

The jungle tree stands on the ground found below its origin, with vines along
its trunk and below its leaves. The bush is one log under a mound of leaves.
Vines along a trunk take a draw for each side, whether there is air or not.
-/

namespace VoxelFeatures

/-- Places a vine on a face two times in three, if its cell is air. -/
def tryVine (p : Pos) (f : Face) : Build Unit := do
  if 0 < (← Build.bounded 3) then
    if ← Build.isAir p then Build.place p ⟨.vine, f.vineBit⟩

structure JungleTree where
  /-- Whether the tree carries vines. A tree without them draws for none. -/
  vines : Bool
deriving DecidableEq, Repr

namespace JungleTree

/-- Where the search for the ground ends. Sand ends it, but carries no tree. -/
def searchedSoils : BlockSet := .ofList [.grass, .dirt, .sand]

/-- The metadata of a vine below a leaf, by its draw. -/
def hangingData (i : Int32) : UInt8 := [1, 2, 4, 8].getD i.toInt.toNat 0

/-- Hangs a vine downwards through air, by at most `n` cells and not to the
bottom layer. -/
def hang (data : UInt8) (x y z : Int32) : Nat → Build Unit
  | 0 => .done ()
  | n + 1 => do
      if 0 < y then
        if ← Build.isAir ⟨x, y, z⟩ then
          Build.place ⟨x, y, z⟩ ⟨.vine, data⟩
          hang data x (y - 1) z n

/-- Hangs a vine of drawn side and length below a leaf, one time in four. -/
def vineBelow (leaf : Pos) : Build Unit := do
  if (← Build.bounded 4) = 0 then
    let data := hangingData (← Build.bounded 4)
    let length := (← Build.bounded 4) + 1
    hang data leaf.x (leaf.y - 1) leaf.z length.toInt.toNat

/-- The four sides of a trunk cell, in draw order. -/
def sides (p : Pos) : List (Pos × Face) :=
  [(p.west 1, .negX), (p.east 1, .posX), (p.north 1, .negZ), (p.south 1, .posZ)]

/-- Grows the trunk layer `dy`, and its vines above the lowest layer. -/
def trunkLayer (t : JungleTree) (base : Pos) (dy : Int32) : Build Unit := do
  Build.place (base.up dy) Species.jungle.trunk
  if t.vines ∧ 0 < dy then (sides (base.up dy)).forM fun (p, f) => tryVine p f

/-- Whether a crown has a cell. Corners take a draw below the top layer, and are
left out of that layer without one. -/
def hasLeaf (r depth dx dz : Int32) : Build Bool := do
  if isCorner r dx dz then
    if depth = 0 then return false else return (← Build.bounded 2) ≠ 0
  else return true

/-- Places one leaf in the air, and below the top layer the vine that hangs
from it. -/
def placeLeaf (t : JungleTree) (depth : Int32) (p : Pos) : Build Unit := do
  if ← Build.isAir p then
    Build.place p Species.jungle.leaf
    if t.vines ∧ depth < 0 then vineBelow p

/-- Places the crown layer `y` of a tree whose crown ends at `top`. -/
def crownLayer (t : JungleTree) (p : Pos) (top y : Int32) : Build Unit :=
  let r := SmallTree.crownRadius 1 (y - top)
  Build.forOffsets r fun dx dz => do
    if ← hasLeaf r (y - top) dx dz then t.placeLeaf (y - top) ⟨p.x + dx, y, p.z + dz⟩

def build (t : JungleTree) (p : Pos) : Build Bool := do
  let height := 4 + (← Build.bounded 7)
  match ← Ground.below searchedSoils p with
  | none => return false
  | some ground =>
      if 127 - height < ground then return false
      let base : Pos := ⟨p.x, ground, p.z⟩
      unless ← Build.isIn Ground.soils (base.down 1) do return false
      Build.place (base.down 1) Ground.dirt
      (Span.halfOpen 0 height).forM (t.trunkLayer base)
      let top := ground + height
      (Span.closed (top - 3) top).forM (t.crownLayer p top)
      return true

end JungleTree

structure JungleBush where
  log : Block
  leaf : Block
deriving DecidableEq, Repr

namespace JungleBush

/-- The bush of the jungle floor, a jungle log with oak leaves. -/
def floor : JungleBush := ⟨⟨.log, 3⟩, .plain .leaves⟩

def leafReplaceable : BlockSet := .ofList [.air, .leaves]

/-- Places the layer `dy` of the mound. Each corner takes a draw. -/
def mound (b : JungleBush) (base : Pos) (dy : Int32) : Build Unit :=
  let r := 2 - dy
  Build.forOffsets r fun dx dz => do
    let kept ← if isCorner r dx dz then (· != 0) <$> Build.bounded 2 else pure true
    if kept then Build.replace leafReplaceable (base.shift dx dy dz) b.leaf

def build (b : JungleBush) (p : Pos) : Build Bool := do
  let soil ← Build.sink p p.y.toInt.toNat
  let base := soil.up 1
  unless ← Build.isIn Ground.soils (base.down 1) do return false
  Build.place (base.down 1) Ground.dirt
  Build.place base b.log
  (Span.closed 0 2).forM (b.mound base)
  return true

end JungleBush

end VoxelFeatures
