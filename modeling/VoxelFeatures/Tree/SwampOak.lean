import VoxelFeatures.Grid.Face
import VoxelFeatures.Tree.Small

/-!
# Swamp oaks

A swamp oak roots under shallow water: it sinks to the first cell with no water
below. It has a wide crown, laid without regard to what is there, and vines
hang from the leaves around the crown.
-/

namespace VoxelFeatures

namespace SwampOak

/-- The sides of a leaf that vines hang from, in draw order. -/
def vineFaces : List Face := [.negX, .posX, .negZ, .posZ]

/-- What the trunk grows into. -/
def trunkReplaceable : BlockSet := .ofList [.air, .leaves, .water, .stillWater]

/-- Sinks while there is water below. No layer from zero down has water below. -/
def sink (p : Pos) : Nat → Build Pos
  | 0 => .done p
  | n + 1 => do
      if (← Build.look (p.down 1)).isWater then sink (p.down 1) n else return p

/-- How far around the trunk layer `y` has to be clear: the base alone, one cell
along the trunk, three from its last layer on. -/
def clearRadius (p : Pos) (height y : Int32) : Int32 :=
  if p.y + 1 + height - 2 ≤ y then 3 else if y = p.y then 0 else 1

/-- Whether a cell has room: air or leaves, and water in the base layer. -/
def hasRoom (p q : Pos) : Build Bool := do
  let id ← Build.look q
  return id = .air || id = .leaves || (id.isWater && q.y ≤ p.y)

/-- Whether the column of a tree has room. -/
def isClear (p : Pos) (height : Int32) : Build Bool :=
  (Span.closed p.y (p.y + 1 + height)).allM fun y =>
    if isLayer y then
      let r := clearRadius p height y
      Build.allSquare (.around p.x r) (.around p.z r) fun x z => hasRoom p ⟨x, y, z⟩
    else return false

/-- Places the crown layer `y` of a tree whose crown ends at `top`. -/
def crownLayer (p : Pos) (top y : Int32) : Build Unit :=
  let r := SmallTree.crownRadius 2 (y - top)
  Build.forOffsets r fun dx dz => do
    if ← SmallTree.hasLeaf r (y - top) dx dz then
      Build.place ⟨p.x + dx, y, p.z + dz⟩ Species.oak.leaf

/-- Extends a vine downwards through air, by at most `n` cells. -/
def extendVine (data : UInt8) (p : Pos) : Nat → Build Unit
  | 0 => .done ()
  | n + 1 => do
      if ← Build.isAir (p.down 1) then
        Build.place (p.down 1) ⟨.vine, data⟩
        extendVine data (p.down 1) n

/-- Hangs a vine of up to five cells. -/
def hangVine (data : UInt8) (p : Pos) : Build Unit := do
  Build.place p ⟨.vine, data⟩
  extendVine data p 4

/-- Hangs a vine beside a leaf one time in four, if there is air. -/
def vineBeside (leaf : Pos) (f : Face) : Build Unit := do
  if (← Build.bounded 4) = 0 then
    if ← Build.isAir (leaf.offset f 1) then hangVine f.vineBit (leaf.offset f 1)

/-- Hangs vines around the leaves of layer `y`. -/
def vineLayer (p : Pos) (top y : Int32) : Build Unit :=
  let r := SmallTree.crownRadius 2 (y - top)
  Build.forSquare (.around p.x r) (.around p.z r) fun x z => do
    if ← Build.isBlock ⟨x, y, z⟩ .leaves then vineFaces.forM (vineBeside ⟨x, y, z⟩)

def build (origin : Pos) : Build Bool := do
  let height := (← Build.bounded 4) + 5
  let p ← sink origin origin.y.toInt.toNat
  if p.y < 1 ∨ 256 < p.y + height + 1 then return false
  unless ← isClear p height do return false
  unless ← Build.isIn Ground.soils (p.down 1) do return false
  if 256 - height - 1 ≤ p.y then return false
  Build.place (p.down 1) Ground.dirt
  let top := p.y + height
  (Span.closed (top - 3) top).forM (crownLayer p top)
  growTrunk trunkReplaceable Species.oak.trunk p height
  (Span.closed (top - 3) top).forM (vineLayer p top)
  return true

end SwampOak

end VoxelFeatures
