import VoxelFeatures.Tree.Ground

/-!
# Pines and spruces

Conifers carry square layers of leaves with cut corners around a thin trunk.
A pine has a short crown below its top. A spruce is a cone of rings that widen
and narrow again down the trunk.
-/

namespace VoxelFeatures

namespace Conifer

/-- What conifer leaves and pine logs grow into. -/
def replaceable : BlockSet := .ofList [.air, .leaves, .snowLayer]

/-- Whether an offset belongs to a leaf layer: the square without its corners,
and the middle alone for radius zero. -/
def inLayer (r dx dz : Int32) : Bool := !(isCorner r dx dz && 0 < r)

/-- Places a leaf layer. -/
def leafLayer (c : Pos) (r : Int32) : Build Unit :=
  Build.forOffsets r fun dx dz => do
    if inLayer r dx dz then Build.replace replaceable (c.shift dx 0 dz) Species.spruce.leaf

end Conifer

namespace Pine

def soils : BlockSet := .ofList [.grass, .dirt, .farmland, .podzol]

/-- The radius of the layer below one of radius `r`. The crown widens to two
and is drawn in again in its lowest layer. -/
def nextRadius (r y bottom : Int32) : Int32 :=
  if 1 ≤ r ∧ y = bottom + 1 then r - 1 else if r < 2 then r + 1 else r

/-- Places the crown, from the top down. -/
def crown (p : Pos) (bottom top : Int32) : Build Unit := do
  let _ ← (Span.closed bottom top).reverse.foldM
    (fun r y => do
      Conifer.leafLayer ⟨p.x, y, p.z⟩ r
      return nextRadius r y bottom)
    0

/-- Grows the rest of a trunk from layer `dy` on. How far it goes is drawn anew
before each cell, and it never goes beyond the height of the tree. -/
def trunk (p : Pos) (height dy : Int32) : Nat → Build Unit
  | 0 => do
      let _ ← Build.bounded 3
  | n + 1 => do
      if dy < height - (← Build.bounded 3) then
        Build.replace Conifer.replaceable (p.up dy) Species.spruce.trunk
        trunk p height (dy + 1) n

def build (p : Pos) : Build Bool := do
  let height := (← Build.bounded 5) + 7
  let bottom := height - (← Build.bounded 2) - 3
  if p.y < 1 ∨ 256 < p.y + height + 1 then return false
  let soil ← Build.look (p.down 1)
  unless soils.contains soil do return false
  if soil = .grass then Build.place (p.down 1) Ground.dirt
  crown p (p.y + bottom) (p.y + height)
  trunk p height 0 height.toInt.toNat
  return true

end Pine

namespace Spruce

def soils : BlockSet := .ofList [.grass, .dirt, .podzol]

/-- The radius of the next ring, between bounds that move apart with every
turn. -/
structure Rings where
  radius : Int32
  least : Int32
  greatest : Int32

/-- The rings one layer further down: wider up to the greatest radius, then
narrow again. -/
def Rings.next (g : Rings) (limit : Int32) : Rings :=
  if g.greatest ≤ g.radius then
    ⟨g.least, 1, if g.greatest + 1 ≤ limit then g.greatest + 1 else limit⟩
  else { g with radius := g.radius + 1 }

/-- Places the rings of `p.up height` and the layers below. -/
def crown (p : Pos) (height layers limit first : Int32) : Build Unit := do
  let _ ← (Span.closed 0 layers).foldM
    (fun (g : Rings) dy => do
      Conifer.leafLayer (p.up (height - dy)) g.radius
      return g.next limit)
    ⟨first, 0, 1⟩

def build (p : Pos) : Build Bool := do
  unless ← Build.isIn soils (p.down 1) do return false
  let height := (← Build.bounded 4) + 6
  let layers := height - (1 + (← Build.bounded 2))
  let limit := 2 + (← Build.bounded 2)
  let trunkHeight := height - (← Build.bounded 3)
  Build.place (p.down 1) Ground.dirt
  growTrunk Species.spruce.overridable Species.spruce.trunk p trunkHeight
  let first ← Build.bounded 2
  crown p height layers limit first
  return true

end Spruce

end VoxelFeatures
