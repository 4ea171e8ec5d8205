import VoxelFeatures.SineTable
import VoxelFeatures.Tree.Jungle

/-!
# Giant jungle trees

A giant jungle tree has a trunk of two by two columns under a round crown, with
branches around its upper half and vines along the trunk. Branches end in small
crowns of their own. The trunk is grown last and goes through what it may.
-/

namespace VoxelFeatures

namespace GiantJungle

/-- What the trunk grows into. -/
def logReplaceable : BlockSet := .ofList [.air, .leaves, .sapling, .vine]

def leafReplaceable : BlockSet := .ofList [.air, .leaves]

def placeLeaf (p : Pos) : Build Unit := Build.replace leafReplaceable p Species.jungle.leaf

/-- A square leaf layer without corners. -/
def squareLayer (c : Pos) (r : Int32) : Build Unit :=
  Build.forOffsets r fun dx dz => do
    unless isCorner r dx dz do placeLeaf (c.shift dx 0 dz)

/-- A round leaf layer. -/
def discLayer (c : Pos) (r : Int32) : Build Unit :=
  Build.forOffsets r fun dx dz => do
    if dx * dx + dz * dz ≤ r * r then placeLeaf (c.shift dx 0 dz)

/-- The crown: three discs, the higher the wider. -/
def crown (c : Pos) : Build Unit :=
  (Span.closed (-2) 0).forM fun dy => discLayer (c.up dy) (3 + dy)

/-- The `i`th log of a branch that leaves the trunk at height `y` in some
direction, rising by one cell in two. -/
def branchLog (p : Pos) (y : Int32) (angle : Float) (i : Int32) : Pos :=
  ⟨p.x + (1.5 + angle.cos * i.toFloat).toInt32, p.y + y - 3 + i / 2,
    p.z + (1.5 + angle.sin * i.toFloat).toInt32⟩

/-- Grows the branch that reaches height `y`, with one or two leaf layers below
its highest one. -/
def branch (p : Pos) (y : Int32) : Build Unit := do
  let angle := (← Build.single).toFloat * pi * 2.0
  (Span.halfOpen 0 5).forM fun i => Build.place (branchLog p y angle i) Species.jungle.trunk
  let tip := branchLog p y angle 4
  let layers := 1 + (← Build.bounded 2)
  (Span.closed (y - layers) y).forM fun ly =>
    squareLayer ⟨tip.x, p.y + ly, tip.z⟩ (1 - (ly - y))

/-- Grows branches from height `y` down to half the height of the trunk, each at
least two cells below the last. -/
def branches (p : Pos) (height y : Int32) : Nat → Build Unit
  | 0 => .done ()
  | n + 1 => do
      if height / 2 < y then
        branch p y
        let step := 2 + (← Build.bounded 4)
        branches p height (y - step) n

/-- Places a trunk log if it can grow there, and then, above the lowest layer,
tries vines on some sides of it. -/
def log (p : Pos) (dy : Int32) (vines : List (Pos × Face)) : Build Unit := do
  if ← Build.isIn logReplaceable p then
    Build.place p Species.jungle.trunk
    if 0 < dy then vines.forM fun (q, f) => tryVine q f

/-- Grows the trunk layer `dy`. The highest layer has one log. -/
def trunkLayer (p : Pos) (height dy : Int32) : Build Unit := do
  let q := p.up dy
  log q dy [(q.west 1, .negX), (q.north 1, .negZ)]
  if dy < height - 1 then
    let east := q.east 1
    log east dy [(east.east 1, .posX), (east.north 1, .negZ)]
    let southEast := (q.south 1).east 1
    log southEast dy [(southEast.east 1, .posX), (southEast.south 1, .posZ)]
    let south := q.south 1
    log south dy [(south.west 1, .negX), (south.south 1, .posZ)]

/-- The cells below the trunk. -/
def soilCells (p : Pos) : List Pos :=
  let below := p.down 1
  [below, below.east 1, below.south 1, (below.east 1).south 1]

def build (p : Pos) : Build Bool := do
  let height := (← Build.bounded 20) + 10
  if p.y < 1 ∨ 256 < p.y + height + 1 then return false
  unless ← (soilCells p).allM (Build.isIn Ground.soils) do return false
  (soilCells p).forM (Build.place · Ground.dirt)
  crown (p.up height)
  let y := height - 2 - (← Build.bounded 4)
  branches p height y (y.toInt - (height / 2).toInt).toNat
  (Span.halfOpen 0 height).forM (trunkLayer p height)
  return true

end GiantJungle

end VoxelFeatures
