import VoxelFeatures.Build.Walk

/-!
# Huge mushrooms

A huge mushroom has a stem of drawn height and a cap on top. The brown cap is
one layer, seven cells wide with its corners cut; the red cap hangs three layers
down and is open inside. The metadata of a cap cell tells on which sides it
shows the cap: on the three by three grid `1` to `9`, north to south and west to
east within a row, the cell takes the place that it has in the cap.
-/

namespace VoxelFeatures

/-! The metadata of the cells of a huge mushroom. -/

namespace CapTexture

def allInside : UInt8 := 0
def northWest : UInt8 := 1
def north : UInt8 := 2
def northEast : UInt8 := 3
def west : UInt8 := 4
def center : UInt8 := 5
def east : UInt8 := 6
def southWest : UInt8 := 7
def south : UInt8 := 8
def southEast : UInt8 := 9
def stem : UInt8 := 10
def allOutside : UInt8 := 14
def allStem : UInt8 := 15

/-- All textures, in metadata order. -/
def all : List UInt8 :=
  [allInside, northWest, north, northEast, west, center, east, southWest, south, southEast,
    stem, allOutside, allStem]

end CapTexture

/-- Which huge mushroom to grow. -/
inductive MushroomKind where
  /-- A flat and wide brown cap. -/
  | brown
  /-- A rounded red cap. -/
  | red
  /-- Brown or red, drawn for each mushroom. -/
  | random
deriving DecidableEq, Repr

namespace HugeMushroom

inductive Species where
  | brown
  | red
deriving DecidableEq, Repr

/-- The block of stem and cap. -/
def Species.block : Species → BlockId
  | brown => .brownMushroomBlock
  | red => .redMushroomBlock

/-- The species of a kind, drawn if the kind leaves it open. -/
def species : MushroomKind → Build Species
  | .brown => return .brown
  | .red => return .red
  | .random => return if ← Build.coin then .brown else .red

/-- What a huge mushroom grows over. -/
def overridable : BlockSet :=
  .ofList [.air, .sapling, .log, .leaves, .snowLayer, .wood2, .leaves2]

/-- What may be in the space that a huge mushroom needs. -/
def clearance : BlockSet := .ofList [.air, .leaves, .leaves2]

def soils : BlockSet := .ofList [.dirt, .grass, .mycelium]

/-- A height from four to six, doubled one time in twelve. -/
def height : Build Int32 := do
  let h := (← Build.bounded 3) + 4
  if (← Build.bounded 12) = 0 then return h * 2 else return h

/-- Whether the space is clear: the column of the origin for four layers, and
three cells around it from there to above the cap. -/
def isClear (p : Pos) (height : Int32) : Build Bool :=
  (Span.closed p.y (p.y + height + 1)).allM fun y =>
    let r : Int32 := if y ≤ p.y + 3 then 0 else 3
    Build.allSquare (.around p.x r) (.around p.z r) fun x z => Build.isIn clearance ⟨x, y, z⟩

/-- The lowest layer of the cap. -/
def capBottom (s : Species) (top : Int32) : Int32 :=
  match s with
  | .brown => top
  | .red => top - 3

/-- The radius of the cap in layer `y`. -/
def capRadius (s : Species) (top y : Int32) : Int32 :=
  match s with
  | .brown => 3
  | .red => if y < top then 2 else 1

/-- The texture by the sides of the cap that a cell lies on. -/
def sideTexture (r dx dz : Int32) : UInt8 :=
  let column := if dx = -r then CapTexture.center - 1
    else if dx = r then CapTexture.center + 1 else CapTexture.center
  if dz = -r then column - 3 else if dz = r then column + 3 else column

/-- Whether a cell lies next to the cut corner towards `sx` and `sz`, each `1`
or `-1`. -/
def isNextToCorner (r dx dz sx sz : Int32) : Bool :=
  (dx = sx * (r - 1) && dz = sz * r) || (dx = sx * r && dz = sz * (r - 1))

/-- The texture of a cell in a cap layer with cut corners. Cells next to a cut
corner show the sides of that corner. -/
def cutTexture (r dx dz : Int32) : UInt8 :=
  if isNextToCorner r dx dz 1 1 then CapTexture.southEast
  else if isNextToCorner r dx dz (-1) 1 then CapTexture.southWest
  else if isNextToCorner r dx dz 1 (-1) then CapTexture.northEast
  else if isNextToCorner r dx dz (-1) (-1) then CapTexture.northWest
  else sideTexture r dx dz

/-- Whether the corners of the cap are cut in layer `y`. -/
def isCut (s : Species) (top y : Int32) : Bool :=
  match s with
  | .brown => true
  | .red => y < top

/-- The texture of a cap cell, if the cap has a cell there. Below the top the
middle of the cap is open. -/
def texture? (s : Species) (top y dx dz : Int32) : Option UInt8 :=
  let r := capRadius s top y
  if isCut s top y && isCorner r dx dz then none
  else
    let t := if isCut s top y then cutTexture r dx dz else sideTexture r dx dz
    if t = CapTexture.center && y < top then none else some t

/-- Places the cap layer `y`. -/
def capLayer (s : Species) (p : Pos) (top y : Int32) : Build Unit :=
  let r := capRadius s top y
  Build.forSquare (.around p.x r) (.around p.z r) fun x z =>
    match texture? s top y (x - p.x) (z - p.z) with
    | some t => Build.replace overridable ⟨x, y, z⟩ ⟨s.block, t⟩
    | none => .done ()

def build (k : MushroomKind) (p : Pos) : Build Bool := do
  let s ← species k
  let h ← height
  if p.y < 1 ∨ 256 ≤ p.y + h + 1 then return false
  unless ← isClear p h do return false
  unless ← Build.isIn soils (p.down 1) do return false
  let top := p.y + h
  (Span.closed (capBottom s top) top).forM (capLayer s p top)
  (Span.halfOpen 0 h).forM fun dy =>
    Build.replace overridable (p.up dy) ⟨s.block, CapTexture.stem⟩
  return true

end HugeMushroom

end VoxelFeatures
