import VoxelFeatures.Grid.Face
import VoxelFeatures.Tree.Ground

/-!
# Dark oaks

A dark oak has a trunk of two by two columns, which bends by up to two cells
near its top, a wide flat crown, and logs hanging from the crown. The hanging
logs stand in the columns around the origin, also where the trunk has bent away.
-/

namespace VoxelFeatures

namespace DarkOak

def logReplaceable : BlockSet :=
  .ofList [.air, .leaves, .leaves2, .log, .wood2, .sapling, .vine]

/-- What the north-west column of the trunk grows into. -/
def trunkOpen : BlockSet := .ofList [.air, .leaves, .leaves2]

/-- Soils under the trunk that turn to dirt. -/
def turnedSoils : BlockSet := .ofList [.grass, .farmland]

def placeLog (p : Pos) : Build Unit := Build.replace logReplaceable p Species.darkOak.trunk

def placeLeaf (p : Pos) : Build Unit := do
  if ← Build.isAir p then Build.place p Species.darkOak.leaf

/-- How far around the trunk layer `dy` has to be clear: the base alone, one
cell along the trunk, two from the last trunk layer on. -/
def clearRadius (height dy : Int32) : Int32 :=
  if height - 1 ≤ dy then 2 else if dy = 0 then 0 else 1

/-- Whether the column of a tree has room. -/
def isClear (p : Pos) (height : Int32) : Build Bool :=
  (Span.closed 0 (height + 1)).allM fun dy =>
    let r := clearRadius height dy
    Build.allSquare (.around 0 r) (.around 0 r) fun dx dz =>
      Build.isIn logReplaceable (p.shift dx dy dz)

/-- The four cells of a trunk layer. -/
def square (p : Pos) : List Pos := [p, p.east 1, p.south 1, (p.east 1).south 1]

/-- The same four cells, walked around the square. -/
def ring (p : Pos) : List Pos := [p, p.east 1, (p.east 1).south 1, p.south 1]

/-- A trunk on its way up: its column, and how many cells it may still bend. -/
structure Trunk where
  x : Int32
  z : Int32
  bends : Int32

/-- A trunk after one layer, which bends if it is high enough and has bends left. -/
def Trunk.bend (t : Trunk) (towards : Pos) (start dy : Int32) : Trunk :=
  if start ≤ dy ∧ 0 < t.bends then ⟨t.x + towards.x, t.z + towards.z, t.bends - 1⟩ else t

/-- Grows the trunk layer `dy`. -/
def trunkLayer (p towards : Pos) (start : Int32) (t : Trunk) (dy : Int32) : Build Trunk := do
  let t := t.bend towards start dy
  let q : Pos := ⟨t.x, p.y + dy, t.z⟩
  if ← Build.isIn trunkOpen q then (square q).forM placeLog
  return t

/-- Four leaves, placed alike around the middle of the trunk. -/
def quarterLeaves (c : Pos) (dx dz : Int32) : Build Unit := do
  placeLeaf ⟨c.x + dx, c.y, c.z + dz⟩
  placeLeaf ⟨1 + c.x - dx, c.y, c.z + dz⟩
  placeLeaf ⟨c.x + dx, c.y, 1 + c.z - dz⟩
  placeLeaf ⟨1 + c.x - dx, c.y, 1 + c.z - dz⟩

/-- The crown layers below and above the top of the trunk. -/
def sideLayers (top : Pos) : Build Unit :=
  Build.forSquare (.closed (-2) 0) (.closed (-2) 0) fun dx dz => do
    quarterLeaves (top.down 1) dx dz
    if (-2 < dx ∨ -1 < dz) ∧ (dx ≠ -1 ∨ dz ≠ -2) then quarterLeaves (top.up 1) dx dz

/-- Whether an offset belongs to the crown layer at the top of the trunk. -/
def inMiddleLayer (dx dz : Int32) : Bool :=
  !((dx = -3 || dx = 4) && (dz = -3 || dz = 4)) && (dx.abs < 3 || dz.abs < 3)

/-- The crown layer at the top of the trunk. -/
def middleLayer (top : Pos) : Build Unit :=
  Build.forSquare (.closed (-3) 4) (.closed (-3) 4) fun dx dz => do
    if inMiddleLayer dx dz then placeLeaf (top.shift dx 0 dz)

/-- The leaves around a hanging log. -/
def logLeaves (c : Pos) : Build Unit := do
  Build.forOffsets 1 fun lx lz => placeLeaf (c.shift lx 0 lz)
  Build.forOffsets 2 fun lx lz => do
    unless isCorner 2 lx lz do placeLeaf (c.shift lx (-1) lz)

/-- Hangs logs from the crown below one column beside the trunk, one time in
three. -/
def hang (p top : Pos) (dx dz : Int32) : Build Unit := do
  if dx < 0 ∨ 1 < dx ∨ dz < 0 ∨ 1 < dz then
    unless 0 < (← Build.bounded 3) do
      let length := (← Build.bounded 3) + 2
      (Span.halfOpen 0 length).forM fun i => placeLog ⟨p.x + dx, top.y - i - 1, p.z + dz⟩
      logLeaves (top.shift dx 0 dz)

def build (p : Pos) : Build Bool := do
  let first ← Build.bounded 3
  let second ← Build.bounded 2
  let height := first + second + 6
  if p.y < 1 ∨ 256 ≤ p.y + height + 1 then return false
  unless ← Build.isIn Ground.soils (p.down 1) do return false
  unless ← isClear p height do return false
  (square (p.down 1)).forM fun q => Build.replace turnedSoils q Ground.dirt
  let towards := (Face.ofHorizontal (← Build.bounded 4)).delta
  let start := height - (← Build.bounded 4)
  let bends := 2 - (← Build.bounded 3)
  let t ← (Span.halfOpen 0 height).foldM (trunkLayer p towards start) ⟨p.x, p.z, bends⟩
  let top : Pos := ⟨t.x, p.y + height - 1, t.z⟩
  sideLayers top
  if ← Build.coin then (ring (top.up 2)).forM placeLeaf
  middleLayer top
  Build.forSquare (.closed (-1) 2) (.closed (-1) 2) (hang p top)
  return true

end DarkOak

end VoxelFeatures
