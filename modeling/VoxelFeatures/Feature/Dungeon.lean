import VoxelFeatures.Build.Walk

/-!
# Dungeons

A dungeon is a room of drawn size around its origin: a floor one layer below
the origin, walls of four layers, and a ceiling that has to be there already.
It is built where floor and ceiling have no hole and where between one and five
cells of the wall, two layers high, open on a cave.

The room is carved column row by column row, each from the top down. A wall
cell with air below it becomes air, so a doorway that was opened in the layer
below opens upwards too; other wall cells become cobblestone, floor cells mostly
moss stone. Chests are left alone.
-/

namespace VoxelFeatures

namespace Dungeon

/-- The box of a dungeon, walls and ceiling included. -/
structure Room where
  origin : Pos
  radiusX : Int32
  radiusZ : Int32

namespace Room

/-- The corner with the least coordinates, in the floor layer. -/
def low (r : Room) : Pos := r.origin - ⟨r.radiusX + 1, 1, r.radiusZ + 1⟩

/-- The corner with the greatest coordinates, in the ceiling layer. -/
def high (r : Room) : Pos := r.origin + ⟨r.radiusX + 1, 4, r.radiusZ + 1⟩

/-- Whether a column of the box belongs to a wall. -/
def isWall (r : Room) (x z : Int32) : Bool :=
  x = r.low.x || x = r.high.x || z = r.low.z || z = r.high.z

def spanX (r : Room) : Span := .closed r.low.x r.high.x

def spanY (r : Room) : Span := .closed r.low.y r.high.y

def spanZ (r : Room) : Span := .closed r.low.z r.high.z

/-- The layers that are carved, from the top down. -/
def carvedY (r : Room) : Span := (Span.halfOpen r.low.y r.high.y).reverse

end Room

/-- Counts the openings in the walls. There is no count when floor or ceiling
have a hole; the scan stops there. -/
def scanCell (r : Room) (p : Pos) (openings : Nat) : Build (Option Nat) := do
  let air ← Build.isAir p
  if p.y = r.low.y && air then return none
  else if p.y = r.high.y && air then return none
  else if p.y = r.origin.y && r.isWall p.x p.z && air then
    if ← Build.isAir (p.up 1) then return some (openings + 1) else return some openings
  else return some openings

/-- Scans some cells in order. -/
def scanAll (r : Room) : List Pos → Nat → Build (Option Nat)
  | [], openings => .done (some openings)
  | p :: ps, openings => do
      match ← scanCell r p openings with
      | some openings => scanAll r ps openings
      | none => return none

/-- The cells of the box, `x` before `y` before `z`. -/
def scanOrder (r : Room) : List Pos :=
  r.spanX.toList.flatMap fun x => r.spanY.toList.flatMap fun y =>
    r.spanZ.toList.map fun z => ⟨x, y, z⟩

/-- The number of openings of a box with whole floor and ceiling. -/
def openings? (r : Room) : Build (Option Nat) := scanAll r (scanOrder r) 0

/-- Whether a cell of the carved layers is inside the walls and above the floor. -/
def isInside (r : Room) (p : Pos) : Bool := !r.isWall p.x p.z && p.y ≠ r.low.y

/-- The stone of a wall or floor cell. Floor cells draw theirs. -/
def masonry (r : Room) (p : Pos) : Build BlockId := do
  if p.y = r.low.y then
    if (← Build.bounded 4) ≠ 0 then return .mossStone else return .cobblestone
  else return .cobblestone

/-- Carves one cell: the inside is emptied, a wall cell above air opens, and
other wall and floor cells turn to stone unless they are air. -/
def carve (r : Room) (p : Pos) : Build Unit := do
  if isInside r p then
    unless ← Build.isBlock p .chest do Build.place p .air
  else
    let hollow ← if 0 ≤ p.y then Build.isAir (p.down 1) else pure false
    if hollow then Build.place p .air
    else
      unless ← Build.isIn (.ofList [.air, .chest]) p do
        Build.place p (.plain (← masonry r p))

/-- The cells that are carved, in order. -/
def carveOrder (r : Room) : List Pos :=
  r.spanX.toList.flatMap fun x => r.carvedY.toList.flatMap fun y =>
    r.spanZ.toList.map fun z => ⟨x, y, z⟩

/-- The length of a side of the room, inside the walls. -/
def sideLength (radius : Int32) : Int32 := radius * 2 + 1

def build (p : Pos) : Build Bool := do
  let radiusX := (← Build.bounded 2) + 2
  let radiusZ := (← Build.bounded 2) + 2
  let r : Room := ⟨p, radiusX, radiusZ⟩
  match ← openings? r with
  | none => return false
  | some openings =>
      if openings < 1 ∨ 5 < openings then
        Build.report (.dungeonRejected p openings)
        return false
      else
        (carveOrder r).forM (carve r)
        Build.place p (.plain .monsterSpawner)
        Build.report (.dungeonPlaced p (sideLength radiusX) (sideLength radiusZ))
        return true

end Dungeon

end VoxelFeatures
