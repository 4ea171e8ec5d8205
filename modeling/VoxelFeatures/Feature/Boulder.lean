import VoxelFeatures.Build.Walk

/-!
# Boulders

A boulder is a heap of three overlapping spheres, each a step further and a
little lower than the one before. It first falls through air and leaves.
-/

namespace VoxelFeatures

structure Boulder where
  block : BlockId
  /-- The least radius of a sphere. -/
  radius : Int32
deriving DecidableEq, Repr

namespace Boulder

/-- The boulders of mossy cobblestone. -/
def mossy : Boulder := ⟨.mossStone, 0⟩

def fallThrough : BlockSet := .ofList [.air, .leaves, .leaves2]

/-- Falls onto the first block that carries a boulder. -/
def fall (p : Pos) : Nat → Build Pos
  | 0 => .done p
  | n + 1 => do
      if ← Build.isIn fallThrough (p.down 1) then fall (p.down 1) n else return p

/-- Whether a cell is within a distance of a sphere's middle, which lies at the
corner of its origin cell. -/
def isWithin (distance : Float) (dx dy dz : Int32) : Bool :=
  let x := dx.toFloat + 0.5
  let y := dy.toFloat + 0.5
  let z := dz.toFloat + 0.5
  x * x + y * y + z * z ≤ distance * distance

/-- Places one sphere, a third of the sum of the drawn radii wide. -/
def sphere (b : Boulder) (p : Pos) : Build Unit := do
  let rx := b.radius + (← Build.bounded 2)
  let ry := b.radius + (← Build.bounded 2)
  let rz := b.radius + (← Build.bounded 2)
  let distance := (rx + ry + rz).toFloat * 0.333 + 0.5
  Build.forSquare (.around p.x rx) (.around p.z rz) fun x z =>
    (Span.around p.y ry).forM fun y => do
      if isWithin distance (x - p.x) (y - p.y) (z - p.z) then
        Build.place ⟨x, y, z⟩ (.plain b.block)

/-- A step of one or two cells back and up to one cell on. -/
def sideStep : Build Int32 := do
  let back ← Build.bounded 2
  let bound ← Build.bounded 2
  let on ← Build.bounded (1 + bound)
  return -(1 + back) + on

/-- Places `n` spheres and returns where the next one would be. -/
def spheres (b : Boulder) (p : Pos) : Nat → Build Pos
  | 0 => .done p
  | n + 1 => do
      sphere b p
      let dx ← sideStep
      let fallen ← Build.bounded 2
      let dz ← sideStep
      spheres b ⟨p.x + dx, p.y - fallen, p.z + dz⟩ n

def build (b : Boulder) (p : Pos) : Build Bool := do
  let ground ← fall p (p.y.toInt - 3).toNat
  if ground.y ≤ 3 then return false
  let stop ← spheres b ground 3
  Build.report (.boulderEnds b.block stop)
  return true

end Boulder

end VoxelFeatures
