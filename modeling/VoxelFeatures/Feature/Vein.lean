import VoxelFeatures.SineTable
import VoxelFeatures.Build.Basic
import VoxelFeatures.Grid.Span
import VoxelFeatures.Feature.ConfigError

/-!
# Ore veins

A vein is a chain of ellipsoids along a horizontal segment of random direction,
thickest at its middle. Every cell of an ellipsoid that holds the host block
becomes ore. The segment and the ellipsoids follow from the draws and the
origin alone; `Ellipsoid.cells` lists the cells before any block is looked at.
-/

namespace VoxelFeatures

/-- What a vein replaces, by what, and how many ellipsoids long it is. -/
structure VeinSpec where
  host : BlockId
  ore : Block
  count : Int32
  count_pos : 0 < count
  data_le : ore.data ≤ 0x0F

namespace VeinSpec

/-- Accepts a positive count and an ore whose metadata fits in four bits. -/
def ofParams (host : BlockId) (ore : Block) (count : Int32) : Except ConfigError VeinSpec :=
  if hc : 0 < count then
    if hd : ore.data ≤ 0x0F then .ok ⟨host, ore, count, hc, hd⟩
    else .error (.metadataOutOfRange ore.data)
  else .error .emptyVein

end VeinSpec

/-- An upright ellipsoid of revolution. -/
structure Ellipsoid where
  x : Float
  y : Float
  z : Float
  /-- The horizontal half axis. -/
  halfWidth : Float
  halfHeight : Float

namespace Ellipsoid

/-- The distance of the middle of a cell from the centre, in half axes. -/
def offset (cell : Int32) (centre half : Float) : Float :=
  (cell.toFloat + 0.5 - centre) / half

/-- The words of the cells that an axis of the ellipsoid reaches. -/
def reach (centre half : Float) : List Int32 :=
  (Span.closed (floorWord (centre - half)) (floorWord (centre + half))).toList

/-- The cells whose middle lies inside, `x` before `y` before `z`. -/
def cells (e : Ellipsoid) : List Pos :=
  (reach e.x e.halfWidth).flatMap fun x =>
    let dx := offset x e.x e.halfWidth
    if dx * dx ≥ 1.0 then [] else
      (reach e.y e.halfHeight).flatMap fun y =>
        let dy := offset y e.y e.halfHeight
        if dx * dx + dy * dy ≥ 1.0 then [] else
          (reach e.z e.halfWidth).filterMap fun z =>
            let dz := offset z e.z e.halfWidth
            if dx * dx + dy * dy + dz * dz ≥ 1.0 then none else some ⟨x, y, z⟩

end Ellipsoid

namespace Vein

/-- The segment that a vein follows. -/
structure Segment where
  startX : Float
  stopX : Float
  startY : Float
  stopY : Float
  startZ : Float
  stopZ : Float

/-- The segment of an origin, a direction drawn in half turns, and the drawn
heights of its ends. Its middle is eight cells off the origin. -/
def segment (count : Int32) (p : Pos) (turn : Float32) (startDraw stopDraw : Int32) : Segment :=
  let angle := (turn.toFloat * pi).toFloat32
  let half := count.toFloat32 / 8.0
  let alongX := SineTable.sin angle * half
  let alongZ := SineTable.cos angle * half
  let midX := (p.x + 8).toFloat32
  let midZ := (p.z + 8).toFloat32
  { startX := (midX + alongX).toFloat
    stopX := (midX - alongX).toFloat
    startY := (p.y + startDraw - 2).toFloat
    stopY := (p.y + stopDraw - 2).toFloat
    startZ := (midZ + alongZ).toFloat
    stopZ := (midZ - alongZ).toFloat }

/-- The `i`th of `count` ellipsoids along a segment, with its drawn size. -/
def ellipsoid (count : Int32) (s : Segment) (i : Int32) (size : Float) : Ellipsoid :=
  let t := i.toFloat / count.toFloat
  let base := size * count.toFloat / 16.0
  let profile := (SineTable.sin (pi * t).toFloat32).toFloat + 1.0
  let half := (profile * base + 1.0) / 2.0
  { x := s.startX + (s.stopX - s.startX) * t
    y := s.startY + (s.stopY - s.startY) * t
    z := s.startZ + (s.stopZ - s.startZ) * t
    halfWidth := half
    halfHeight := half }

/-- Turns a cell to ore if it holds the host block. -/
def replaceHost (spec : VeinSpec) (p : Pos) : Build Unit := do
  if p.inHeight then
    if ← Build.isBlock p spec.host then Build.place p spec.ore

/-- Draws the size of the next ellipsoid and replaces the host in its cells. -/
def link (spec : VeinSpec) (s : Segment) (i : Int32) : Build Unit := do
  let size ← Build.double
  (ellipsoid spec.count s i size).cells.forM (replaceHost spec)

/-- A vein always succeeds. -/
def build (spec : VeinSpec) (p : Pos) : Build Bool := do
  let turn ← Build.single
  let startDraw ← Build.bounded 3
  let stopDraw ← Build.bounded 3
  let s := segment spec.count p turn startDraw stopDraw
  (Span.halfOpen 0 spec.count).forM (link spec s)
  return true

end Vein

end VoxelFeatures
