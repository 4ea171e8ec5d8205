import VoxelFeatures.Build.Walk

/-!
# Lakes

A lake sinks through air to the ground and digs out a basin: a union of drawn
ellipsoids in a box of sixteen by sixteen columns and eight layers, which never
reaches the sides of the box. The lower half of the basin fills with the fluid,
the upper half with air. No basin is dug that would open on a fluid beside its
upper half. Cells at or right below water stay as they are.
-/

namespace VoxelFeatures

/-- The cells of its box that a lake digs out. -/
structure LakeBasin where
  cells : Vector Bool 2048

namespace LakeBasin

/-- A vector of real coordinates in the box. -/
structure Vec where
  x : Float
  y : Float
  z : Float

/-- Three draws in `[0, 1)`, for `x`, `y` and `z`. -/
def unitVec : Build Vec := do
  let x ← Build.double
  let y ← Build.double
  let z ← Build.double
  return ⟨x, y, z⟩

/-- One of the ellipsoids of a basin. -/
structure Bowl where
  centre : Vec
  half : Vec

/-- The extent of a bowl along an axis, between half of and one and a half
times its mean. -/
def extent (u span least : Float) : Float := u * span + least

/-- The middle of a bowl along an axis, so that the bowl keeps a margin to both
sides of the box. -/
def middle (u box size margins margin : Float) : Float :=
  u * (box - size - margins) + margin + size / 2.0

/-- The bowl of two drawn vectors, for its size and its place. -/
def bowl (u v : Vec) : Bowl :=
  let size : Vec := ⟨extent u.x 6.0 3.0, extent u.y 4.0 2.0, extent u.z 6.0 3.0⟩
  { centre := ⟨middle v.x 16.0 size.x 2.0 1.0, middle v.y 8.0 size.y 4.0 2.0,
      middle v.z 16.0 size.z 2.0 1.0⟩
    half := ⟨size.x / 2.0, size.y / 2.0, size.z / 2.0⟩ }

/-- Whether a bowl holds a cell of the box. -/
def Bowl.holds (b : Bowl) (x y z : Nat) : Bool :=
  let dx := (x.toFloat - b.centre.x) / b.half.x
  let dy := (y.toFloat - b.centre.y) / b.half.y
  let dz := (z.toFloat - b.centre.z) / b.half.z
  dx * dx + dy * dy + dz * dz < 1.0

/-- Whether a cell is inside the box and not at one of its sides. -/
def isInner (x y z : Nat) : Bool :=
  1 ≤ x && x < 15 && 1 ≤ y && y < 7 && 1 ≤ z && z < 15

/-- The union of some bowls, cut off at the sides of the box. -/
def ofBowls (bowls : List Bowl) : LakeBasin :=
  ⟨.ofFn fun i =>
    let x := i.val / 128
    let z := i.val / 8 % 16
    let y := i.val % 8
    isInner x y z && bowls.any (·.holds x y z)⟩

/-- Whether a cell is in the basin. No cell outside the box is. -/
def has (b : LakeBasin) (x y z : Nat) : Bool :=
  if h : x < 16 ∧ y < 8 ∧ z < 16 then b.cells[x * 128 + z * 8 + y] else false

/-- Whether a cell is outside the basin and shares a face with a cell of it. -/
def isBorder (b : LakeBasin) (x y z : Nat) : Bool :=
  !b.has x y z &&
    (b.has (x + 1) y z || (0 < x && b.has (x - 1) y z) ||
      b.has x y (z + 1) || (0 < z && b.has x y (z - 1)) ||
      b.has x (y + 1) z || (0 < y && b.has x (y - 1) z))

/-- The cell at an offset from the corner of the box. -/
def cell (corner : Pos) (x y z : Nat) : Pos :=
  corner.shift (.ofNat x) (.ofNat y) (.ofNat z)

/-- The cells of the box between two layers, `x` before `z` before `y`, as
offsets from its corner. -/
def boxCells (low count : Nat) : List (Nat × Nat × Nat) :=
  (List.range 16).flatMap fun x => (List.range 16).flatMap fun z =>
    (List.range' low count).map fun y => (x, y, z)

/-- Draws some bowls. -/
def bowls : Nat → Build (List Bowl)
  | 0 => .done []
  | n + 1 => do
      let u ← unitVec
      let v ← unitVec
      return bowl u v :: (← bowls n)

/-- Draws a basin of four to seven bowls. -/
def draw : Build LakeBasin := do
  let more ← Build.bounded 4
  return ofBowls (← bowls (more + 4).toInt.toNat)

/-- The first border cell beside the upper half that holds a fluid. -/
def opening (corner : Pos) (b : LakeBasin) : List (Nat × Nat × Nat) → Build (Option Pos)
  | [] => .done none
  | (x, y, z) :: rest => do
      if b.isBorder x y z then
        if (← Build.look (cell corner x y z)).isFluid then return some (cell corner x y z)
        else opening corner b rest
      else opening corner b rest

/-- What a basin cell becomes. -/
def content (fluid : BlockId) (y : Nat) : Block := .plain (if 4 ≤ y then .air else fluid)

/-- Digs out one cell, unless it or the cell above it is water. -/
def dig (fluid : BlockId) (corner : Pos) (x y z : Nat) : Build Unit := do
  let p := cell corner x y z
  unless (← Build.look p).isWater do
    unless (← Build.look (p.up 1)).isWater do
      Build.place p (content fluid y)

/-- Digs out the cells of a basin. -/
def fill (fluid : BlockId) (corner : Pos) (b : LakeBasin) : Build Unit :=
  (boxCells 0 8).forM fun (x, y, z) => do
    if b.has x y z then dig fluid corner x y z

/-- The ground below the corner of a lake's box, found through air and not below
layer five. -/
def ground (p : Pos) : Build Pos :=
  let start := p - ⟨8, 0, 8⟩
  Build.sink start (start.y.toInt - 5).toNat

/-- A lake succeeds if its ground is above layer four and its basin opens on no
fluid. -/
def build (fluid : BlockId) (p : Pos) : Build Bool := do
  let bottom ← ground p
  if bottom.y ≤ 4 then return false
  let corner := bottom.down 4
  let b ← draw
  match ← opening corner b (boxCells 4 4) with
  | some fluidAt => do
      Build.report (.lakeOpens corner fluidAt)
      return false
  | none => do
      fill fluid corner b
      return true

end LakeBasin

end VoxelFeatures
