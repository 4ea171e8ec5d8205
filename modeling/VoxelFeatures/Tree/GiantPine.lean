import VoxelFeatures.Tree.Ground

/-!
# Giant pines

A giant pine stands on the ground found below its origin, with a trunk of two by
two columns that grows through everything, and a short crown. It may spread
podzol around its base.
-/

namespace VoxelFeatures

structure GiantPine where
  /-- Whether the soil around the base turns to podzol. -/
  podzol : Bool
deriving DecidableEq, Repr

namespace GiantPine

def soils : BlockSet := .ofList [.grass, .dirt, .podzol]

/-- Dirt in its podzol form. -/
def podzolDirt : Block := ⟨.dirt, 2⟩

def leafReplaceable : BlockSet := .ofList [.air, .leaves]

/-- The four columns of the trunk, as offsets. -/
def columns : List (Int32 × Int32) := [(0, 0), (0, 1), (1, 0), (1, 1)]

/-- Turns the soil within a drawn radius to podzol. -/
def spreadPodzol (base : Pos) : Build Unit := do
  let r := 2 + (← Build.bounded 2)
  Build.forSquare (.closed (-r) (1 + r)) (.closed (-r) (1 + r)) fun dx dz => do
    if dx * dx + dz * dz ≤ (r + 1) * (r + 1) then
      Build.replace Ground.soils ⟨base.x + dx, base.y - 1, base.z + dz⟩ podzolDirt

/-- Grows the trunk layer `dy`. -/
def trunkLayer (base : Pos) (dy : Int32) : Build Unit :=
  columns.forM fun (dx, dz) => Build.place (base.shift dx dy dz) Species.spruce.trunk

/-- The radius of the crown some layers below its top, drawn from the sixth on. -/
def crownRadius (fromTop : Int32) : Build Int32 := do
  if fromTop < 2 then return 0
  else if fromTop < 6 then return 1 + fromTop / 2
  else return 2 + (← Build.bounded 2)

/-- Places the crown layer `y`, a rounded square around the four columns. -/
def crownLayer (p : Pos) (top y : Int32) : Build Unit := do
  let r ← crownRadius (top - y)
  Build.forSquare (.closed (p.x - r) (p.x + 1 + r)) (.closed (p.z - r) (p.z + 1 + r))
    fun x z => do
      if (x - p.x).abs + (z - p.z).abs ≤ r + 2 then
        Build.replace leafReplaceable ⟨x, y, z⟩ Species.spruce.leaf

def build (t : GiantPine) (p : Pos) : Build Bool := do
  match ← Ground.below soils p with
  | none => return false
  | some ground =>
      if 110 < ground then return false
      let base : Pos := ⟨p.x, ground, p.z⟩
      unless ← columns.allM fun (dx, dz) => Build.isIn soils (base.shift dx (-1) dz) do
        return false
      let height := 13 + (← Build.bounded 15)
      if t.podzol then spreadPodzol base
      (Span.halfOpen 0 height).forM (trunkLayer base)
      let top := ground + height
      let bottom := top - (← Build.bounded 3) - 3
      (Span.closed bottom top).reverse.forM (crownLayer p top)
      return true

end GiantPine

end VoxelFeatures
