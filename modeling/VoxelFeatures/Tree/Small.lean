import VoxelFeatures.Tree.Ground

/-!
# Small trees

Oaks, birches and trees of any other species with a straight trunk under a
crown of four layers. The column has to be clear up to two layers above the
trunk, the more widely the higher up.
-/

namespace VoxelFeatures

structure SmallTree where
  species : Species
  minHeight : Int32
  /-- The exclusive bound of a second height draw, made only if positive. -/
  extraHeight : Int32

namespace SmallTree

def oak : SmallTree := ⟨.oak, 4, 0⟩

def birch : SmallTree := ⟨.birch, 5, 0⟩

/-- A birch of up to six more cells of trunk. -/
def tallBirch : SmallTree := ⟨.birch, 5, 7⟩

def leafReplaceable : BlockSet := .ofList [.air, .leaves, .vine]

def trunkReplaceable : BlockSet := leafReplaceable.insert .leaves2

/-- How far around the trunk layer `dy` has to be clear. The radius grows by
one above the base and by one at the top of the trunk, but only once where the
two layers are the same. -/
def clearRadius (height dy : Int32) : Int32 :=
  (if 1 ≤ dy then 1 else 0) + (if 0 ≤ height ∧ height ≠ 1 ∧ height ≤ dy then 1 else 0)

/-- Whether the column of a tree has room. -/
def isClear (s : BlockSet) (p : Pos) (height : Int32) : Build Bool :=
  (Span.halfOpen 0 (height + 3)).allM fun dy =>
    if isLayer (p.y + dy) then isSquareIn s (p.up dy) (clearRadius height dy) else return false

/-- The radius of the crown `depth` layers below its top, given as a number that
is not positive. -/
def crownRadius (least depth : Int32) : Int32 := least - depth / 2

/-- Whether a crown has a cell. Each corner of the square takes a draw, and the
corners of the top layer are left out whatever is drawn. -/
def hasLeaf (r depth dx dz : Int32) : Build Bool := do
  if isCorner r dx dz then
    let u ← Build.bounded 2
    return u ≠ 0 && depth ≠ 0
  else return true

/-- The crown layer `y` of a tree whose crown ends at `top`. -/
def crownLayer (leaf : Block) (p : Pos) (top y : Int32) : Build Unit :=
  let r := crownRadius 1 (y - top)
  Build.forSquare (.around p.x r) (.around p.z r) fun x z => do
    if ← hasLeaf r (y - top) (x - p.x) (z - p.z) then
      Build.replace leafReplaceable ⟨x, y, z⟩ leaf

def height (t : SmallTree) : Build Int32 := do
  let h := (← Build.bounded 3) + t.minHeight
  if 0 < t.extraHeight then return h + (← Build.bounded t.extraHeight) else return h

def build (t : SmallTree) (p : Pos) : Build Bool := do
  let h ← t.height
  unless ← isClear t.species.overridable p h do return false
  unless ← Build.isIn Ground.soilsAndFarmland (p.down 1) do return false
  Build.place (p.down 1) Ground.dirt
  let top := p.y + h
  (Span.closed (top - 3) top).forM (crownLayer t.species.leaf p top)
  growTrunk trunkReplaceable t.species.trunk p h
  return true

end SmallTree

end VoxelFeatures
