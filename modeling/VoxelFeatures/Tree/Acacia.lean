import VoxelFeatures.Grid.Face
import VoxelFeatures.Tree.Ground

/-!
# Acacias

An acacia has a trunk that bends towards one side near its top, a flat crown,
and mostly a second branch towards another side with a smaller crown. The
branch starts from the column of the origin.
-/

namespace VoxelFeatures

namespace Acacia

def leafReplaceable : BlockSet := .ofList [.air, .leaves, .leaves2]

/-- How far around the trunk layer `y` has to be clear: the base alone, one cell
along the trunk, two from its last layer on. -/
def clearRadius (p : Pos) (height y : Int32) : Int32 :=
  if p.y + 1 + height - 2 ≤ y then 2 else if y = p.y then 0 else 1

/-- Whether the column of a tree has room. -/
def isClear (p : Pos) (height : Int32) : Build Bool :=
  (Span.closed p.y (p.y + 1 + height)).allM fun y =>
    if isLayer y then
      isSquareIn Species.acacia.overridable ⟨p.x, y, p.z⟩ (clearRadius p height y)
    else return false

def placeLog (p : Pos) : Build Unit := Build.place p Species.acacia.trunk

def placeLeaf (p : Pos) : Build Unit := Build.replace leafReplaceable p Species.acacia.leaf

/-- A leaf layer without corners, with a small one above it. -/
def leafLayers (c : Pos) (r : Int32) : Build Unit := do
  Build.forOffsets r fun dx dz => do
    unless isCorner r dx dz do placeLeaf (c.shift dx 0 dz)
  Build.forOffsets 1 fun dx dz => placeLeaf (c.shift dx 1 dz)

/-- The crown of the trunk. -/
def crown (c : Pos) : Build Unit := do
  leafLayers c 3
  let above := c.up 1
  [above.east 2, above.west 2, above.south 2, above.north 2].forM placeLeaf

/-- A trunk on its way up: its last log, and how many cells it may still bend. -/
structure Trunk where
  last : Pos
  bends : Int32

/-- Grows the trunk layer `dy`, bending if it is high enough and has bends left. -/
def trunkLayer (p towards : Pos) (start : Int32) (t : Trunk) (dy : Int32) : Build Trunk := do
  let bent : Trunk :=
    if start ≤ dy ∧ 0 < t.bends then ⟨t.last + towards, t.bends - 1⟩ else t
  let q : Pos := ⟨bent.last.x, p.y + dy, bent.last.z⟩
  placeLog q
  return ⟨q, bent.bends⟩

/-- Grows a branch of at most `n` layers from layer `dy` on and returns its last
log. Layers below the first one have no log and no step to the side. -/
def branch (p towards : Pos) (height : Int32) : (n : Nat) → (dy : Int32) → (last : Pos) →
    (top : Option Pos) → Build (Option Pos)
  | 0, _, _, top => .done top
  | n + 1, dy, last, top => do
      if dy < height then
        if 1 ≤ dy then
          let q : Pos := ⟨last.x + towards.x, p.y + dy, last.z + towards.z⟩
          placeLog q
          branch p towards height n (dy + 1) q (some q)
        else branch p towards height n (dy + 1) last top
      else return top

/-- Grows the second branch of a trunk that started to bend in layer `start`. -/
def secondBranch (p towards : Pos) (height start : Int32) : Build Unit := do
  let dy := start - (← Build.bounded 2) - 1
  let length := 1 + (← Build.bounded 3)
  match ← branch p towards height length.toInt.toNat dy p none with
  | some top => leafLayers top 2
  | none => return ()

def build (p : Pos) : Build Bool := do
  let first ← Build.bounded 3
  let second ← Build.bounded 3
  let height := first + second + 5
  if p.y < 1 ∨ 256 < p.y + height + 1 then return false
  unless ← isClear p height do return false
  unless ← Build.isIn Ground.soils (p.down 1) do return false
  if 256 - height - 1 ≤ p.y then return false
  Build.place (p.down 1) Ground.dirt
  let side ← Build.bounded 4
  let start := height - (← Build.bounded 4) - 1
  let bends := 3 - (← Build.bounded 3)
  let t ← (Span.halfOpen 0 height).foldM
    (trunkLayer p (Face.ofHorizontal side).delta start) ⟨p, bends⟩
  crown t.last
  let other ← Build.bounded 4
  if other ≠ side then secondBranch p (Face.ofHorizontal other).delta height start
  return true

end Acacia

end VoxelFeatures
